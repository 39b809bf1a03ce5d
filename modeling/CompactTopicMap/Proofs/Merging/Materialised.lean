import CompactTopicMap.Proofs.Merging.Names
import CompactTopicMap.Proofs.Merging.Shared

/-!
Candidates are found in the given templates, but applied to what earlier ones have left of these.
-/

namespace CompactTopicMap

section Apart

def StandsAt (templates : List Template) (position : Nat) (entry : Entry) : Prop :=
  ∃ t, templates[position]? = some t ∧ entry ∈ t.entries

def StandApart (templates : List Template) (entry other : Entry) : Prop :=
  ∃ i j, i ≠ j ∧ StandsAt templates i entry ∧ StandsAt templates j other

variable {templates others : List Template} {entry other : Entry} {position : Nat}

theorem StandsAt.append (stands : StandsAt templates position entry) (others : List Template) :
    StandsAt (templates ++ others) position entry := by
  obtain ⟨t, listed, inside⟩ := stands
  refine ⟨t, ?_, inside⟩
  rw [List.getElem?_append_left (List.getElem?_eq_some_iff.mp listed).1, listed]

theorem StandApart.append (apart : StandApart templates entry other) (others : List Template) :
    StandApart (templates ++ others) entry other := by
  obtain ⟨i, j, differ, here, there⟩ := apart
  exact ⟨i, j, differ, here.append others, there.append others⟩

def Merging.listed (m : Merging) : List Template := m.working ++ m.created

open Merging

variable {m m' : Merging} {wanted : List Entry}

theorem StandsAt.factor (found : m.factor wanted position = some m') {i : Nat}
    (stands : StandsAt m.listed i entry) :
    StandsAt m'.listed i entry ∨ i = position ∧ StandsAt m'.listed m.listed.length entry := by
  obtain ⟨t, sub, rest, here, factored, working, created⟩ := factor_eq_some found
  obtain ⟨u, listed, inside⟩ := stands
  have bound := (List.getElem?_eq_some_iff.mp here).1
  have after : m'.listed = m.listed.set position rest ++ [sub] := by
    rw [Merging.listed, Merging.listed, working, created, List.set_append_left _ _ bound,
      List.append_assoc]
  have bound' : position < m.listed.length := by
    rw [Merging.listed, List.length_append]
    omega
  rw [after]
  by_cases same : i = position
  · subst same
    obtain rfl : u = t := by
      rw [Merging.listed, List.getElem?_append_left bound, here] at listed
      exact (Option.some.inj listed).symm
    obtain ⟨outside, split, remaining⟩ := factored.outside
    rcases List.mem_append.mp (split.mem_iff.mpr inside) with taken | left
    · refine .inr ⟨rfl, sub, ?_, taken⟩
      rw [List.getElem?_append_right (by simp), List.length_set, Nat.sub_self]
      rfl
    · refine .inl (StandsAt.append ⟨rest, List.getElem?_set_self bound', ?_⟩ [sub])
      exact remaining.mem_iff.mpr (List.mem_cons_of_mem _ left)
  · refine .inl (StandsAt.append ⟨u, ?_, inside⟩ [sub])
    rw [List.getElem?_set_ne (Ne.symm same), listed]

theorem StandApart.factor (found : m.factor wanted position = some m')
    (apart : StandApart m.listed entry other) : StandApart m'.listed entry other := by
  obtain ⟨i, j, differ, first, second⟩ := apart
  have bound {k : Nat} {e : Entry} (stands : StandsAt m.listed k e) : k ≠ m.listed.length := by
    obtain ⟨t, listed, _⟩ := stands
    exact Nat.ne_of_lt (List.getElem?_eq_some_iff.mp listed).1
  -- Only one template loses entries, so at most one of the two moves.
  rcases StandsAt.factor found first with here | ⟨rfl, moved⟩
  · rcases StandsAt.factor found second with there | ⟨rfl, moved⟩
    · exact ⟨i, j, differ, here, there⟩
    · exact ⟨i, _, bound first, here, moved⟩
  · rcases StandsAt.factor found second with there | ⟨rfl, _⟩
    · exact ⟨_, j, (bound second).symm, moved, there⟩
    · exact absurd rfl differ

theorem StandApart.foldl_apply {candidates : List Candidate}
    (apart : StandApart m.listed entry other) :
    StandApart (candidates.foldl apply m).listed entry other := by
  refine foldl_apply_induction (P := fun after => StandApart after.listed entry other)
    (fun _ _ _ _ _ _ before found => before.factor found) (fun c _ before _ earlier => ?_) apart
  rw [Merging.listed, Merging.addShared, ← List.append_assoc]
  exact earlier.append _

end Apart

section Steps

namespace Merging

variable {m m' : Merging} {wanted : List Entry} {position : Nat}

def Holds (m : Merging) (wanted : List Entry) (position : Nat) : Prop :=
  ∃ t ∈ m.working[position]?, wanted.Subperm t.entries

instance (m : Merging) (wanted : List Entry) (position : Nat) : Decidable (m.Holds wanted position) :=
  inferInstanceAs (Decidable (∃ t ∈ m.working[position]?, wanted.Subperm t.entries))

def holders (m : Merging) (c : Candidate) : List Nat :=
  c.templates.filter (m.Holds c.entries ·)

theorem factor_isSome_iff (some_wanted : wanted ≠ []) :
    (m.factor wanted position).isSome = true ↔ m.Holds wanted position := by
  simp only [factor, Holds, Option.bind_eq_bind]
  cases m.working[position]? with
  | none => simp
  | some t =>
    simp only [Option.bind_some, Option.mem_some_iff, exists_eq_left', ← positions?_isSome_iff]
    cases found : positions? t.entries wanted with
    | none => rfl
    | some positions =>
      have located := positions?_locates found
      cases positions with
      | nil => exact absurd (List.map_eq_nil_iff.mp (List.nil_perm.mp located.found)) some_wanted
      | cons first positions => rfl

structure FactoredAt (working : List Template) (wanted : List Entry) (position : Nat)
    (sub : Template) : Prop where
  inside : sub.entries.Perm wanted
  invoked : ∃ t, working[position]? = some t ∧ sub.invoke ∈ t.entries ∧
    ∃ number : Nat, sub.name = t.name ++ "-invoc-" ++ Nat.repr number

structure FactorsOut (m after : Merging) (wanted : List Entry) (positions : List Nat)
    (subs : List Template) : Prop where
  created : after.created = m.created ++ subs
  named : after.merger.named = m.merger.named + subs.length
  factored : List.Forall₂ (FactoredAt after.working wanted) positions subs

theorem factor_elsewhere (found : m.factor wanted position = some m') {other : Nat}
    (differ : position ≠ other) : m'.working[other]? = m.working[other]? := by
  obtain ⟨t, sub, rest, _, _, working, _⟩ := factor_eq_some found
  rw [working, List.getElem?_set_ne differ]

theorem FactorsOut.cons (found : m.factor wanted position = some m') {after : Merging}
    {positions : List Nat} {subs : List Template} (later : m'.FactorsOut after wanted positions subs)
    (stays : after.working[position]? = m'.working[position]?) :
    ∃ sub, m.FactorsOut after wanted (position :: positions) (sub :: subs) := by
  obtain ⟨t, sub, rest, here, factored, working, created⟩ := factor_eq_some found
  have listed : after.working[position]? = some rest := by
    rw [stays, working, List.getElem?_set_self (List.getElem?_eq_some_iff.mp here).1]
  have invoked : sub.invoke ∈ rest.entries := by
    obtain ⟨outside, _, remaining⟩ := factored.outside
    exact remaining.mem_iff.mpr List.mem_cons_self
  have first : FactoredAt after.working wanted position sub :=
    ⟨factored.inside, rest, listed, invoked, factored.name ▸ factored.numbered⟩
  refine ⟨sub, ?_, ?_, .cons first later.factored⟩
  · rw [later.created, created, List.append_assoc]
    rfl
  · rw [later.named, (factor_number found).1, List.length_cons]
    omega

theorem foldl_factorNext_none {positions : List Nat} {flag : Bool}
    (none : ∀ position ∈ positions, m.factor wanted position = none) :
    positions.foldl (factorNext wanted) (m, flag) = (m, flag) := by
  induction positions with
  | nil => rfl
  | cons position positions ih =>
    obtain ⟨here, others⟩ := List.forall_mem_cons.mp none
    rw [List.foldl_cons, factorNext, here]
    exact ih others

theorem foldl_factorNext_elsewhere {positions : List Nat} {state : Merging × Bool}
    (elsewhere : position ∉ positions) :
    (positions.foldl (factorNext wanted) state).1.working[position]? =
      state.1.working[position]? := by
  induction positions generalizing state with
  | nil => rfl
  | cons other positions ih =>
    obtain ⟨differ, elsewhere⟩ := List.ne_and_not_mem_of_not_mem_cons elsewhere
    rw [List.foldl_cons, ih elsewhere, factorNext]
    cases found : state.1.factor wanted other with
    | none => rfl
    | some next => exact factor_elsewhere found (Ne.symm differ)

theorem foldl_factorNext_factorsOut (some_wanted : wanted ≠ []) {positions : List Nat}
    (distinct : positions.Nodup) (flag : Bool) :
    let holders := positions.filter (m.Holds wanted ·)
    let result := positions.foldl (factorNext wanted) (m, flag)
    result.2 = (flag || !holders.isEmpty) ∧ ∃ subs, m.FactorsOut result.1 wanted holders subs := by
  induction positions generalizing m flag with
  | nil => exact ⟨(Bool.or_false flag).symm, [], (List.append_nil _).symm, rfl, .nil⟩
  | cons position positions ih =>
    obtain ⟨fresh, distinct⟩ := List.nodup_cons.mp distinct
    have holds : (m.factor wanted position).isSome = true ↔ m.Holds wanted position :=
      factor_isSome_iff some_wanted
    rw [List.foldl_cons, factorNext]
    cases found : m.factor wanted position with
    | none =>
      rw [List.filter_cons_of_neg (by simp [← holds, found])]
      exact ih distinct flag
    | some next =>
      -- No later position is this one, so the later templates hold what they held before this step.
      have unchanged : positions.filter (next.Holds wanted ·) =
          positions.filter (m.Holds wanted ·) := by
        refine List.filter_congr fun other member => decide_eq_decide.mpr ?_
        have differ : position ≠ other := fun same => fresh (same ▸ member)
        rw [Holds, Holds, factor_elsewhere found differ]
      obtain ⟨applied, subs, later⟩ := ih (m := next) distinct true
      obtain ⟨sub, all⟩ := later.cons found (foldl_factorNext_elsewhere fresh)
      rw [List.filter_cons_of_pos (by simp [← holds, found]), ← unchanged]
      exact ⟨applied.trans (Bool.or_true flag).symm, sub :: subs, all⟩

/-- The candidate gets new templates for it, and one of its own. -/
structure Materialises (m : Merging) (c : Candidate) (subs : List Template) : Prop where
  created : (m.apply c).created =
    m.created ++ subs ++ [c.share (m.merger.named + subs.length + 1)]
  factored : List.Forall₂ (FactoredAt (m.apply c).working c.entries) (m.holders c) subs

theorem apply_eq_self {c : Candidate} (some_entries : c.entries ≠ [])
    (unshared : c.templates.length ≤ 1 ∨ m.holders c = []) : m.apply c = m := by
  rw [apply_eq]
  split
  · rfl
  · rename_i several
    have lacks := List.filter_eq_nil_iff.mp (unshared.resolve_left several)
    have none : ∀ position ∈ c.templates, m.factor c.entries position = none := by
      intro position member
      have missing := lacks position member
      rwa [decide_eq_true_eq, ← factor_isSome_iff some_entries, Bool.not_eq_true,
        Option.isSome_eq_false_iff, Option.isNone_iff_eq_none] at missing
    rw [foldl_factorNext_none none]
    rfl

theorem apply_materialises {c : Candidate} (some_entries : c.entries ≠ [])
    (distinct : c.templates.Nodup) (several : 2 ≤ c.templates.length) (held : m.holders c ≠ []) :
    ∃ subs, m.Materialises c subs := by
  obtain ⟨applied, subs, created, named, factored⟩ :=
    foldl_factorNext_factorsOut (m := m) some_entries distinct false
  have shared : m.apply c =
      (c.templates.foldl (factorNext c.entries) (m, false)).1.addShared c := by
    rw [apply_eq, if_neg (Nat.not_le.mpr several)]
    dsimp only
    rw [if_pos]
    rw [applied, Bool.false_or, Bool.not_eq_true', List.isEmpty_eq_false_iff]
    exact held
  refine ⟨subs, ?_, ?_⟩
  · rw [shared, addShared]
    dsimp only
    rw [created, named]
  · rw [shared]
    exact factored

end Merging

end Steps

section Merge

/-- At least two of the new templates hold the entries of the candidate, and two different templates
invoke them. -/
def FactoredTwice (c : Candidate) (subs templates : List Template) : Prop :=
  ∃ sub ∈ subs, ∃ sub' ∈ subs, sub ≠ sub' ∧ sub.entries.Perm c.entries ∧
    sub'.entries.Perm c.entries ∧ StandApart templates sub.invoke sub'.invoke

namespace Merging

variable {m : Merging} {c : Candidate} {subs : List Template}

theorem Materialises.factoredTwice (made : m.Materialises c subs) (positions : (m.holders c).Nodup)
    (names : ((m.apply c).created.map Template.name).Nodup) (several : 2 ≤ (m.holders c).length) :
    FactoredTwice c subs (m.apply c).listed := by
  -- Created templates differ in their names, so the new ones are not one template twice.
  have distinct : subs.Nodup := by
    rw [made.created, List.map_append, List.map_append] at names
    exact names.of_append_left.of_append_right.of_map
  have factored := made.factored
  obtain ⟨i, j, rest, held⟩ : ∃ i j rest, m.holders c = i :: j :: rest := by
    match m.holders c, several with
    | i :: j :: rest, _ => exact ⟨i, j, rest, rfl⟩
  rw [held] at positions factored
  have differ : i ≠ j := (List.ne_and_not_mem_of_not_mem_cons (List.nodup_cons.mp positions).1).1
  obtain ⟨sub, _, first, others, rfl⟩ := List.forall₂_cons_left_iff.mp factored
  obtain ⟨sub', further, second, _, rfl⟩ := List.forall₂_cons_left_iff.mp others
  obtain ⟨t, here, invoked, _⟩ := first.invoked
  obtain ⟨t', there, invoked', _⟩ := second.invoked
  refine ⟨sub, by simp, sub', by simp, ?_, first.inside, second.inside, i, j, differ,
    StandsAt.append ⟨t, here, invoked⟩ _, StandsAt.append ⟨t', there, invoked'⟩ _⟩
  exact (List.ne_and_not_mem_of_not_mem_cons (List.nodup_cons.mp distinct).1).1

theorem Materialises.two_le (made : m.Materialises c subs) {templates : List Template}
    (twice : FactoredTwice c subs templates) : 2 ≤ (m.holders c).length := by
  obtain ⟨sub, here, sub', there, differ, _⟩ := twice
  rw [made.factored.length_eq]
  by_contra few
  match subs with
  | [] => cases here
  | [only] => exact differ ((List.mem_singleton.mp here).trans (List.mem_singleton.mp there).symm)
  | _ :: _ :: _ => simp at few

theorem created_subset {candidates : List Candidate} :
    m.created ⊆ (candidates.foldl apply m).created := by
  refine foldl_apply_induction (P := fun after => m.created ⊆ after.created)
    (fun _ _ _ _ _ _ earlier found => ?_) (fun _ _ _ _ earlier => ?_) (List.Subset.refl _)
  · obtain ⟨_, _, _, _, _, _, created⟩ := factor_eq_some found
    rw [created]
    exact List.subset_append_of_subset_left _ earlier
  · exact List.subset_append_of_subset_left _ earlier

end Merging

namespace Merger

def after (merger : Merger) (templates : List Template) (applied : List Candidate) : Merging :=
  applied.foldl Merging.apply { merger, working := templates }

variable {merger : Merger} {templates : List Template} {earlier later : List Candidate}
  {c : Candidate}

theorem after_names {applied : List Candidate} (among : applied ⊆ merger.candidates templates) :
    (merger.after templates applied).Names merger templates :=
  Merging.foldl_apply_induction (fun _ _ _ _ _ _ names found => names.factor found)
    (fun c member _ _ names => names.addShared (merger.candidates_drawn templates c (among member)))
    .start

/-- A candidate is materialised if it was shared at first and any template still holds its entries
when its turn comes. It is then factored out of all templates that hold them, so that two templates
of the result invoke templates made for it exactly if two templates still held its entries. -/
theorem materialised_twice_iff (split : merger.candidates templates = earlier ++ c :: later) :
    let m := merger.after templates earlier
    let result := (merger.merge templates).2
    (c.templates.length ≤ 1 ∨ m.holders c = [] → m.apply c = m) ∧
      (2 ≤ c.templates.length → m.holders c ≠ [] → ∃ subs, m.Materialises c subs ∧
        (∀ t ∈ (m.apply c).created, t ∈ result) ∧
        (FactoredTwice c subs result ↔ 2 ≤ (m.holders c).length)) := by
  intro m result
  have inside : c ∈ merger.candidates templates := split ▸ by simp
  have some_entries := (merger.candidates_drawn templates c inside).ne_nil
  have ascending := ((candidates_exact merger templates).templates c inside).1
  have distinct : c.templates.Nodup := ascending.imp Nat.ne_of_lt
  have among : earlier ++ [c] ⊆ merger.candidates templates := by
    rw [split]
    exact List.append_subset.mpr ⟨List.subset_append_left _ _, by simp⟩
  have merged : result = (later.foldl Merging.apply (m.apply c)).listed := by
    simp only [result, merge, split, List.foldl_append, List.foldl_cons]
    rfl
  have names : (m.apply c).Names merger templates := by
    have names := after_names among
    rwa [after, List.foldl_append] at names
  refine ⟨Merging.apply_eq_self some_entries, fun several held => ?_⟩
  obtain ⟨subs, made⟩ := Merging.apply_materialises some_entries distinct several held
  refine ⟨subs, made, fun t member => ?_, made.two_le, fun two => ?_⟩
  · rw [merged]
    exact List.mem_append_right _ (Merging.created_subset member)
  · obtain ⟨sub, here, sub', there, differ, entries, entries', apart⟩ :=
      made.factoredTwice (distinct.filter _) names.distinct two
    rw [merged]
    exact ⟨sub, here, sub', there, differ, entries, entries', apart.foldl_apply⟩

def typed (types : List Nat) : List Entry := types.map fun type => .statement (.isa (.fixed ⟨type⟩))

def overlapping : List Template :=
  [⟨"first", .topic, typed [0, 1]⟩, ⟨"second", .topic, typed [0, 1, 2]⟩,
    ⟨"third", .topic, typed [1, 2]⟩]

theorem overlapping_candidates : (make 2 none).candidates overlapping =
    [⟨typed [0, 1, 2], [1]⟩, ⟨typed [0, 1], [0, 1]⟩, ⟨typed [1, 2], [1, 2]⟩, ⟨typed [0, 2], [1]⟩] := by
  cbv

theorem overlapping_materialised :
    let m := (make 2 none).after overlapping [⟨typed [0, 1, 2], [1]⟩]
    let c : Candidate := ⟨typed [0, 1], [0, 1]⟩
    let result := ((make 2 none).merge overlapping).2
    m.holders c = [0, 1] ∧ ∃ subs, m.Materialises c subs ∧ (∀ t ∈ (m.apply c).created, t ∈ result) ∧
      FactoredTwice c subs result := by
  intro m c result
  have held : m.holders c = [0, 1] := by decide
  have split : (make 2 none).candidates overlapping = [⟨typed [0, 1, 2], [1]⟩] ++ c ::
      [⟨typed [1, 2], [1, 2]⟩, ⟨typed [0, 2], [1]⟩] := overlapping_candidates
  obtain ⟨_, materialised⟩ := materialised_twice_iff split
  obtain ⟨subs, made, inside, twice⟩ := materialised (by decide) (held ▸ List.cons_ne_nil _ _)
  exact ⟨held, subs, made, inside, twice.mpr (held ▸ Nat.le_refl _)⟩

/-- The second and the third template share two entries, but the second has lost one of them when it is
their turn. They are factored out of the third alone. -/
theorem overlapping_factored_once :
    (∀ t ∈ overlapping, t.validate = .ok ()) ∧
      ∃ earlier c later subs, (make 2 none).candidates overlapping = earlier ++ c :: later ∧
        ((make 2 none).after overlapping earlier).Materialises c subs ∧
        ¬ FactoredTwice c subs ((make 2 none).merge overlapping).2 := by
  let earlier : List Candidate := [⟨typed [0, 1, 2], [1]⟩, ⟨typed [0, 1], [0, 1]⟩]
  let c : Candidate := ⟨typed [1, 2], [1, 2]⟩
  let sub : Template := ⟨"third-invoc-4", .topic, typed [1, 2]⟩
  have left : ((make 2 none).after overlapping earlier).working =
      [⟨"first", .topic, [.invocation "first-invoc-1" .topic (typed [0, 1])]⟩,
        ⟨"second", .topic, .invocation "second-invoc-2" .topic (typed [0, 1]) :: typed [2]⟩,
        ⟨"third", .topic, typed [1, 2]⟩] := by cbv
  have held : ((make 2 none).after overlapping earlier).holders c = [2] := by
    rw [Merging.holders]
    simp only [Merging.Holds, left]
    decide
  have invoked : (((make 2 none).after overlapping earlier).apply c).working[2]? =
      some ⟨"third", .topic, [sub.invoke]⟩ := by cbv
  have made : ((make 2 none).after overlapping earlier).Materialises c [sub] := by
    refine ⟨by cbv, ?_⟩
    rw [held]
    exact .cons ⟨.refl _, _, invoked, List.mem_singleton_self _, 4, by decide⟩ .nil
  refine ⟨by decide, earlier, c, _, [sub], overlapping_candidates, made, ?_⟩
  rintro ⟨s, here, s', there, differ, _⟩
  exact differ ((List.mem_singleton.mp here).trans (List.mem_singleton.mp there).symm)

end Merger

end Merge

end CompactTopicMap
