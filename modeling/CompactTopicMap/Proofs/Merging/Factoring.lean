import CompactTopicMap.Proofs.Merging.Positions

namespace CompactTopicMap

/-- The new template holds the wanted entries of `t`; what remains of `t` invokes it in their place.
-/
structure Template.Factored (wanted : List Entry) (t sub rest : Template) : Prop where
  numbered : ∃ number : Nat, sub.name = t.name ++ "-invoc-" ++ Nat.repr number
  topic : sub.kind = .topic
  inside : sub.entries.Perm wanted
  name : rest.name = t.name
  kind : rest.kind = t.kind
  outside : ∃ outside, (sub.entries ++ outside).Perm t.entries ∧
    rest.entries.Perm (sub.invoke :: outside)

def Candidate.share (c : Candidate) (number : Nat) : Template :=
  ⟨"merged-" ++ Nat.repr number, .topic, c.entries⟩

namespace Merging

variable {m m' : Merging}

theorem factor_eq_some {wanted : List Entry} {position : Nat}
    (found : m.factor wanted position = some m') :
    ∃ t sub rest, m.working[position]? = some t ∧ t.Factored wanted sub rest ∧
      m'.working = m.working.set position rest ∧ m'.created = m.created ++ [sub] := by
  simp only [factor, Option.bind_eq_bind, Option.bind_eq_some_iff, Option.some.injEq] at found
  rcases found with ⟨t, listed, positions, matched, first, _, rfl⟩
  have located := positions?_locates matched
  refine ⟨t, _, _, listed, ?_, rfl, rfl⟩
  exact {
    numbered := ⟨m.merger.named + 1, rfl⟩
    topic := rfl
    inside := located.inside_perm
    name := rfl
    kind := rfl
    outside := by
      refine ⟨_, splitAtPositions_perm t.entries positions, ?_⟩
      refine List.perm_middle.trans (.cons _ ?_)
      rw [List.take_append_drop] }

def factorNext (wanted : List Entry) (state : Merging × Bool) (position : Nat) : Merging × Bool :=
  match state.1.factor wanted position with
  | some m => (m, true)
  | none => state

def addShared (m : Merging) (c : Candidate) : Merging :=
  let named := m.merger.named + 1
  { m with merger := { m.merger with named }, created := m.created ++ [c.share named] }

theorem apply_eq (m : Merging) (c : Candidate) :
    m.apply c =
      if c.templates.length ≤ 1 then m
      else
        let result := c.templates.foldl (factorNext c.entries) (m, false)
        if result.2 then result.1.addShared c else result.1 := rfl

/-- The candidate was factored out of one of its templates in a state with the property. -/
def Factors (P : Merging → Prop) (c : Candidate) : Prop :=
  ∃ before after, ∃ position ∈ c.templates, P before ∧
    before.factor c.entries position = some after

section Induction

variable {P : Merging → Prop} {c : Candidate}

theorem factorNext_induction
    (factor : ∀ {m m' position}, position ∈ c.templates → P m →
      m.factor c.entries position = some m' → P m')
    {positions : List Nat} (among : positions ⊆ c.templates) (state : Merging × Bool)
    (start : P state.1) (earlier : state.2 = true → Factors P c) :
    P (positions.foldl (factorNext c.entries) state).1 ∧
      ((positions.foldl (factorNext c.entries) state).2 = true → Factors P c) := by
  induction positions generalizing state with
  | nil => exact ⟨start, earlier⟩
  | cons position positions ih =>
    obtain ⟨here, others⟩ := List.cons_subset.mp among
    rw [List.foldl_cons, factorNext]
    cases factored : state.1.factor c.entries position with
    | none => exact ih others state start earlier
    | some next =>
      have applied : Factors P c := ⟨state.1, next, position, here, start, factored⟩
      exact ih others (next, true) (factor here start factored) fun _ => applied

theorem apply_induction
    (factor : ∀ {m m' position}, position ∈ c.templates → P m →
      m.factor c.entries position = some m' → P m')
    (share : ∀ {m}, Factors P c → P m → P (m.addShared c)) (start : P m) : P (m.apply c) := by
  rw [apply_eq]
  split
  · exact start
  · obtain ⟨kept, applied⟩ :=
      factorNext_induction factor (List.Subset.refl c.templates) (m, false) start nofun
    dsimp only
    split
    · rename_i some_applied
      exact share (applied some_applied) kept
    · exact kept

theorem foldl_apply_induction {candidates : List Candidate}
    (factor : ∀ c ∈ candidates, ∀ {m m' position}, position ∈ c.templates → P m →
      m.factor c.entries position = some m' → P m')
    (share : ∀ c ∈ candidates, ∀ {m}, Factors P c → P m → P (m.addShared c)) (start : P m) :
    P (candidates.foldl apply m) := by
  induction candidates generalizing m with
  | nil => exact start
  | cons c candidates ih =>
    apply ih
    · exact fun d member => factor d (List.mem_cons_of_mem c member)
    · exact fun d member => share d (List.mem_cons_of_mem c member)
    · exact apply_induction (factor c List.mem_cons_self) (share c List.mem_cons_self) start

end Induction

end Merging

theorem Merger.merge_induction {P : Merging → Prop} {merger : Merger} {templates : List Template}
    (start : P { merger, working := templates })
    (factor : ∀ c ∈ merger.candidates templates, ∀ {m m' position}, position ∈ c.templates → P m →
      m.factor c.entries position = some m' → P m')
    (share : ∀ c ∈ merger.candidates templates, ∀ {m}, Merging.Factors P c → P m →
      P (m.addShared c)) :
    ∃ m, P m ∧ merger.merge templates = (m.merger, m.working ++ m.created) :=
  ⟨_, Merging.foldl_apply_induction factor share start, rfl⟩

end CompactTopicMap
