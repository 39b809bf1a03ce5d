import CompactTopicMap.Proofs.Merging.Candidates
import CompactTopicMap.Proofs.Merging.Factoring

namespace CompactTopicMap

namespace Merging

variable {m m' : Merging}

/-- Factors out entries with checked accesses. Inside of the result there is nothing if the template
does not hold the wanted entries. -/
def factorChecked (m : Merging) (wanted : List Entry) (position : Nat) :
    Option (Option Merging) := do
  let template ← m.working[position]?
  match positions? template.entries wanted with
  | none => some none
  | some positions =>
    let inside ← positions.mapM (template.entries[·]?)
    let first ← positions.head?
    let outside ← positions.foldrM removeAt? template.entries
    let named := m.merger.named + 1
    let sub : Template := ⟨template.name ++ "-invoc-" ++ Nat.repr named, .topic, inside⟩
    let entries ← insertAt? first sub.invoke outside
    some (some {
      merger := { m.merger with named }
      working := m.working.set position { template with entries }
      created := m.created ++ [sub] })

theorem factorChecked_eq {wanted : List Entry} {position : Nat}
    (bound : position < m.working.length) (some_wanted : wanted ≠ []) :
    m.factorChecked wanted position = some (m.factor wanted position) := by
  simp only [factorChecked, factor, List.getElem?_eq_getElem bound, Option.bind_eq_bind,
    Option.bind_some]
  cases matched : positions? m.working[position].entries wanted with
  | none => rfl
  | some positions =>
    have located := positions?_locates matched
    have read := mapM_getElem?_eq located.ascending located.bounded
    have removed := foldrM_removeAt? located.ascending located.bounded
    cases positions with
    | nil => exact absurd (List.map_eq_nil_iff.mp (List.nil_perm.mp located.found)) some_wanted
    | cons first positions =>
      have inserted := insertAt?_first located
      simp only [read, removed, List.head?_cons, Option.bind_some, inserted]

def factorNextChecked (wanted : List Entry) (state : Merging × Bool) (position : Nat) :
    Option (Merging × Bool) :=
  (state.1.factorChecked wanted position).map fun
    | some m => (m, true)
    | none => state

def applyChecked (m : Merging) (c : Candidate) : Option Merging :=
  if c.templates.length ≤ 1 then some m
  else
    (c.templates.foldlM (factorNextChecked c.entries) (m, false)).map fun result =>
      if result.2 then result.1.addShared c else result.1

theorem factorNext_length (wanted : List Entry) (state : Merging × Bool) (position : Nat) :
    (factorNext wanted state position).1.working.length = state.1.working.length := by
  rw [factorNext]
  cases found : state.1.factor wanted position with
  | none => rfl
  | some m =>
    obtain ⟨t, sub, rest, _, _, working, _⟩ := factor_eq_some found
    dsimp only
    rw [working, List.length_set]

theorem foldlM_factorNextChecked {wanted : List Entry} (some_wanted : wanted ≠ [])
    {positions : List Nat} (state : Merging × Bool)
    (bounded : ∀ position ∈ positions, position < state.1.working.length) :
    positions.foldlM (factorNextChecked wanted) state =
      some (positions.foldl (factorNext wanted) state) := by
  induction positions generalizing state with
  | nil => rfl
  | cons position positions ih =>
    obtain ⟨bound, bounded⟩ := List.forall_mem_cons.mp bounded
    have step : factorNextChecked wanted state position = some (factorNext wanted state position) := by
      rw [factorNextChecked, factorChecked_eq bound some_wanted]
      rfl
    rw [List.foldlM_cons, step, List.foldl_cons, Option.bind_eq_bind, Option.bind_some]
    apply ih
    intro other member
    rw [factorNext_length]
    exact bounded other member

theorem applyChecked_eq {c : Candidate} (some_entries : c.entries ≠ [])
    (bounded : ∀ position ∈ c.templates, position < m.working.length) :
    m.applyChecked c = some (m.apply c) := by
  rw [applyChecked, apply_eq, foldlM_factorNextChecked some_entries (m, false) bounded]
  split <;> rfl

theorem apply_length (m : Merging) (c : Candidate) :
    (m.apply c).working.length = m.working.length := by
  apply apply_induction (P := fun after => after.working.length = m.working.length)
  · intro before after position _ same found
    have step := factorNext_length c.entries (before, false) position
    rw [factorNext, found] at step
    exact step.trans same
  · intro _ _ same
    exact same
  · rfl

theorem foldlM_applyChecked {candidates : List Candidate} (m : Merging)
    (some_entries : ∀ c ∈ candidates, c.entries ≠ [])
    (bounded : ∀ c ∈ candidates, ∀ position ∈ c.templates, position < m.working.length) :
    candidates.foldlM applyChecked m = some (candidates.foldl apply m) := by
  induction candidates generalizing m with
  | nil => rfl
  | cons c candidates ih =>
    obtain ⟨here, some_entries⟩ := List.forall_mem_cons.mp some_entries
    obtain ⟨bound, bounded⟩ := List.forall_mem_cons.mp bounded
    rw [List.foldlM_cons, applyChecked_eq here bound, List.foldl_cons, Option.bind_eq_bind,
      Option.bind_some]
    apply ih (m.apply c) some_entries
    -- Candidates are applied to rewritten templates, of which there are as many as before.
    rw [apply_length]
    exact bounded

end Merging

def Merger.mergeChecked (merger : Merger) (templates : List Template) :
    Option (Merger × List Template) :=
  ((merger.candidates templates).foldlM Merging.applyChecked { merger, working := templates }).map
    fun m => (m.merger, m.working ++ m.created)

theorem Merger.mergeChecked_eq (merger : Merger) (templates : List Template) :
    merger.mergeChecked templates = some (merger.merge templates) := by
  have some_entries : ∀ c ∈ merger.candidates templates, c.entries ≠ [] :=
    fun c member => (merger.candidates_drawn templates c member).ne_nil
  have bounded : ∀ c ∈ merger.candidates templates, ∀ position ∈ c.templates,
      position < templates.length := by
    intro c member position inside
    obtain ⟨t, listed, _⟩ := merger.candidates_topics templates c member position inside
    exact (List.getElem?_eq_some_iff.mp listed).1
  rw [mergeChecked, Merging.foldlM_applyChecked _ some_entries bounded]
  rfl

end CompactTopicMap
