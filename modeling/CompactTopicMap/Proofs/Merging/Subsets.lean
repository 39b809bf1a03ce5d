import CompactTopicMap.Template.Merge
import Mathlib.Data.List.Sort

namespace CompactTopicMap

section Positions

variable {α β : Type}

theorem combinations_eq_nil {size : Nat} {items : List α} :
    combinations size items = [] ↔ items.length < size := by
  rw [List.eq_nil_iff_forall_not_mem]
  constructor
  · intro empty
    by_contra enough
    have large : size ≤ items.length := Nat.le_of_not_lt enough
    exact empty (items.take size)
      (mem_combinations.mpr ⟨List.take_sublist size items, List.length_take_of_le large⟩)
  · rintro few chosen member
    obtain ⟨sub, rfl⟩ := mem_combinations.mp member
    exact Nat.lt_irrefl _ (Nat.lt_of_lt_of_le few sub.length_le)

theorem combinations_map (f : α → β) (size : Nat) (items : List α) :
    combinations size (items.map f) = (combinations size items).map (List.map f) := by
  induction items generalizing size with
  | nil => cases size <;> rfl
  | cons item items ih =>
    cases size with
    | zero => rfl
    | succ size =>
      simp only [List.map_cons, combinations, ih, List.map_append, List.map_map]
      rfl

theorem combinations_ascending [LT α] {items : List α} (ascending : items.Pairwise (· < ·))
    (size : Nat) : (combinations size items).Pairwise (· < ·) := by
  induction items generalizing size with
  | nil => cases size <;> simp [combinations]
  | cons item items ih =>
    obtain ⟨first, ascending⟩ := List.pairwise_cons.mp ascending
    cases size with
    | zero => exact List.pairwise_singleton _ _
    | succ size =>
      rw [combinations, List.pairwise_append, List.pairwise_map]
      refine ⟨(ih ascending size).imp .cons, ih ascending (size + 1), ?_⟩
      -- What starts with the first item comes before all that leaves it out.
      intro chosen with_first other without
      obtain ⟨rest, _, rfl⟩ := List.mem_map.mp with_first
      obtain ⟨sub, length⟩ := mem_combinations.mp without
      cases other with
      | nil => cases length
      | cons head tail => exact .rel (first head (sub.subset List.mem_cons_self))

/-- The strictly increasing sequences of so many positions below the bound. -/
def positionsOf (size bound : Nat) : List (List (Fin bound)) :=
  combinations size (List.finRange bound)

theorem mem_positionsOf {size bound : Nat} {positions : List (Fin bound)} :
    positions ∈ positionsOf size bound ↔
      positions.length = size ∧ positions.Pairwise (· < ·) := by
  have ascending : (List.finRange bound).Pairwise (· < ·) := (List.sortedLT_finRange bound).pairwise
  rw [positionsOf, mem_combinations, and_comm]
  refine and_congr_right fun _ => ⟨fun sub => ascending.sublist sub, fun increasing => ?_⟩
  have distinct : positions.Nodup := increasing.imp Fin.ne_of_lt
  have inside : positions.Subperm (List.finRange bound) :=
    List.subperm_of_subset distinct fun position _ => List.mem_finRange position
  exact List.sublist_of_subperm_of_pairwise inside increasing ascending

theorem combinations_eq_positions (size : Nat) (items : List α) :
    combinations size items = (positionsOf size items.length).map (List.map items.get) := by
  rw [positionsOf, ← combinations_map, List.map_get_finRange]

end Positions

section Calls

variable {α σ : Type} (size : Nat) (call : σ → List α → σ)

/-- The loop of the enumeration over the items that are left. The list of the chosen items is shared
by all calls: an item is pushed, the sets that go on with it are enumerated, and it is popped. The
loop stops where fewer items are left than are needed. -/
def chooseEach (needed : Nat) : List α → List α × σ → List α × σ
  | [], state => state
  | item :: items, (chosen, result) =>
    if items.length + 1 < needed then (chosen, result)
    else
      let pushed := chosen ++ [item]
      let (chosen, result) :=
        if pushed.length = size then (pushed, call result pushed)
        else chooseEach (size - pushed.length) items (pushed, result)
      chooseEach needed items (chosen.dropLast, result)

def forEachSubset (items : List α) (result : σ) : σ :=
  if size = 0 ∨ items.length < size then result
  else (chooseEach size call size items ([], result)).2

variable {size call}

/-- The loop leaves the chosen items as they were, and calls once for each way to complete them. -/
theorem chooseEach_eq {needed : Nat} {chosen : List α} (some_needed : 0 < needed)
    (complete : chosen.length + needed = size) (items : List α) (result : σ) :
    chooseEach size call needed items (chosen, result) =
      (chosen, (combinations needed items).foldl (fun r set => call r (chosen ++ set)) result) := by
  induction items generalizing needed chosen result with
  | nil =>
    obtain ⟨needed, rfl⟩ := Nat.exists_eq_succ_of_ne_zero (Nat.ne_of_gt some_needed)
    rfl
  | cons item items ih =>
    rw [chooseEach]
    split
    · rename_i few
      rw [combinations_eq_nil.mpr few]
      rfl
    · obtain ⟨needed, rfl⟩ := Nat.exists_eq_succ_of_ne_zero (Nat.ne_of_gt some_needed)
      have length : (chosen ++ [item]).length = chosen.length + 1 := List.length_append
      -- The sets with the item, whether it is the last one to be chosen or not.
      have pushed : (if (chosen ++ [item]).length = size then
            (chosen ++ [item], call result (chosen ++ [item]))
          else chooseEach size call (size - (chosen ++ [item]).length) items
            (chosen ++ [item], result)) =
          (chosen ++ [item], (combinations needed items).foldl
            (fun r set => call r (chosen ++ [item] ++ set)) result) := by
        cases needed with
        | zero =>
          rw [if_pos (length.trans complete)]
          simp [combinations]
        | succ needed =>
          rw [if_neg (by omega), show size - (chosen ++ [item]).length = needed + 1 by omega]
          exact ih (Nat.succ_pos needed) (by omega) result
      simp only [pushed, List.dropLast_concat, ih some_needed complete, combinations,
        List.foldl_append, List.foldl_map, List.append_assoc, List.singleton_append]

theorem forEachSubset_eq (items : List α) (result : σ) :
    forEachSubset size call items result = (subsets size items).foldl call result := by
  rw [forEachSubset, subsets]
  by_cases empty : size = 0
  · simp [empty]
  by_cases few : items.length < size
  · simp [few, empty, combinations_eq_nil.mpr few]
  · have complete : ([] : List α).length + size = size := Nat.zero_add size
    rw [if_neg (not_or.mpr ⟨empty, few⟩), if_neg empty,
      chooseEach_eq (Nat.pos_of_ne_zero empty) complete]
    rfl

end Calls

/-- The function is called with the items at each strictly increasing sequence of as many positions
as the size says, in lexicographic order of the positions, and with nothing else; it is not called
for size zero or for more items than there are. -/
theorem subsets_exact {α : Type} (size : Nat) (items : List α) :
    (∀ {σ : Type} (call : σ → List α → σ) (result : σ),
      forEachSubset size call items result = (subsets size items).foldl call result) ∧
    (∃ positions : List (List (Fin items.length)),
      subsets size items = positions.map (List.map items.get) ∧
      positions.Pairwise (· < ·) ∧
      ∀ sequence, sequence ∈ positions ↔
        0 < size ∧ sequence.length = size ∧ sequence.Pairwise (· < ·)) ∧
    (subsets size items = [] ↔ size = 0 ∨ items.length < size) := by
  refine ⟨fun _ result => forEachSubset_eq items result, ?_⟩
  by_cases empty : size = 0
  · subst empty
    exact ⟨⟨[], rfl, .nil, by simp⟩, by simp [subsets]⟩
  · have positive := Nat.pos_of_ne_zero empty
    have ascending := combinations_ascending (List.sortedLT_finRange items.length).pairwise size
    rw [subsets, if_neg empty, or_iff_right empty]
    exact ⟨⟨positionsOf size items.length, combinations_eq_positions size items, ascending,
      fun sequence => by rw [mem_positionsOf, and_iff_right positive]⟩, combinations_eq_nil⟩

example : subsets 2 ["a", "b", "c"] = [["a", "b"], ["a", "c"], ["b", "c"]] := rfl

end CompactTopicMap
