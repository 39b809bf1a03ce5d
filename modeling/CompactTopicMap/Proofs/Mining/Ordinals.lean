import CompactTopicMap.Session.Mining
import Mathlib.Data.List.Count
import Mathlib.Data.List.Nodup
import Mathlib.Order.Bounds.Basic
import Mathlib.Tactic.SplitIfs

/-! Counting items with their ordinals among the equal ones. -/

namespace CompactTopicMap

section Counting

variable {α : Type} [DecidableEq α]

/-- How many of the lists have the item so often. -/
def carriers (lists : List (List α)) (item : α) (times : Nat) : Nat :=
  lists.countP fun items => times ≤ items.count item

/-- Among the counts up to the total, those that reach the share are the largest. -/
def ShareMonotone (threshold : Float) (total : Nat) : Prop :=
  ∀ less more, less ≤ more → more ≤ total → reachesShare threshold total less = true →
    reachesShare threshold total more = true

structure IsShared (threshold : Float) (total count : Nat) : Prop where
  nonzero : count ≠ 0
  share : reachesShare threshold total count = true

theorem IsShared.mono {threshold : Float} {total less more : Nat}
    (monotone : ShareMonotone threshold total) (shared : IsShared threshold total less)
    (le : less ≤ more) (bound : more ≤ total) : IsShared threshold total more where
  nonzero := by
    have := shared.nonzero
    omega
  share := monotone less more le bound shared.share

/-- Behind items that were seen before, the ordinals of an item begin at the number of these. -/
theorem count_foldl_ordinals (items seen : List α) (out : List (α × Nat)) (item : α) (i : Nat) :
    (items.foldl (fun (seen, out) item => (item :: seen, out ++ [(item, seen.count item)]))
      (seen, out)).2.count (item, i) =
      out.count (item, i) +
        if seen.count item ≤ i ∧ i < seen.count item + items.count item then 1 else 0 := by
  induction items generalizing seen out with
  | nil =>
    have empty : ¬(seen.count item ≤ i ∧ i < seen.count item) := by omega
    simp [empty]
  | cons first rest ih =>
    rw [List.foldl_cons, ih, List.count_append]
    by_cases same : first = item
    · subst same
      rw [List.count_cons_self, List.count_cons_self]
      have here : [(first, seen.count first)].count (first, i) =
          if seen.count first = i then 1 else 0 := by
        simp [List.count_singleton]
      rw [here]
      split_ifs <;> omega
    · have other : [(first, seen.count first)].count (item, i) = 0 := by simp [same]
      rw [other, List.count_cons_of_ne same, List.count_cons_of_ne same]
      rfl

theorem count_ordinals (items : List α) (item : α) (i : Nat) :
    (ordinals items).count (item, i) = if i < items.count item then 1 else 0 := by
  rw [ordinals, count_foldl_ordinals]
  simp

theorem count_flatMap_ordinals (lists : List (List α)) (item : α) (i : Nat) :
    (lists.flatMap ordinals).count (item, i) = carriers lists item (i + 1) := by
  induction lists with
  | nil => rfl
  | cons items lists ih =>
    rw [List.flatMap_cons, List.count_append, ih, count_ordinals, carriers, carriers,
      List.countP_cons]
    simp only [decide_eq_true_eq, Nat.succ_le_iff]
    omega

theorem carriers_antitone (lists : List (List α)) (item : α) {few many : Nat} (le : few ≤ many) :
    carriers lists item many ≤ carriers lists item few := by
  apply List.countP_mono_left
  intro items _ enough
  simp only [decide_eq_true_eq] at enough ⊢
  omega

theorem mem_iff_lt_length {numbers : List Nat} (distinct : numbers.Nodup)
    (closed : ∀ n ∈ numbers, ∀ k < n, k ∈ numbers) (n : Nat) : n ∈ numbers ↔ n < numbers.length := by
  constructor
  · intro member
    have below : List.range (n + 1) ⊆ numbers := by
      intro k inside
      rcases Nat.lt_succ_iff_lt_or_eq.mp (List.mem_range.mp inside) with smaller | rfl
      · exact closed n member k smaller
      · exact member
    have lengths := List.nodup_range.length_le_of_subset below
    rw [List.length_range] at lengths
    omega
  · intro smaller
    by_contra missing
    have below : numbers ⊆ List.range n := by
      intro k inside
      rw [List.mem_range]
      by_contra larger
      rcases Nat.lt_or_eq_of_le (Nat.le_of_not_lt larger) with less | rfl
      · exact missing (closed k inside n less)
      · exact missing inside
    have lengths := distinct.length_le_of_subset below
    rw [List.length_range] at lengths
    omega

/-- The ordinals that are kept for an item are the first ones, so that the item is kept as often as a
sufficient share of the lists has it. -/
theorem relevant_greatest {threshold : Float} {lists : List (List α)}
    (monotone : ShareMonotone threshold lists.length) (item : α) :
    IsGreatest {k | k = 0 ∨ IsShared threshold lists.length (carriers lists item k)}
      ((relevant threshold lists).count item) := by
  let keys := lists.flatMap ordinals
  let kept := (firstSeen keys).filter fun key =>
    reachesShare threshold lists.length (keys.count key)
  let numbers := (kept.filter (·.1 == item)).map Prod.snd
  have count : (relevant threshold lists).count item = numbers.length := by
    rw [List.length_map, ← List.countP_eq_length_filter]
    exact List.countP_map
  have mem_numbers : ∀ i, i ∈ numbers ↔
      IsShared threshold lists.length (carriers lists item (i + 1)) := by
    intro i
    have kept_iff : i ∈ numbers ↔ (item, i) ∈ kept := by
      simp [numbers]
    rw [kept_iff, List.mem_filter, mem_firstSeen, ← List.count_pos_iff, count_flatMap_ordinals]
    exact ⟨fun ⟨positive, share⟩ => ⟨Nat.ne_of_gt positive, share⟩,
      fun shared => ⟨Nat.pos_of_ne_zero shared.nonzero, shared.share⟩⟩
  have distinct : numbers.Nodup := by
    apply List.Nodup.map_on
    · intro a inside b inside' same
      have first := (List.mem_filter.mp inside).2
      have second := (List.mem_filter.mp inside').2
      rw [beq_iff_eq] at first second
      exact Prod.ext (first.trans second.symm) same
    · exact ((firstSeen_nodup keys).filter _).filter _
  have closed : ∀ i ∈ numbers, ∀ k < i, k ∈ numbers := by
    intro i member k smaller
    rw [mem_numbers] at member ⊢
    apply member.mono monotone
    · apply carriers_antitone
      omega
    · exact List.countP_le_length
  have initial := mem_iff_lt_length distinct closed
  rw [count]
  constructor
  · rcases Nat.eq_zero_or_pos numbers.length with empty | positive
    · exact .inl empty
    · right
      have last := (mem_numbers (numbers.length - 1)).mp ((initial _).mpr (by omega))
      rwa [Nat.sub_add_cancel positive] at last
  · rintro k (rfl | shared)
    · exact Nat.zero_le _
    · cases k with
      | zero => exact Nat.zero_le _
      | succ i => exact (initial i).mp ((mem_numbers i).mpr shared)

end Counting

end CompactTopicMap
