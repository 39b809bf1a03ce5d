namespace CompactTopicMap

def insertNew {α : Type} [DecidableEq α] (items : List α) (item : α) : List α :=
  if item ∈ items then items else items ++ [item]

theorem mem_insertNew {α : Type} [DecidableEq α] {items : List α} {item x : α} :
    x ∈ insertNew items item ↔ x ∈ items ∨ x = item := by
  unfold insertNew
  split <;> simp_all

theorem insertNew_nodup {α : Type} [DecidableEq α] {items : List α} (item : α)
    (distinct : items.Nodup) : (insertNew items item).Nodup := by
  unfold insertNew
  split
  · exact distinct
  · rename_i fresh
    rw [List.nodup_append]
    refine ⟨distinct, by simp, ?_⟩
    intro a ha b hb same
    simp only [List.mem_singleton] at hb
    exact fresh (hb ▸ same ▸ ha)

def firstSeen {α : Type} [DecidableEq α] (items : List α) : List α :=
  items.foldl insertNew []

theorem mem_foldl_insertNew {α : Type} [DecidableEq α] {seen items : List α} {x : α} :
    x ∈ items.foldl insertNew seen ↔ x ∈ seen ∨ x ∈ items := by
  induction items generalizing seen with
  | nil => simp
  | cons item items ih => simp [ih, mem_insertNew, or_assoc]

theorem mem_firstSeen {α : Type} [DecidableEq α] {items : List α} {x : α} :
    x ∈ firstSeen items ↔ x ∈ items := by
  simp [firstSeen, mem_foldl_insertNew]

theorem foldl_insertNew_nodup {α : Type} [DecidableEq α] {seen : List α} (items : List α)
    (distinct : seen.Nodup) : (items.foldl insertNew seen).Nodup := by
  induction items generalizing seen with
  | nil => exact distinct
  | cons item items ih => exact ih (insertNew_nodup item distinct)

theorem firstSeen_nodup {α : Type} [DecidableEq α] (items : List α) : (firstSeen items).Nodup :=
  foldl_insertNew_nodup items List.nodup_nil

theorem firstSeen_concat {α : Type} [DecidableEq α] (items : List α) (item : α) :
    firstSeen (items ++ [item]) = insertNew (firstSeen items) item :=
  List.foldl_append

theorem firstSeen_eq_self {α : Type} [DecidableEq α] {items : List α} (distinct : items.Nodup) :
    firstSeen items = items := by
  have behind : ∀ seen : List α, (seen ++ items).Nodup →
      items.foldl insertNew seen = seen ++ items := by
    clear distinct
    induction items with
    | nil => exact fun seen _ => (List.append_nil seen).symm
    | cons item items ih =>
      intro seen all
      rw [List.append_cons] at all ⊢
      have fresh : item ∉ seen := fun member =>
        (List.nodup_append.mp (List.nodup_append.mp all).1).2.2 item member item
          (List.mem_singleton_self item) rfl
      rw [List.foldl_cons, insertNew, if_neg fresh]
      exact ih _ all
  exact behind [] distinct

structure ListsFirst {α : Type} [DecidableEq α] (items list : List α) : Prop where
  distinct : list.Nodup
  mem : ∀ x, x ∈ list ↔ x ∈ items
  ordered : list.Pairwise fun x y => items.idxOf x < items.idxOf y

theorem firstSeen_lists {α : Type} [DecidableEq α] (items : List α) :
    ListsFirst items (firstSeen items) where
  distinct := firstSeen_nodup items
  mem _ := mem_firstSeen
  ordered := by
    -- By induction from the end: a new last item stands behind all that were seen before.
    generalize reversed : items.reverse = backwards
    induction backwards generalizing items with
    | nil =>
      obtain rfl := List.reverse_eq_nil_iff.mp reversed
      exact .nil
    | cons last backwards ih =>
      obtain rfl := List.reverse_eq_cons_iff.mp reversed
      have before := ih backwards.reverse (List.reverse_reverse backwards)
      generalize backwards.reverse = items at before ⊢
      have same : ∀ x ∈ firstSeen items, (items ++ [last]).idxOf x = items.idxOf x := by
        intro x member
        rw [List.idxOf_append, if_pos (mem_firstSeen.mp member)]
      have kept : (firstSeen items).Pairwise fun x y =>
          (items ++ [last]).idxOf x < (items ++ [last]).idxOf y := by
        apply before.imp_of_mem
        intro x y first second less
        rw [same x first, same y second]
        exact less
      rw [firstSeen_concat, insertNew]
      split
      · exact kept
      · rename_i fresh
        rw [List.pairwise_append]
        refine ⟨kept, List.pairwise_singleton _ _, ?_⟩
        intro x member y lastly
        obtain rfl := List.mem_singleton.mp lastly
        have absent : y ∉ items := fun old => fresh (mem_firstSeen.mpr old)
        have bound := List.idxOf_lt_length_iff.mpr (mem_firstSeen.mp member)
        rw [same x member, List.idxOf_append, if_neg absent]
        omega

end CompactTopicMap
