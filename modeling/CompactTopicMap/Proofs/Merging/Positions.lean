import CompactTopicMap.Template.Merge
import Mathlib.Data.List.Perm.Basic
import Mathlib.Data.List.Perm.Subperm
import Mathlib.Data.List.Sort

namespace CompactTopicMap

/-- The positions ascend, and the wanted entries stand there in some order. -/
structure Locates (entries wanted : List Entry) (positions : List Nat) : Prop where
  ascending : positions.Pairwise (· < ·)
  found : (positions.map (entries[·]?)).Perm (wanted.map some)

section Finding

variable {entries wanted : List Entry} {seen found positions : List Nat}

theorem findAnother?_eq_some {w : Entry} (another : findAnother? entries seen w = some found) :
    ∃ i, found = i :: seen ∧ i ∉ seen ∧ entries[i]? = some w := by
  obtain ⟨i, position, rfl⟩ := Option.map_eq_some_iff.mp another
  have here := List.find?_some position
  simp only [Bool.and_eq_true, Bool.not_eq_true', List.contains_eq_mem, decide_eq_false_iff_not,
    decide_eq_true_eq] at here
  exact ⟨i, rfl, here⟩

theorem foldlM_findAnother?_located (distinct : seen.Nodup)
    (all : wanted.foldlM (findAnother? entries) seen = some found) :
    found.Nodup ∧
      (found.map (entries[·]?)).Perm (wanted.map some ++ seen.map (entries[·]?)) := by
  induction wanted generalizing seen with
  | nil =>
    obtain rfl := Option.some.inj all
    exact ⟨distinct, .refl _⟩
  | cons w wanted ih =>
    rw [List.foldlM_cons] at all
    obtain ⟨next, another, rest⟩ := Option.bind_eq_some_iff.mp all
    obtain ⟨i, rfl, fresh, here⟩ := findAnother?_eq_some another
    obtain ⟨apart, perm⟩ := ih (List.nodup_cons.mpr ⟨fresh, distinct⟩) rest
    refine ⟨apart, perm.trans ?_⟩
    rw [List.map_cons, here]
    exact List.perm_middle

theorem positions?_locates (found : positions? entries wanted = some positions) :
    Locates entries wanted positions := by
  obtain ⟨unsorted, all, rfl⟩ := Option.map_eq_some_iff.mp found
  obtain ⟨distinct, perm⟩ := foldlM_findAnother?_located List.nodup_nil all
  have sorting := List.mergeSort_perm unsorted (· ≤ ·)
  constructor
  · have sorted : (unsorted.mergeSort (· ≤ ·)).Pairwise (· ≤ ·) :=
      List.pairwise_mergeSort' (· ≤ ·) unsorted
    have apart := sorting.nodup_iff.mpr distinct
    exact (sorted.and apart).imp fun both => Nat.lt_of_le_of_ne both.1 both.2
  · rw [List.map_nil, List.append_nil] at perm
    exact (sorting.map _).trans perm

theorem Locates.bounded (located : Locates entries wanted positions) :
    ∀ i ∈ positions, i < entries.length := by
  intro i member
  have held := located.found.mem_iff.mp (List.mem_map_of_mem member)
  obtain ⟨w, _, here⟩ := List.mem_map.mp held
  exact (List.getElem?_eq_some_iff.mp here.symm).1

end Finding

section Splitting

variable {entries : List Entry} {positions : List Nat}

theorem splitAtPositions_eq (entries : List Entry) (positions : List Nat) :
    splitAtPositions entries positions =
      ((entries.zipIdx.filter (·.2 ∈ positions)).map Prod.fst,
        (entries.zipIdx.filter (·.2 ∉ positions)).map Prod.fst) := by
  simp [splitAtPositions, List.partition_eq_filter_filter, Function.comp_def]

theorem splitAtPositions_nil (entries : List Entry) :
    splitAtPositions entries [] = ([], entries) := by
  simp [splitAtPositions_eq]

theorem splitAtPositions_perm (entries : List Entry) (positions : List Nat) :
    ((splitAtPositions entries positions).1 ++ (splitAtPositions entries positions).2).Perm
      entries := by
  have parts := List.filter_append_perm (fun item : Entry × Nat => decide (item.2 ∈ positions))
    entries.zipIdx
  have whole := parts.map Prod.fst
  rw [List.map_append, List.zipIdx_map_fst] at whole
  simpa only [splitAtPositions_eq, decide_not] using whole

theorem splitAtPositions_append (before behind : List Entry) (positions : List Nat)
    (later : ∀ i ∈ positions, before.length ≤ i) :
    splitAtPositions (before ++ behind) positions =
      (((behind.zipIdx before.length).filter (·.2 ∈ positions)).map Prod.fst,
        before ++ ((behind.zipIdx before.length).filter (·.2 ∉ positions)).map Prod.fst) := by
  have early : ∀ item ∈ before.zipIdx, item.2 ∉ positions := by
    intro item member held
    have bound := (List.mem_zipIdx member).2.1
    have bound' := later _ held
    omega
  have inside : before.zipIdx.filter (·.2 ∈ positions) = [] := by
    rw [List.filter_eq_nil_iff]
    intro item member
    simpa using early item member
  have outside : before.zipIdx.filter (·.2 ∉ positions) = before.zipIdx := by
    rw [List.filter_eq_self]
    intro item member
    simpa using early item member
  rw [splitAtPositions_eq, List.zipIdx_append, Nat.zero_add, List.filter_append, List.filter_append,
    inside, outside, List.nil_append, List.map_append, List.zipIdx_map_fst]

theorem splitAtPositions_middle (before behind : List Entry) (entry : Entry)
    (later : ∀ i ∈ positions, before.length < i) :
    ∃ inside outside,
      splitAtPositions (before ++ entry :: behind) positions = (inside, before ++ entry :: outside) ∧
      splitAtPositions (before ++ entry :: behind) (before.length :: positions) =
        (entry :: inside, before ++ outside) := by
  have fresh : before.length ∉ positions := fun member => Nat.lt_irrefl _ (later _ member)
  have differ : ∀ item ∈ behind.zipIdx (before.length + 1), item.2 ≠ before.length :=
    fun item member => Nat.ne_of_gt (List.mem_zipIdx member).1
  have inside : (behind.zipIdx (before.length + 1)).filter (·.2 ∈ before.length :: positions) =
      (behind.zipIdx (before.length + 1)).filter (·.2 ∈ positions) :=
    List.filter_congr fun item member => by simp [differ item member]
  have outside : (behind.zipIdx (before.length + 1)).filter (·.2 ∉ before.length :: positions) =
      (behind.zipIdx (before.length + 1)).filter (·.2 ∉ positions) :=
    List.filter_congr fun item member => by simp [differ item member]
  have left := splitAtPositions_append before (entry :: behind) positions
    fun i member => Nat.le_of_lt (later i member)
  have taken := splitAtPositions_append before (entry :: behind) (before.length :: positions)
    fun i member => by
      rcases List.mem_cons.mp member with rfl | other
      · exact Nat.le_refl _
      · exact Nat.le_of_lt (later i other)
  rw [List.zipIdx_cons, List.filter_cons_of_neg (by simpa using fresh),
    List.filter_cons_of_pos (by simpa using fresh)] at left
  rw [List.zipIdx_cons, List.filter_cons_of_pos (by simp), List.filter_cons_of_neg (by simp), inside,
    outside] at taken
  exact ⟨_, _, left, taken⟩

theorem splitAtPositions_cons {i : Nat} (bound : i < entries.length)
    (later : ∀ j ∈ positions, i < j) :
    (splitAtPositions entries (i :: positions)).1 =
        entries[i] :: (splitAtPositions entries positions).1 ∧
      (splitAtPositions entries (i :: positions)).2 =
        (splitAtPositions entries positions).2.eraseIdx i ∧
      i < (splitAtPositions entries positions).2.length := by
  have length : (entries.take i).length = i := List.length_take_of_le (Nat.le_of_lt bound)
  have parts : entries = entries.take i ++ entries[i] :: entries.drop (i + 1) := by
    rw [List.getElem_cons_drop, List.take_append_drop]
  obtain ⟨inside, outside, left, taken⟩ := splitAtPositions_middle
    (entries.take i) (entries.drop (i + 1)) entries[i] (by rwa [length])
  rw [← parts] at left taken
  rw [length] at taken
  rw [left, taken]
  refine ⟨rfl, ?_, ?_⟩
  · rw [List.eraseIdx_append_of_length_le (Nat.le_of_eq length), length, Nat.sub_self]
    rfl
  · rw [List.length_append, length]
    exact Nat.lt_add_of_pos_right (Nat.succ_pos _)

end Splitting

section Stepwise

variable {entries wanted : List Entry} {positions : List Nat}

def removeAt? (position : Nat) (entries : List Entry) : Option (List Entry) :=
  if position < entries.length then some (entries.eraseIdx position) else none

def insertAt? (position : Nat) (entry : Entry) (entries : List Entry) : Option (List Entry) :=
  if position ≤ entries.length then some (entries.take position ++ entry :: entries.drop position)
  else none

theorem map_getElem?_eq (ascending : positions.Pairwise (· < ·))
    (bounded : ∀ i ∈ positions, i < entries.length) :
    positions.map (entries[·]?) = (splitAtPositions entries positions).1.map some := by
  induction positions with
  | nil => rw [splitAtPositions_nil]; rfl
  | cons i positions ih =>
    obtain ⟨later, ascending⟩ := List.pairwise_cons.mp ascending
    obtain ⟨bound, bounded⟩ := List.forall_mem_cons.mp bounded
    rw [(splitAtPositions_cons bound later).1, List.map_cons, List.map_cons, ih ascending bounded,
      List.getElem?_eq_getElem bound]

theorem mapM_getElem?_eq (ascending : positions.Pairwise (· < ·))
    (bounded : ∀ i ∈ positions, i < entries.length) :
    positions.mapM (entries[·]?) = some (splitAtPositions entries positions).1 := by
  calc positions.mapM (entries[·]?)
      = (positions.map (entries[·]?)).mapM id := by rw [List.mapM_map]; rfl
    _ = ((splitAtPositions entries positions).1.map some).mapM id := by
      rw [map_getElem?_eq ascending bounded]
    _ = some ((splitAtPositions entries positions).1.map id) := by
      rw [List.mapM_map]
      exact List.mapM_pure
    _ = some (splitAtPositions entries positions).1 := by rw [List.map_id]

theorem Locates.inside_perm (located : Locates entries wanted positions) :
    (splitAtPositions entries positions).1.Perm wanted := by
  have held := located.found
  rw [map_getElem?_eq located.ascending located.bounded] at held
  exact (List.map_perm_map_iff (Option.some_injective Entry)).mp held

theorem foldrM_removeAt? (ascending : positions.Pairwise (· < ·))
    (bounded : ∀ i ∈ positions, i < entries.length) :
    positions.foldrM removeAt? entries = some (splitAtPositions entries positions).2 := by
  induction positions with
  | nil => rw [splitAtPositions_nil]; rfl
  | cons i positions ih =>
    obtain ⟨later, ascending⟩ := List.pairwise_cons.mp ascending
    obtain ⟨bound, bounded⟩ := List.forall_mem_cons.mp bounded
    obtain ⟨_, removed, inside⟩ := splitAtPositions_cons bound later
    rw [List.foldrM_cons, ih ascending bounded, Option.bind_eq_bind, Option.bind_some, removeAt?,
      if_pos inside, removed]

theorem insertAt?_first {first : Nat} (located : Locates entries wanted (first :: positions))
    (entry : Entry) :
    let outside := (splitAtPositions entries (first :: positions)).2
    insertAt? first entry outside = some (outside.take first ++ entry :: outside.drop first) := by
  intro outside
  obtain ⟨later, _⟩ := List.pairwise_cons.mp located.ascending
  have bound := located.bounded first List.mem_cons_self
  obtain ⟨_, removed, inside⟩ := splitAtPositions_cons bound later
  have length : first ≤ outside.length := by
    rw [show outside = _ from removed, List.length_eraseIdx_of_lt inside]
    omega
  rw [insertAt?, if_pos length]

end Stepwise

section Holding

variable {entries wanted : List Entry} {seen : List Nat}

theorem mem_outside {w : Entry} :
    w ∈ (splitAtPositions entries seen).2 ↔ ∃ i, i ∉ seen ∧ entries[i]? = some w := by
  simp only [splitAtPositions_eq, List.mem_map, List.mem_filter, Prod.exists, decide_eq_true_eq,
    List.mk_mem_zipIdx_iff_getElem?, exists_and_right, exists_eq_right]
  exact exists_congr fun i => And.comm

theorem outside_perm {i : Nat} {w : Entry} (fresh : i ∉ seen) (here : entries[i]? = some w) :
    (splitAtPositions entries seen).2.Perm (w :: (splitAtPositions entries (i :: seen)).2) := by
  have distinct : entries.zipIdx.Nodup := by
    apply List.Nodup.of_map Prod.snd
    rw [List.zipIdx_map_snd]
    exact List.nodup_range'
  have listed : (w, i) ∈ entries.zipIdx.filter (·.2 ∉ seen) :=
    List.mem_filter.mpr ⟨List.mk_mem_zipIdx_iff_getElem?.mpr here, decide_eq_true fresh⟩
  have others : (entries.zipIdx.filter (·.2 ∉ seen)).erase (w, i) =
      entries.zipIdx.filter (·.2 ∉ i :: seen) := by
    rw [(distinct.filter _).erase_eq_filter, List.filter_filter]
    refine List.filter_congr fun ⟨e, j⟩ member => ?_
    have stands := List.mk_mem_zipIdx_iff_getElem?.mp member
    by_cases same : j = i
    · subst same
      simp [Option.some.inj (stands.symm.trans here)]
    · simp [same]
  have perm := (List.perm_cons_erase listed).map Prod.fst
  rw [others, List.map_cons] at perm
  simpa only [splitAtPositions_eq] using perm

theorem foldlM_findAnother?_isSome (held : wanted.Subperm (splitAtPositions entries seen).2) :
    (wanted.foldlM (findAnother? entries) seen).isSome = true := by
  induction wanted generalizing seen with
  | nil => rfl
  | cons w wanted ih =>
    obtain ⟨i, fresh, here⟩ := mem_outside.mp (held.subset List.mem_cons_self)
    have some_position : (findAnother? entries seen w).isSome = true := by
      rw [findAnother?, Option.isSome_map, List.find?_isSome]
      refine ⟨i, List.mem_range.mpr (List.getElem?_eq_some_iff.mp here).1, ?_⟩
      simp [fresh, here]
    obtain ⟨next, another⟩ := Option.isSome_iff_exists.mp some_position
    obtain ⟨j, rfl, unseen, there⟩ := findAnother?_eq_some another
    rw [List.foldlM_cons, another, Option.bind_eq_bind, Option.bind_some]
    apply ih
    exact (List.subperm_cons w).mp ((outside_perm unseen there).subperm_left.mp held)

theorem positions?_isSome_iff :
    (positions? entries wanted).isSome = true ↔ wanted.Subperm entries := by
  constructor
  · intro found
    obtain ⟨positions, found⟩ := Option.isSome_iff_exists.mp found
    have inside := (positions?_locates found).inside_perm
    have all := splitAtPositions_perm entries positions
    exact inside.symm.subperm.trans ((List.sublist_append_left _ _).subperm.trans all.subperm)
  · intro held
    rw [positions?, Option.isSome_map]
    apply foldlM_findAnother?_isSome
    rwa [splitAtPositions_nil]

end Holding

end CompactTopicMap
