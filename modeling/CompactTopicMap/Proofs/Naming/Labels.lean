import CompactTopicMap.Proofs.Naming.FreshNames
import CompactTopicMap.Proofs.Naming.Injectivity
import CompactTopicMap.Proofs.Naming.Namespaces

namespace CompactTopicMap.PrefixTable

variable {table after : PrefixTable} {label space name : String}

section Bindings

theorem find?_eq_some : table.find? label = some space ↔ ⟨label, space⟩ ∈ table.bindings := by
  constructor
  · intro found
    obtain ⟨binding, first, rfl⟩ := Option.map_eq_some_iff.mp found
    have same : binding.label = label := by simpa using List.find?_some first
    exact same ▸ List.mem_of_find?_eq_some first
  · exact find?_of_mem

theorem mem_labels : label ∈ table.labels ↔ ∃ space, table.find? label = some space := by
  rw [labels, List.mem_map]
  constructor
  · rintro ⟨binding, member, rfl⟩
    exact ⟨binding.space, find?_of_mem member⟩
  · rintro ⟨space, found⟩
    exact ⟨_, find?_eq_some.mp found, rfl⟩

theorem find?_eq_none : table.find? label = none ↔ label ∉ table.labels := by
  rw [mem_labels, Option.eq_none_iff_forall_ne_some, not_exists]

def Unbound (table : PrefixTable) (space : String) : Prop := ∀ b ∈ table.bindings, b.space ≠ space

instance : DecidablePred table.Unbound := fun space =>
  inferInstanceAs (Decidable (∀ b ∈ table.bindings, b.space ≠ space))

structure FirstLabel (table : PrefixTable) (space label : String) : Prop where
  bound : table.find? label = some space
  first : ∀ other, table.find? other = some space → label ≤ other

theorem labelOf?_eq_none : table.labelOf? space = none ↔ table.Unbound space := by
  simp [labelOf?, Unbound]

theorem labelOf?_first (found : table.labelOf? space = some label) :
    table.FirstLabel space label := by
  obtain ⟨binding, first, rfl⟩ := Option.map_eq_some_iff.mp found
  obtain ⟨here, before, behind, split, earlier⟩ := List.find?_eq_some_iff_append.mp first
  have here : binding.space = space := by simpa using here
  subst here
  refine ⟨find?_of_mem (List.mem_of_find?_eq_some first), fun other bound => ?_⟩
  have member := find?_eq_some.mp bound
  have ordered := table.ordered
  rw [split] at member ordered
  rcases List.mem_append.mp member with inside | inside
  · exact absurd (earlier _ inside) (by simp)
  · rcases List.mem_cons.mp inside with same | inside
    · exact same ▸ String.le_refl _
    · have less := (List.pairwise_cons.mp (List.pairwise_append.mp ordered).2.1).1 _ inside
      exact String.not_lt.mp (String.lt_asymm less)

theorem insertBinding_perm {binding : Binding} {bindings : List Binding}
    (fresh : ∀ b ∈ bindings, b.label ≠ binding.label) :
    (insertBinding binding bindings).Perm (binding :: bindings) := by
  induction bindings with
  | nil => exact .refl _
  | cons b rest ih =>
    obtain ⟨differ, fresh⟩ := List.forall_mem_cons.mp fresh
    rw [insertBinding]
    split
    · exact .refl _
    · rename_i not_before
      have before : b.label < binding.label :=
        String.not_le.mp fun behind => differ (String.le_antisymm (String.not_lt.mp not_before) behind)
      rw [if_pos before]
      exact ((ih fresh).cons b).trans (.swap binding b rest)

theorem insert_perm (fresh : label ∉ table.labels) :
    (table.insert label space).bindings.Perm (⟨label, space⟩ :: table.bindings) :=
  insertBinding_perm fun _ member same => fresh (List.mem_map.mpr ⟨_, member, same⟩)

end Bindings

section Binding

inductive Binds (table : PrefixTable) (label space : String) : Except Error PrefixTable → Prop
  | again (bound : table.find? label = some space) : Binds table label space (.ok table)
  | fresh {after : PrefixTable} (free : table.find? label = none)
    (added : after.bindings.Perm (⟨label, space⟩ :: table.bindings)) :
    Binds table label space (.ok after)
  | refused {bound : String} (other : table.find? label = some bound) (differ : bound ≠ space) :
    Binds table label space (.error (.prefixConflict label bound space))

theorem bind_binds (table : PrefixTable) (label space : String) :
    Binds table label space (table.bind label space) := by
  rw [bind]
  cases found : table.find? label with
  | none => exact .fresh found (insert_perm (find?_eq_none.mp found))
  | some bound =>
    dsimp only
    split
    · rename_i same
      exact .again (same ▸ found)
    · rename_i differ
      exact .refused found differ

/-- What binding a namespace comes to: its first label, if it has one, and else the first free one of
the numbered forms of the proposed label. -/
inductive BindsFresh (table : PrefixTable) (label space : String) : PrefixTable → String → Prop
  | again {name : String} (first : table.FirstLabel space name) :
    BindsFresh table label space table name
  | fresh {after : PrefixTable} {number : Nat} (unbound : table.Unbound space)
    (ends : SearchEnds table.labels label 0 (numbered label number))
    (free : numbered label number ∉ table.labels)
    (least : ∀ n < number, numbered label n ∈ table.labels)
    (added : after.bindings.Perm (⟨numbered label number, space⟩ :: table.bindings)) :
    BindsFresh table label space after (numbered label number)

theorem bindFresh_binds (table : PrefixTable) (label space : String) :
    BindsFresh table label space (table.bindFresh label space).1
      (table.bindFresh label space).2 := by
  rw [bindFresh]
  cases found : table.labelOf? space with
  | some bound => exact .again (labelOf?_first found)
  | none =>
    have free := freshName_not_mem table.labels label
    exact .fresh (labelOf?_eq_none.mp found) (freshName_ends table.labels label) free
      (fun _ => numbered_mem_of_lt_freshNumber) (insert_perm free)

theorem BindsFresh.subset (binds : BindsFresh table label space after name) :
    table.bindings ⊆ after.bindings := by
  cases binds with
  | again => exact List.Subset.refl _
  | fresh _ _ _ _ added => exact fun b member => added.mem_iff.mpr (List.mem_cons_of_mem _ member)

theorem BindsFresh.bound (binds : BindsFresh table label space after name) :
    after.find? name = some space := by
  cases binds with
  | again first => exact first.bound
  | fresh _ _ _ _ added => exact find?_eq_some.mpr (added.mem_iff.mpr List.mem_cons_self)

end Binding

section Detection

/-- The detected namespaces that had no label are bound, one label each, and nothing else is. -/
structure Detects (table : PrefixTable) (spaces : List String) (after : PrefixTable)
    (found : List Binding) : Prop where
  unbound : found.map Binding.space = spaces.filter table.Unbound
  added : after.bindings.Perm (table.bindings ++ found)

variable {seen spaces : List String} {found : List Binding}

theorem Detects.mem_found (detects : Detects table spaces after found) :
    (∃ b ∈ found, b.space = space) ↔ space ∈ spaces ∧ table.Unbound space := by
  rw [← List.mem_map, detects.unbound, List.mem_filter, decide_eq_true_eq]

theorem Detects.unbound_iff (detects : Detects table seen after found) (later : space ∉ seen) :
    after.Unbound space ↔ table.Unbound space := by
  have differ : ∀ b ∈ found, b.space ≠ space := by
    intro b member same
    exact later (detects.mem_found.mp ⟨b, member, same⟩).1
  simp only [Unbound, detects.added.mem_iff, List.mem_append]
  exact ⟨fun free b member => free b (.inl member), fun free b member => member.elim (free b) (differ b)⟩

def detectNext (labelling : Labelling) (state : PrefixTable × List Binding) (space : String) :
    PrefixTable × List Binding :=
  match state.1.labelOf? space with
  | some _ => state
  | none =>
    let (table, label) := state.1.bindFresh (labelling space) space
    (table, state.2 ++ [⟨label, space⟩])

theorem detect_eq (table : PrefixTable) (labelling : Labelling) (source : Source) :
    table.detect labelling source =
      source.detectNamespaces.foldl (detectNext labelling) (table, []) := rfl

theorem Detects.next (labelling : Labelling) (detects : Detects table seen after found)
    (later : space ∉ seen) :
    let state := detectNext labelling (after, found) space
    Detects table (seen ++ [space]) state.1 state.2 := by
  have same := detects.unbound_iff later
  have binds := after.bindFresh_binds (labelling space) space
  rw [detectNext]
  cases first : after.labelOf? space with
  | some label =>
    have bound : ¬ table.Unbound space := by
      rw [← same, ← labelOf?_eq_none, first]
      nofun
    exact ⟨by simp [detects.unbound, bound], detects.added⟩
  | none =>
    have unbound := labelOf?_eq_none.mp first
    have old := same.mp unbound
    dsimp only
    generalize after.bindFresh (labelling space) space = result at binds ⊢
    obtain ⟨next, label⟩ := result
    cases binds with
    | again first => exact absurd rfl (unbound _ (find?_eq_some.mp first.bound))
    | fresh _ _ _ _ added =>
      refine ⟨by simp [detects.unbound, old], ?_⟩
      rw [← List.append_assoc]
      exact added.trans ((detects.added.cons _).trans (List.perm_append_singleton _ _).symm)

theorem Detects.foldl (labelling : Labelling) (detects : Detects table seen after found)
    (distinct : (seen ++ spaces).Nodup) :
    let state := spaces.foldl (detectNext labelling) (after, found)
    Detects table (seen ++ spaces) state.1 state.2 := by
  induction spaces generalizing seen after found with
  | nil => rwa [List.append_nil]
  | cons space spaces ih =>
    rw [List.append_cons] at distinct ⊢
    have later : space ∉ seen := fun member =>
      (List.nodup_append.mp (List.nodup_append.mp distinct).1).2.2 space member space
        (List.mem_singleton_self space) rfl
    exact ih (detects.next labelling later) distinct

theorem detect_detects (table : PrefixTable) (labelling : Labelling) (source : Source) :
    Detects table source.detectNamespaces (table.detect labelling source).1
      (table.detect labelling source).2 := by
  have start : Detects table [] table [] := ⟨rfl, by rw [List.append_nil]⟩
  rw [detect_eq]
  exact start.foldl labelling source.detectNamespaces_nodup

theorem Detects.firstLabel (detects : Detects table spaces after found) (distinct : spaces.Nodup)
    {b : Binding} (member : b ∈ found) : after.FirstLabel b.space b.label := by
  have spaces_distinct : (found.map Binding.space).Nodup :=
    detects.unbound ▸ distinct.filter _
  have unbound := (detects.mem_found.mp ⟨b, member, rfl⟩).2
  refine ⟨find?_of_mem (detects.added.mem_iff.mpr (List.mem_append_right _ member)), ?_⟩
  intro other bound
  have listed := detects.added.mem_iff.mp (find?_eq_some.mp bound)
  rcases List.mem_append.mp listed with old | new
  · exact absurd rfl (unbound ⟨other, b.space⟩ old)
  · have same := List.inj_on_of_nodup_map spaces_distinct member new rfl
    have equal : b.label = other := congrArg Binding.label same
    exact equal ▸ String.le_refl _

end Detection

section Calls

inductive Call where
  | bind (label space : String)
  | bindFresh (label space : String)
  | detect (labelling : Labelling) (source : Source)

def call (table : PrefixTable) : Call → PrefixTable
  | .bind label space =>
    match table.bind label space with
    | .ok after => after
    | .error _ => table
  | .bindFresh label space => (table.bindFresh label space).1
  | .detect labelling source => (table.detect labelling source).1

def run (table : PrefixTable) (calls : List Call) : PrefixTable := calls.foldl call table

theorem call_bindings_subset (table : PrefixTable) (c : Call) :
    table.bindings ⊆ (table.call c).bindings := by
  cases c with
  | bind label space =>
    have binds := table.bind_binds label space
    rw [call]
    generalize table.bind label space = result at binds ⊢
    cases binds with
    | again | refused => exact List.Subset.refl _
    | fresh _ added => exact fun b member => added.mem_iff.mpr (List.mem_cons_of_mem _ member)
  | bindFresh label space => exact (table.bindFresh_binds label space).subset
  | detect labelling source =>
    intro b member
    exact (table.detect_detects labelling source).added.mem_iff.mpr (List.mem_append_left _ member)

theorem run_bindings_subset (table : PrefixTable) (calls : List Call) :
    table.bindings ⊆ (table.run calls).bindings := by
  induction calls generalizing table with
  | nil => exact List.Subset.refl _
  | cons c calls ih => exact List.Subset.trans (table.call_bindings_subset c) (ih (table.call c))

/-- In any table, so also in one that calls have made: a label keeps its namespace through all calls.
Binding a label that has another namespace fails and changes nothing. Binding a namespace under a fresh
label ends, with a label of this namespace. Detection gives the detected namespaces that were unbound,
each with the label that it is bound to from then on. -/
theorem labels_stable (table : PrefixTable) :
    (∀ calls label space, table.find? label = some space →
      (table.run calls).find? label = some space) ∧
    (∀ label space, Binds table label space (table.bind label space) ∧
      ∀ error, table.bind label space = .error error → table.call (.bind label space) = table) ∧
    (∀ label space, ∃ after name, table.bindFresh label space = (after, name) ∧
      BindsFresh table label space after name ∧ after.find? name = some space) ∧
    ∀ labelling source, ∃ after found, table.detect labelling source = (after, found) ∧
      Detects table source.detectNamespaces after found ∧
      ∀ b ∈ found, after.FirstLabel b.space b.label := by
  refine ⟨fun calls label space bound => ?_, fun label space => ⟨table.bind_binds label space, ?_⟩,
    fun label space => ?_, fun labelling source => ?_⟩
  · exact find?_eq_some.mpr (table.run_bindings_subset calls (find?_eq_some.mp bound))
  · intro error refused
    rw [call, refused]
  · have binds := table.bindFresh_binds label space
    exact ⟨_, _, rfl, binds, binds.bound⟩
  · have detects := table.detect_detects labelling source
    exact ⟨_, _, rfl, detects, fun b member => detects.firstLabel source.detectNamespaces_nodup member⟩

/-- Whoever asks for the label of the datatypes does not get it. -/
theorem datatypes_stable :
    let calls : List Call := [.bind "xsd" "http://t.example/", .bind "xsd1" "http://t.example/one/",
      .bindFresh "xsd" "http://t.example/two/", .detect (fun _ => "xsd") Source.coast]
    standard.find? "xsd" = some Iri.datatypes ∧
      (standard.run calls).find? "xsd" = some Iri.datatypes := by
  have bound : standard.find? "xsd" = some Iri.datatypes := by decide
  exact ⟨bound, (labels_stable standard).1 _ "xsd" Iri.datatypes bound⟩

end Calls
end CompactTopicMap.PrefixTable
