import CompactTopicMap.Error
import CompactTopicMap.Fresh
import CompactTopicMap.Iri

namespace CompactTopicMap

structure Binding where
  label : String
  space : String
  deriving DecidableEq, Repr

structure PrefixTable where
  bindings : List Binding
  ordered : bindings.Pairwise (·.label < ·.label)
  deriving DecidableEq, Repr

namespace PrefixTable

def insertBinding (binding : Binding) : List Binding → List Binding
  | [] => [binding]
  | b :: rest =>
    if binding.label < b.label then binding :: b :: rest
    else if b.label < binding.label then b :: insertBinding binding rest
    else b :: rest

theorem mem_insertBinding {binding x : Binding} {bindings : List Binding}
    (member : x ∈ insertBinding binding bindings) : x = binding ∨ x ∈ bindings := by
  induction bindings with
  | nil => simpa [insertBinding] using member
  | cons b rest ih =>
    simp only [insertBinding] at member
    split at member
    · simpa using member
    · split at member
      · rcases List.mem_cons.mp member with same | tail
        · exact .inr (by simp [same])
        · exact (ih tail).imp_right (List.mem_cons_of_mem _)
      · exact .inr member

theorem insertBinding_ordered (binding : Binding) {bindings : List Binding}
    (ordered : bindings.Pairwise (·.label < ·.label)) :
    (insertBinding binding bindings).Pairwise (·.label < ·.label) := by
  induction bindings with
  | nil => simp [insertBinding]
  | cons b rest ih =>
    obtain ⟨first, tail⟩ := List.pairwise_cons.mp ordered
    simp only [insertBinding]
    split
    · rename_i before
      refine List.pairwise_cons.mpr ⟨fun x member => ?_, ordered⟩
      rcases List.mem_cons.mp member with rfl | member
      · exact before
      · exact String.lt_trans before (first x member)
    · split
      · rename_i _ after
        refine List.pairwise_cons.mpr ⟨fun x member => ?_, ih tail⟩
        rcases mem_insertBinding member with rfl | member
        · exact after
        · exact first x member
      · exact ordered

def empty : PrefixTable := ⟨[], .nil⟩

def datatypeLabel : String := "xsd"

def standard : PrefixTable := ⟨[⟨datatypeLabel, Iri.datatypes⟩], by simp⟩

def size (table : PrefixTable) : Nat := table.bindings.length

def labels (table : PrefixTable) : List String := table.bindings.map Binding.label

def find? (table : PrefixTable) (label : String) : Option String :=
  (table.bindings.find? (·.label = label)).map Binding.space

def labelOf? (table : PrefixTable) (space : String) : Option String :=
  (table.bindings.find? (·.space = space)).map Binding.label

def insert (table : PrefixTable) (label space : String) : PrefixTable :=
  ⟨insertBinding ⟨label, space⟩ table.bindings, insertBinding_ordered _ table.ordered⟩

/-- Binds a label, which may be bound already, but to no other namespace. -/
def bind (table : PrefixTable) (label space : String) : Except Error PrefixTable :=
  match table.find? label with
  | none => .ok (table.insert label space)
  | some bound =>
    if bound = space then .ok table else .error (.prefixConflict label bound space)

/-- Binds a namespace under the label or its first free numbered form, unless it is bound already;
returns the label that it is bound to. -/
def bindFresh (table : PrefixTable) (label space : String) : PrefixTable × String :=
  match table.labelOf? space with
  | some bound => (table, bound)
  | none =>
    let label := freshName table.labels label
    (table.insert label space, label)

/-- The last binding among those with the longest namespace that starts `iri`. -/
def longest? (table : PrefixTable) (iri : String) : Option Binding :=
  (table.bindings.filter fun b => Iri.startsWith iri b.space).foldl
    (fun best b =>
      match best with
      | none => some b
      | some best => if best.space.length ≤ b.space.length then some b else some best)
    none

end PrefixTable
end CompactTopicMap
