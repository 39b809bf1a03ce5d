import CompactTopicMap.Graph.Basic

namespace CompactTopicMap

inductive Construct where
  | name (id : NameId)
  | variant (id : VariantId)
  | occurrence (id : OccurrenceId)
  | association (id : AssociationId)
  | role (id : RoleId)
  | locator (topic : TopicId) (kind : LocatorKind) (iri : String)
  | typing (topic type : TopicId)
  | subtyping (subtype supertype : TopicId)
  deriving DecidableEq, Repr

structure Written where
  constructs : List Construct
  distinct : constructs.Nodup
  deriving DecidableEq, Repr

namespace Written

instance : Membership Construct Written := ⟨fun written c => c ∈ written.constructs⟩

instance (c : Construct) (written : Written) : Decidable (c ∈ written) :=
  inferInstanceAs (Decidable (c ∈ written.constructs))

def empty : Written := ⟨[], .nil⟩

def size (written : Written) : Nat := written.constructs.length

def insert (written : Written) (c : Construct) : Written :=
  if member : c ∈ written.constructs then written
  else ⟨c :: written.constructs, List.nodup_cons.mpr ⟨member, written.distinct⟩⟩

def insertAll (written : Written) (constructs : List Construct) : Written :=
  constructs.foldl insert written

theorem not_mem_empty (c : Construct) : c ∉ empty := List.not_mem_nil

theorem mem_insert {written : Written} {c x : Construct} :
    x ∈ written.insert c ↔ x = c ∨ x ∈ written := by
  unfold insert
  split
  · rename_i member
    constructor
    · exact .inr
    · rintro (rfl | old)
      · exact member
      · exact old
  · exact List.mem_cons

theorem mem_insertAll {written : Written} {constructs : List Construct} {x : Construct} :
    x ∈ written.insertAll constructs ↔ x ∈ constructs ∨ x ∈ written := by
  unfold insertAll
  induction constructs generalizing written with
  | nil => simp
  | cons c rest ih => simp [ih, mem_insert, or_left_comm, or_assoc]

theorem size_insert_of_not_mem {written : Written} {c : Construct} (fresh : c ∉ written) :
    (written.insert c).size = written.size + 1 := by
  have fresh' : c ∉ written.constructs := fresh
  simp [insert, fresh', size]

theorem size_insertAll {written : Written} {constructs : List Construct}
    (distinct : constructs.Nodup) (fresh : ∀ c ∈ constructs, c ∉ written) :
    (written.insertAll constructs).size = written.size + constructs.length := by
  induction constructs generalizing written with
  | nil => rfl
  | cons c rest ih =>
    rw [List.nodup_cons] at distinct
    have still : ∀ x ∈ rest, x ∉ written.insert c := by
      intro x member present
      rcases mem_insert.mp present with rfl | old
      · exact distinct.1 member
      · exact fresh x (List.mem_cons_of_mem c member) old
    have size := size_insert_of_not_mem (fresh c List.mem_cons_self)
    have total := ih distinct.2 still
    rw [insertAll] at total
    rw [insertAll, List.foldl_cons, total, size, List.length_cons]
    omega

end Written
end CompactTopicMap
