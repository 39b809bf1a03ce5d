import CompactTopicMap.Graph.Source
import CompactTopicMap.Identity

namespace CompactTopicMap

structure Resolver where
  naming : Naming
  known : List (TopicId × Option Identity) := []
  deriving DecidableEq, Repr

namespace Resolver

def resolve (resolver : Resolver) (source : Source) (table : PrefixTable) (id : TopicId) :
    Resolver × Option Identity :=
  match resolver.known.lookup id with
  | some identity => (resolver, identity)
  | none =>
    let identity := resolver.naming.identity? table (source.topic id)
    ({ resolver with known := (id, identity) :: resolver.known }, identity)

def size (resolver : Resolver) : Nat := resolver.known.length

/-- What is remembered is what would be found again. -/
def Faithful (resolver : Resolver) (source : Source) (table : PrefixTable) : Prop :=
  ∀ entry ∈ resolver.known, entry.2 = resolver.naming.identity? table (source.topic entry.1)

section Faithful

variable {resolver : Resolver} {source : Source} {table : PrefixTable}

theorem Faithful.resolve (faithful : resolver.Faithful source table) (id : TopicId) :
    (resolver.resolve source table id).1.Faithful source table ∧
      (resolver.resolve source table id).1.naming = resolver.naming ∧
      (resolver.resolve source table id).2 = resolver.naming.identity? table (source.topic id) := by
  unfold Resolver.resolve
  split
  · rename_i identity found
    obtain ⟨before, behind, known, _⟩ := List.lookup_eq_some_iff.mp found
    exact ⟨faithful, rfl, faithful (id, identity) (by simp [known])⟩
  · refine ⟨?_, rfl, rfl⟩
    intro entry member
    rcases List.mem_cons.mp member with rfl | earlier
    · rfl
    · exact faithful entry earlier

end Faithful

end Resolver
end CompactTopicMap
