import CompactTopicMap.Error
import CompactTopicMap.Graph.Source

/-!
Types and supertypes that associations give. Such an association is folded into the statements of
the instance or subtype.
-/

namespace CompactTopicMap

/-- A reserved type of associations, by the subject identifiers of the type and its two roles. -/
structure ReservedPattern where
  type : String
  general : String
  specific : String
  deriving DecidableEq, Repr

namespace ReservedPattern

def typeInstance : ReservedPattern := ⟨Iri.typeInstance, Iri.typeRole, Iri.instanceRole⟩

def supertypeSubtype : ReservedPattern :=
  ⟨Iri.supertypeSubtype, Iri.supertypeRole, Iri.subtypeRole⟩

end ReservedPattern

/-- What a folded association says: the general topic is a type or supertype of the specific one. -/
structure Fact where
  association : AssociationId
  specific : TopicId
  general : TopicId
  deriving DecidableEq, Repr

structure Typing where
  types : List Fact := []
  supertypes : List Fact := []
  deriving DecidableEq, Repr

/-- The players in roles of the given type. A role type that is no topic has none. -/
def Source.playersOf (source : Source) (association : Association) (roleType : Option TopicId) :
    List TopicId :=
  let roles := association.roles.map source.role
  (roles.filter fun role => some role.type = roleType).map Role.player

/-- The association has no scope, no further role and no reifier, nor have its roles. -/
def Source.isPlain (source : Source) (association : Association) : Bool :=
  association.scope.isEmpty && association.reifier.isNone && association.roles.length = 2 &&
    association.roles.all fun id => (source.role id).reifier.isNone

namespace Typing

/-- What one association of a reserved type says; nothing if it is not folded. -/
def fact (source : Source) (pattern : ReservedPattern) (general specific : Option TopicId)
    (id : AssociationId) : Except Error (Option Fact) :=
  let association := source.association id
  let generals := source.playersOf association general
  let specifics := source.playersOf association specific
  match generals, specifics with
  | [general], [specific] =>
    .ok (if source.isPlain association then some ⟨id, specific, general⟩ else none)
  | [_], _ => .error (.structuralConstraint id pattern.type pattern.specific specifics.length)
  | _, _ => .error (.structuralConstraint id pattern.type pattern.general generals.length)

def facts (source : Source) (pattern : ReservedPattern) : Except Error (List Fact) :=
  match source.topicIndicated? pattern.type with
  | none => .ok []
  | some type => do
    let general := source.topicIndicated? pattern.general
    let specific := source.topicIndicated? pattern.specific
    let facts ← (source.associationsOfType type).mapM (fact source pattern general specific)
    .ok (facts.filterMap id)

def build (source : Source) : Except Error Typing := do
  let types ← facts source .typeInstance
  let supertypes ← facts source .supertypeSubtype
  .ok { types, supertypes }

def generalsOf (facts : List Fact) (specific : TopicId) : List TopicId :=
  firstSeen ((facts.filter (·.specific = specific)).map Fact.general)

def derivedTypes (typing : Typing) (topic : TopicId) : List TopicId :=
  generalsOf typing.types topic

def supertypesOf (typing : Typing) (topic : TopicId) : List TopicId :=
  generalsOf typing.supertypes topic

/-- The association is said by a statement in a block. -/
def isFolded (typing : Typing) (id : AssociationId) : Bool :=
  (typing.types ++ typing.supertypes).any (·.association = id)

/-- The direct types of a topic, then the derived ones that are not among them. -/
def typesOf (typing : Typing) (source : Source) (topic : TopicId) : List TopicId :=
  (typing.derivedTypes topic).foldl insertNew (source.topic topic).types

def instancesOf (typing : Typing) (source : Source) (type : TopicId) : List TopicId :=
  source.topicIds.filter fun id =>
    type ∈ (source.topic id).types || type ∈ typing.derivedTypes id

def topicTypes (typing : Typing) (source : Source) : List TopicId :=
  (source.topicIds.flatMap typing.derivedTypes).foldl insertNew source.topicTypes

end Typing
end CompactTopicMap
