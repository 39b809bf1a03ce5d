import CompactTopicMap.Iri

/-!
The topic-map graph. Constructs refer to each other by their positions in the tables of their kinds.
-/

namespace CompactTopicMap

structure TopicId where
  index : Nat
  deriving DecidableEq, Repr, Inhabited

structure NameId where
  index : Nat
  deriving DecidableEq, Repr, Inhabited

structure VariantId where
  index : Nat
  deriving DecidableEq, Repr, Inhabited

structure OccurrenceId where
  index : Nat
  deriving DecidableEq, Repr, Inhabited

structure AssociationId where
  index : Nat
  deriving DecidableEq, Repr, Inhabited

structure RoleId where
  index : Nat
  deriving DecidableEq, Repr, Inhabited

/-- The ways in which an address identifies a topic: it indicates the subject, it is the subject, or
it names the topic itself. -/
inductive LocatorKind where
  | subjectIdentifier
  | subjectLocator
  | itemIdentifier
  deriving DecidableEq, Repr

namespace LocatorKind

def all : List LocatorKind := [subjectIdentifier, subjectLocator, itemIdentifier]

def name : LocatorKind → String
  | subjectIdentifier => "subject-identifier"
  | subjectLocator => "subject-locator"
  | itemIdentifier => "item-identifier"

end LocatorKind

structure Topic where
  subjectIdentifiers : List String := []
  subjectLocators : List String := []
  itemIdentifiers : List String := []
  types : List TopicId := []
  names : List NameId := []
  occurrences : List OccurrenceId := []
  deriving DecidableEq, Repr, Inhabited

namespace Topic

def locators (topic : Topic) : LocatorKind → List String
  | .subjectIdentifier => topic.subjectIdentifiers
  | .subjectLocator => topic.subjectLocators
  | .itemIdentifier => topic.itemIdentifiers

def isAnonymous (topic : Topic) : Bool :=
  LocatorKind.all.all fun kind => (topic.locators kind).isEmpty

def isReserved (topic : Topic) : Bool :=
  topic.subjectIdentifiers.any Iri.isReserved

def isDefaultNameType (topic : Topic) : Bool :=
  Iri.topicName ∈ topic.subjectIdentifiers

end Topic

structure Name where
  parent : TopicId
  type : TopicId
  value : String
  scope : List TopicId
  reifier : Option TopicId := none
  variants : List VariantId := []
  deriving DecidableEq, Repr, Inhabited

structure Variant where
  parent : NameId
  value : String
  datatype : String
  scope : List TopicId
  reifier : Option TopicId := none
  deriving DecidableEq, Repr, Inhabited

structure Occurrence where
  parent : TopicId
  type : TopicId
  value : String
  datatype : String
  scope : List TopicId
  reifier : Option TopicId := none
  deriving DecidableEq, Repr, Inhabited

structure Association where
  type : TopicId
  roles : List RoleId := []
  scope : List TopicId
  reifier : Option TopicId := none
  deriving DecidableEq, Repr, Inhabited

structure Role where
  parent : AssociationId
  type : TopicId
  player : TopicId
  reifier : Option TopicId := none
  deriving DecidableEq, Repr, Inhabited

inductive Reifiable where
  | topicMap
  | name (id : NameId)
  | variant (id : VariantId)
  | occurrence (id : OccurrenceId)
  | association (id : AssociationId)
  | role (id : RoleId)
  deriving DecidableEq, Repr

structure TopicMap where
  reifier : Option TopicId := none
  topics : Array Topic := #[]
  names : Array Name := #[]
  variants : Array Variant := #[]
  occurrences : Array Occurrence := #[]
  associations : Array Association := #[]
  roles : Array Role := #[]
  deriving DecidableEq, Repr, Inhabited

namespace TopicMap

def topic (map : TopicMap) (id : TopicId) : Topic := map.topics.getD id.index default
def name (map : TopicMap) (id : NameId) : Name := map.names.getD id.index default
def variant (map : TopicMap) (id : VariantId) : Variant := map.variants.getD id.index default

def occurrence (map : TopicMap) (id : OccurrenceId) : Occurrence :=
  map.occurrences.getD id.index default

def association (map : TopicMap) (id : AssociationId) : Association :=
  map.associations.getD id.index default

def role (map : TopicMap) (id : RoleId) : Role := map.roles.getD id.index default

def topicIds (map : TopicMap) : List TopicId :=
  (List.range map.topics.size).map TopicId.mk

def associationIds (map : TopicMap) : List AssociationId :=
  (List.range map.associations.size).map AssociationId.mk

def find? (map : TopicMap) (kind : LocatorKind) (iri : String) : Option TopicId :=
  map.topicIds.find? fun id => iri ∈ (map.topic id).locators kind

end TopicMap
end CompactTopicMap
