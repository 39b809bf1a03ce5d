import CompactTopicMap.Distinct
import CompactTopicMap.Graph.Basic

/-! A topic map and the orders in which its topics and associations are enumerated. -/

namespace CompactTopicMap

structure Source where
  map : TopicMap
  topicIds : List TopicId
  associationIds : List AssociationId
  deriving DecidableEq, Repr

def TopicMap.source (map : TopicMap) : Source :=
  ⟨map, map.topicIds, map.associationIds⟩

namespace Source

def reversed (source : Source) : Source :=
  { source with
    topicIds := source.topicIds.reverse
    associationIds := source.associationIds.reverse }

def topic (source : Source) : TopicId → Topic := source.map.topic
def name (source : Source) : NameId → Name := source.map.name
def variant (source : Source) : VariantId → Variant := source.map.variant
def occurrence (source : Source) : OccurrenceId → Occurrence := source.map.occurrence
def association (source : Source) : AssociationId → Association := source.map.association
def role (source : Source) : RoleId → Role := source.map.role

def topicIndicated? (source : Source) (iri : String) : Option TopicId :=
  source.topicIds.find? fun id => iri ∈ (source.topic id).subjectIdentifiers

def topicTypes (source : Source) : List TopicId :=
  firstSeen (source.topicIds.flatMap fun id => (source.topic id).types)

def instancesOf (source : Source) (type : TopicId) : List TopicId :=
  source.topicIds.filter fun id => type ∈ (source.topic id).types

def associationTypes (source : Source) : List TopicId :=
  firstSeen (source.associationIds.map fun id => (source.association id).type)

def associationsOfType (source : Source) (type : TopicId) : List AssociationId :=
  source.associationIds.filter fun id => (source.association id).type = type

end Source
end CompactTopicMap
