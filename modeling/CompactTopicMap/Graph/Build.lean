import CompactTopicMap.Graph.Basic
import CompactTopicMap.Distinct

namespace CompactTopicMap

namespace Topic

def addLocator (topic : Topic) (kind : LocatorKind) (iri : String) : Topic :=
  match kind with
  | .subjectIdentifier =>
    { topic with subjectIdentifiers := insertNew topic.subjectIdentifiers iri }
  | .subjectLocator => { topic with subjectLocators := insertNew topic.subjectLocators iri }
  | .itemIdentifier => { topic with itemIdentifiers := insertNew topic.itemIdentifiers iri }

def addType (topic : Topic) (type : TopicId) : Topic :=
  { topic with types := insertNew topic.types type }

end Topic

namespace TopicMap

def modifyTopic (map : TopicMap) (id : TopicId) (change : Topic → Topic) : TopicMap :=
  { map with topics := map.topics.modify id.index change }

def createTopic (map : TopicMap) : TopicMap × TopicId :=
  ({ map with topics := map.topics.push {} }, ⟨map.topics.size⟩)

def addLocator (map : TopicMap) (id : TopicId) (kind : LocatorKind) (iri : String) : TopicMap :=
  map.modifyTopic id (·.addLocator kind iri)

def addType (map : TopicMap) (id type : TopicId) : TopicMap :=
  map.modifyTopic id (·.addType type)

def topicAt (map : TopicMap) (kind : LocatorKind) (iri : String) : TopicMap × TopicId :=
  match map.find? kind iri with
  | some id => (map, id)
  | none =>
    let (map, id) := map.createTopic
    (map.addLocator id kind iri, id)

def createName (map : TopicMap) (topic type : TopicId) (value : String) (scope : List TopicId) :
    TopicMap × NameId :=
  let id : NameId := ⟨map.names.size⟩
  let map := { map with names := map.names.push { parent := topic, type, value, scope } }
  (map.modifyTopic topic fun t => { t with names := t.names ++ [id] }, id)

/-- A name of the default name type, whose topic is created if it is missing. -/
def createDefaultName (map : TopicMap) (topic : TopicId) (value : String) (scope : List TopicId) :
    TopicMap × NameId :=
  let (map, type) := map.topicAt .subjectIdentifier Iri.topicName
  map.createName topic type value scope

def createVariant (map : TopicMap) (name : NameId) (value datatype : String)
    (scope : List TopicId) : TopicMap × VariantId :=
  let id : VariantId := ⟨map.variants.size⟩
  ({ map with
      variants := map.variants.push { parent := name, value, datatype, scope }
      names := map.names.modify name.index fun n => { n with variants := n.variants ++ [id] } },
    id)

def createOccurrence (map : TopicMap) (topic type : TopicId) (value datatype : String)
    (scope : List TopicId) : TopicMap × OccurrenceId :=
  let id : OccurrenceId := ⟨map.occurrences.size⟩
  let map := { map with
    occurrences := map.occurrences.push { parent := topic, type, value, datatype, scope } }
  (map.modifyTopic topic fun t => { t with occurrences := t.occurrences ++ [id] }, id)

def createAssociation (map : TopicMap) (type : TopicId) (scope : List TopicId) :
    TopicMap × AssociationId :=
  ({ map with associations := map.associations.push { type, scope } }, ⟨map.associations.size⟩)

def createRole (map : TopicMap) (association : AssociationId) (type player : TopicId) :
    TopicMap × RoleId :=
  let id : RoleId := ⟨map.roles.size⟩
  ({ map with
      roles := map.roles.push { parent := association, type, player }
      associations := map.associations.modify association.index fun a =>
        { a with roles := a.roles ++ [id] } },
    id)

def setReifier (map : TopicMap) (reified : Reifiable) (reifier : Option TopicId) : TopicMap :=
  match reified with
  | .topicMap => { map with reifier }
  | .name id =>
    { map with names := map.names.modify id.index fun n => { n with reifier } }
  | .variant id =>
    { map with variants := map.variants.modify id.index fun v => { v with reifier } }
  | .occurrence id =>
    { map with occurrences := map.occurrences.modify id.index fun o => { o with reifier } }
  | .association id =>
    { map with associations := map.associations.modify id.index fun a => { a with reifier } }
  | .role id =>
    { map with roles := map.roles.modify id.index fun r => { r with reifier } }

def createBinary (map : TopicMap) (type generalRole specificRole : String)
    (general specific : TopicId) : TopicMap × AssociationId :=
  let (map, type) := map.topicAt .subjectIdentifier type
  let (map, generalRole) := map.topicAt .subjectIdentifier generalRole
  let (map, specificRole) := map.topicAt .subjectIdentifier specificRole
  let (map, association) := map.createAssociation type []
  let (map, _) := map.createRole association generalRole general
  let (map, _) := map.createRole association specificRole specific
  (map, association)

def createTypeInstance (map : TopicMap) (type instanceTopic : TopicId) :
    TopicMap × AssociationId :=
  map.createBinary Iri.typeInstance Iri.typeRole Iri.instanceRole type instanceTopic

def createSupertypeSubtype (map : TopicMap) (supertype subtype : TopicId) :
    TopicMap × AssociationId :=
  map.createBinary Iri.supertypeSubtype Iri.supertypeRole Iri.subtypeRole supertype subtype

end TopicMap
end CompactTopicMap
