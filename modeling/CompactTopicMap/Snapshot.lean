import CompactTopicMap.Graph.Basic
import CompactTopicMap.Json.Basic

/-! Topic maps as JSON. Identifiers are written as the positions that they stand for. -/

namespace CompactTopicMap.Snapshot

open Json (size? text? list? fields? required? absentOr?)

def ids (items : List Nat) : Json := .array (items.map .natural)

def texts (items : List String) : Json := .array (items.map .string)

def reifier (id : Option TopicId) : Json := id.elim .null fun id => .natural id.index

def topicIds (items : List TopicId) : Json := ids (items.map TopicId.index)

def ofTopic (topic : Topic) : Json := .object [
  ("subject_identifiers", texts topic.subjectIdentifiers),
  ("subject_locators", texts topic.subjectLocators),
  ("item_identifiers", texts topic.itemIdentifiers),
  ("types", topicIds topic.types),
  ("names", ids (topic.names.map NameId.index)),
  ("occurrences", ids (topic.occurrences.map OccurrenceId.index))]

def ofName (name : Name) : Json := .object [
  ("parent", .natural name.parent.index),
  ("type_", .natural name.type.index),
  ("value", .string name.value),
  ("scope", topicIds name.scope),
  ("reifier", reifier name.reifier),
  ("variants", ids (name.variants.map VariantId.index))]

def ofVariant (variant : Variant) : Json := .object [
  ("parent", .natural variant.parent.index),
  ("value", .string variant.value),
  ("datatype", .string variant.datatype),
  ("scope", topicIds variant.scope),
  ("reifier", reifier variant.reifier)]

def ofOccurrence (occurrence : Occurrence) : Json := .object [
  ("parent", .natural occurrence.parent.index),
  ("type_", .natural occurrence.type.index),
  ("value", .string occurrence.value),
  ("datatype", .string occurrence.datatype),
  ("scope", topicIds occurrence.scope),
  ("reifier", reifier occurrence.reifier)]

def ofAssociation (association : Association) : Json := .object [
  ("type_", .natural association.type.index),
  ("roles", ids (association.roles.map RoleId.index)),
  ("scope", topicIds association.scope),
  ("reifier", reifier association.reifier)]

def ofRole (role : Role) : Json := .object [
  ("parent", .natural role.parent.index),
  ("type_", .natural role.type.index),
  ("player", .natural role.player.index),
  ("reifier", reifier role.reifier)]

def ofMap (map : TopicMap) : Json := .object [
  ("reifier", reifier map.reifier),
  ("topics", .array (map.topics.toList.map ofTopic)),
  ("names", .array (map.names.toList.map ofName)),
  ("variants", .array (map.variants.toList.map ofVariant)),
  ("occurrences", .array (map.occurrences.toList.map ofOccurrence)),
  ("associations", .array (map.associations.toList.map ofAssociation)),
  ("roles", .array (map.roles.toList.map ofRole))]

def topicId? (json : Json) : Option TopicId := (size? json).map TopicId.mk

def topic? (json : Json) : Option Topic := do
  let fields ← fields? ["subject_identifiers", "subject_locators", "item_identifiers", "types",
    "names", "occurrences"] json
  some {
    subjectIdentifiers := ← required? fields "subject_identifiers" (list? text?)
    subjectLocators := ← required? fields "subject_locators" (list? text?)
    itemIdentifiers := ← required? fields "item_identifiers" (list? text?)
    types := ← required? fields "types" (list? topicId?)
    names := (← required? fields "names" (list? size?)).map NameId.mk
    occurrences := (← required? fields "occurrences" (list? size?)).map OccurrenceId.mk }

def name? (json : Json) : Option Name := do
  let fields ← fields? ["parent", "type_", "value", "scope", "reifier", "variants"] json
  some {
    parent := ← required? fields "parent" topicId?
    type := ← required? fields "type_" topicId?
    value := ← required? fields "value" text?
    scope := ← required? fields "scope" (list? topicId?)
    reifier := ← absentOr? fields "reifier" topicId?
    variants := (← required? fields "variants" (list? size?)).map VariantId.mk }

def variant? (json : Json) : Option Variant := do
  let fields ← fields? ["parent", "value", "datatype", "scope", "reifier"] json
  some {
    parent := ⟨← required? fields "parent" size?⟩
    value := ← required? fields "value" text?
    datatype := ← required? fields "datatype" text?
    scope := ← required? fields "scope" (list? topicId?)
    reifier := ← absentOr? fields "reifier" topicId? }

def occurrence? (json : Json) : Option Occurrence := do
  let fields ← fields? ["parent", "type_", "value", "datatype", "scope", "reifier"] json
  some {
    parent := ← required? fields "parent" topicId?
    type := ← required? fields "type_" topicId?
    value := ← required? fields "value" text?
    datatype := ← required? fields "datatype" text?
    scope := ← required? fields "scope" (list? topicId?)
    reifier := ← absentOr? fields "reifier" topicId? }

def association? (json : Json) : Option Association := do
  let fields ← fields? ["type_", "roles", "scope", "reifier"] json
  some {
    type := ← required? fields "type_" topicId?
    roles := (← required? fields "roles" (list? size?)).map RoleId.mk
    scope := ← required? fields "scope" (list? topicId?)
    reifier := ← absentOr? fields "reifier" topicId? }

def role? (json : Json) : Option Role := do
  let fields ← fields? ["parent", "type_", "player", "reifier"] json
  some {
    parent := ⟨← required? fields "parent" size?⟩
    type := ← required? fields "type_" topicId?
    player := ← required? fields "player" topicId?
    reifier := ← absentOr? fields "reifier" topicId? }

def map? (json : Json) : Option TopicMap := do
  let fields ← fields? ["reifier", "topics", "names", "variants", "occurrences", "associations",
    "roles"] json
  some {
    reifier := ← absentOr? fields "reifier" topicId?
    topics := (← required? fields "topics" (list? topic?)).toArray
    names := (← required? fields "names" (list? name?)).toArray
    variants := (← required? fields "variants" (list? variant?)).toArray
    occurrences := (← required? fields "occurrences" (list? occurrence?)).toArray
    associations := (← required? fields "associations" (list? association?)).toArray
    roles := (← required? fields "roles" (list? role?)).toArray }

end CompactTopicMap.Snapshot
