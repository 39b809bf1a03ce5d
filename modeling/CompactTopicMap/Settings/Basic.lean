import CompactTopicMap.Error
import CompactTopicMap.Identity

namespace CompactTopicMap

structure Settings where
  writeItemIdentifiers : Bool := false
  detectNamespaces : Bool := true
  mineTemplates : Bool := false
  mineTopics : Bool := true
  mineAssociations : Bool := true
  /-- The least share of the instances that must carry what becomes a template entry. -/
  relevance : Float := 0.8
  defineTemplates : Bool := true
  undefinedTemplates : List String := []
  mergeTemplates : Bool := false
  /-- The least number of shared entries that are factored out. -/
  mergeLeast : Nat := 2
  /-- The greatest number of entries that are compared at once; none is no bound. -/
  mergeGreatest : Option Nat := none
  naming : Naming := {}
  deriving DecidableEq, Repr

inductive SettingKey where
  | writeItemIdentifiers
  | detectNamespaces
  | mineTemplates
  | mineTopics
  | mineAssociations
  | relevance
  | defineTemplates
  | undefinedTemplates
  | mergeTemplates
  | mergeLeast
  | mergeGreatest
  | engine
  | base
  deriving DecidableEq, Repr

namespace SettingKey

def all : List SettingKey :=
  [writeItemIdentifiers, detectNamespaces, mineTemplates, mineTopics, mineAssociations, relevance,
    defineTemplates, undefinedTemplates, mergeTemplates, mergeLeast, mergeGreatest, engine, base]

def name : SettingKey → String
  | writeItemIdentifiers => "export-item-identifiers"
  | detectNamespaces => "prefix-auto-detect"
  | mineTemplates => "template-auto-detect"
  | mineTopics => "template-detect-topics"
  | mineAssociations => "template-detect-associations"
  | relevance => "template-relevance-threshold"
  | defineTemplates => "template-export"
  | undefinedTemplates => "template-export-exclude"
  | mergeTemplates => "template-merge"
  | mergeLeast => "template-merge-threshold"
  | mergeGreatest => "template-merge-max-subset-size"
  | engine => "engine-prefix"
  | base => "base-iri"

def ofName? (name : String) : Option SettingKey := all.find? (·.name = name)

end SettingKey

namespace Settings

def isUndefined (settings : Settings) (template : String) : Bool :=
  settings.undefinedTemplates.contains template

def unitInterval (x : Float) : Bool := 0.0 ≤ x && x ≤ 1.0

def validate (settings : Settings) : Except Error Unit :=
  if !unitInterval settings.relevance then
    .error (.invalidSetting SettingKey.relevance.name (.outsideUnit settings.relevance))
  else if settings.mergeLeast = 0 then
    .error (.invalidSetting SettingKey.mergeLeast.name .zero)
  else if settings.mergeGreatest = some 0 then
    .error (.invalidSetting SettingKey.mergeGreatest.name .zero)
  else .ok ()

end Settings
end CompactTopicMap
