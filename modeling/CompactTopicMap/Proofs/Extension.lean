import CompactTopicMap.Proofs.Built
import Mathlib.Data.List.Infix

/-! What builder calls keep. Calls that are made up of others come down to plain ones. -/

namespace CompactTopicMap

section Kept

/-- The records are still there, in their places, with what is kept of them. -/
def Retains {α : Type} (Kept : α → α → Prop) (old new : Array α) : Prop :=
  ∀ (i : Nat) (record : α), old[i]? = some record →
    ∃ changed, new[i]? = some changed ∧ Kept record changed

namespace Retains

variable {α : Type} {Kept : α → α → Prop} {old middle new : Array α}

theorem refl (kept : ∀ record, Kept record record) (records : Array α) :
    Retains Kept records records :=
  fun _ record found => ⟨record, found, kept record⟩

theorem trans (first : Retains Kept old middle) (second : Retains Kept middle new)
    (both : ∀ {a b c}, Kept a b → Kept b c → Kept a c) : Retains Kept old new := by
  intro i record found
  obtain ⟨changed, present, kept⟩ := first i record found
  obtain ⟨last, there, still⟩ := second i changed present
  exact ⟨last, there, both kept still⟩

theorem push (kept : ∀ record, Kept record record) (records : Array α) (record : α) :
    Retains Kept records (records.push record) := by
  intro i found present
  obtain ⟨bound, rfl⟩ := Array.getElem?_eq_some_iff.mp present
  exact ⟨_, Array.getElem?_push_lt bound, kept _⟩

theorem modify {change : α → α} (same : ∀ record, Kept record record)
    (kept : ∀ record, Kept record (change record)) (records : Array α) (i : Nat) :
    Retains Kept records (records.modify i change) := by
  intro j record found
  rw [Array.getElem?_modify, found]
  by_cases here : i = j
  · exact ⟨change record, by simp [here], kept record⟩
  · exact ⟨record, by simp [here], same record⟩

theorem size_le (retains : Retains Kept old new) : old.size ≤ new.size := by
  by_contra shrunk
  have bound : new.size < old.size := Nat.lt_of_not_le shrunk
  obtain ⟨_, present, _⟩ := retains new.size old[new.size] (Array.getElem?_eq_getElem bound)
  rw [Array.getElem?_eq_none (Nat.le_refl _)] at present
  cases present

end Retains

structure Topic.Kept (old new : Topic) : Prop where
  locators : ∀ kind, old.locators kind <+: new.locators kind
  types : old.types <+: new.types
  names : old.names <+: new.names
  occurrences : old.occurrences <+: new.occurrences

structure Name.Kept (old new : Name) : Prop where
  fixed : (new.parent, new.type, new.value, new.scope) = (old.parent, old.type, old.value, old.scope)
  variants : old.variants <+: new.variants

structure Variant.Kept (old new : Variant) : Prop where
  fixed : (new.parent, new.value, new.datatype, new.scope) =
    (old.parent, old.value, old.datatype, old.scope)

structure Occurrence.Kept (old new : Occurrence) : Prop where
  fixed : (new.parent, new.type, new.value, new.datatype, new.scope) =
    (old.parent, old.type, old.value, old.datatype, old.scope)

structure Association.Kept (old new : Association) : Prop where
  fixed : (new.type, new.scope) = (old.type, old.scope)
  roles : old.roles <+: new.roles

structure Role.Kept (old new : Role) : Prop where
  fixed : (new.parent, new.type, new.player) = (old.parent, old.type, old.player)

theorem Topic.Kept.refl (t : Topic) : t.Kept t :=
  ⟨fun _ => List.prefix_rfl, List.prefix_rfl, List.prefix_rfl, List.prefix_rfl⟩

theorem Topic.Kept.trans {a b c : Topic} (first : a.Kept b) (second : b.Kept c) : a.Kept c where
  locators kind := (first.locators kind).trans (second.locators kind)
  types := first.types.trans second.types
  names := first.names.trans second.names
  occurrences := first.occurrences.trans second.occurrences

theorem prefix_insertNew {α : Type} [DecidableEq α] (items : List α) (item : α) :
    items <+: insertNew items item := by
  rw [insertNew]
  split
  · exact List.prefix_rfl
  · exact List.prefix_append _ _

theorem Topic.locators_addLocator (t : Topic) (kind other : LocatorKind) (iri : String) :
    (t.addLocator kind iri).locators other =
      if other = kind then insertNew (t.locators kind) iri else t.locators other := by
  cases kind <;> cases other <;> rfl

theorem Topic.kept_addLocator (t : Topic) (kind : LocatorKind) (iri : String) :
    t.Kept (t.addLocator kind iri) := by
  refine ⟨fun other => ?_, ?_, ?_, ?_⟩
  · rw [locators_addLocator]
    split
    · rename_i same
      exact same ▸ prefix_insertNew _ _
    · exact List.prefix_rfl
  · cases kind <;> exact List.prefix_rfl
  · cases kind <;> exact List.prefix_rfl
  · cases kind <;> exact List.prefix_rfl

theorem Topic.kept_addType (t : Topic) (type : TopicId) : t.Kept (t.addType type) :=
  { Topic.Kept.refl t with types := prefix_insertNew _ _ }

theorem Topic.kept_names (t : Topic) (id : NameId) : t.Kept { t with names := t.names ++ [id] } :=
  { Topic.Kept.refl t with names := List.prefix_append _ _ }

theorem Topic.kept_occurrences (t : Topic) (id : OccurrenceId) :
    t.Kept { t with occurrences := t.occurrences ++ [id] } :=
  { Topic.Kept.refl t with occurrences := List.prefix_append _ _ }

end Kept

namespace TopicMap

/-- All records of the first map are in the second, and what is kept of them. -/
structure Extends (old new : TopicMap) : Prop where
  topics : Retains Topic.Kept old.topics new.topics
  names : Retains Name.Kept old.names new.names
  variants : Retains Variant.Kept old.variants new.variants
  occurrences : Retains Occurrence.Kept old.occurrences new.occurrences
  associations : Retains Association.Kept old.associations new.associations
  roles : Retains Role.Kept old.roles new.roles

namespace Extends

theorem refl (map : TopicMap) : map.Extends map where
  topics := .refl Topic.Kept.refl _
  names := .refl (fun _ => ⟨rfl, List.prefix_rfl⟩) _
  variants := .refl (fun _ => ⟨rfl⟩) _
  occurrences := .refl (fun _ => ⟨rfl⟩) _
  associations := .refl (fun _ => ⟨rfl, List.prefix_rfl⟩) _
  roles := .refl (fun _ => ⟨rfl⟩) _

theorem trans {first second third : TopicMap} (early : first.Extends second)
    (late : second.Extends third) : first.Extends third where
  topics := early.topics.trans late.topics Topic.Kept.trans
  names := early.names.trans late.names fun a b =>
    ⟨b.fixed.trans a.fixed, a.variants.trans b.variants⟩
  variants := early.variants.trans late.variants fun a b => ⟨b.fixed.trans a.fixed⟩
  occurrences := early.occurrences.trans late.occurrences fun a b => ⟨b.fixed.trans a.fixed⟩
  associations := early.associations.trans late.associations fun a b =>
    ⟨b.fixed.trans a.fixed, a.roles.trans b.roles⟩
  roles := early.roles.trans late.roles fun a b => ⟨b.fixed.trans a.fixed⟩

variable {old new : TopicMap}

theorem hasTopic (grown : old.Extends new) {id : TopicId} (present : old.HasTopic id) :
    new.HasTopic id :=
  Nat.lt_of_lt_of_le present grown.topics.size_le

theorem hasReifiable (grown : old.Extends new) {reified : Reifiable}
    (present : old.HasReifiable reified) : new.HasReifiable reified := by
  cases reified with
  | topicMap => exact present
  | name => exact Nat.lt_of_lt_of_le present grown.names.size_le
  | variant => exact Nat.lt_of_lt_of_le present grown.variants.size_le
  | occurrence => exact Nat.lt_of_lt_of_le present grown.occurrences.size_le
  | association => exact Nat.lt_of_lt_of_le present grown.associations.size_le
  | role => exact Nat.lt_of_lt_of_le present grown.roles.size_le

end Extends
end TopicMap

namespace BuildCall

def isPlain : BuildCall → Bool
  | topicAt _ _ | createDefaultName _ _ _ | createTypeInstance _ _ | createSupertypeSubtype _ _ =>
    false
  | _ => true

theorem extends_of_isPlain (map : TopicMap) (call : BuildCall) (plain : call.isPlain) :
    map.Extends (call.apply map) := by
  have same := TopicMap.Extends.refl map
  cases call with
  | createTopic => exact { same with topics := .push Topic.Kept.refl _ _ }
  | addLocator topic kind iri =>
    exact { same with topics := .modify Topic.Kept.refl (fun t => t.kept_addLocator kind iri) _ _ }
  | addType topic type =>
    exact { same with topics := .modify Topic.Kept.refl (fun t => t.kept_addType type) _ _ }
  | createName topic type value scope =>
    exact { same with
      topics := .modify Topic.Kept.refl (fun t => t.kept_names ⟨map.names.size⟩) _ _
      names := .push (fun _ => ⟨rfl, List.prefix_rfl⟩) _ _ }
  | createVariant name value datatype scope =>
    exact { same with
      names := .modify (fun _ => ⟨rfl, List.prefix_rfl⟩) (fun _ => ⟨rfl, List.prefix_append _ _⟩) _ _
      variants := .push (fun _ => ⟨rfl⟩) _ _ }
  | createOccurrence topic type value datatype scope =>
    exact { same with
      topics := .modify Topic.Kept.refl (fun t => t.kept_occurrences ⟨map.occurrences.size⟩) _ _
      occurrences := .push (fun _ => ⟨rfl⟩) _ _ }
  | createAssociation type scope =>
    exact { same with associations := .push (fun _ => ⟨rfl, List.prefix_rfl⟩) _ _ }
  | createRole association type player =>
    exact { same with
      associations := .modify (fun _ => ⟨rfl, List.prefix_rfl⟩)
        (fun _ => ⟨rfl, List.prefix_append _ _⟩) _ _
      roles := .push (fun _ => ⟨rfl⟩) _ _ }
  | setReifier reified reifier =>
    cases reified with
    | topicMap => exact { same with }
    | name =>
      exact { same with
        names := .modify (fun _ => ⟨rfl, List.prefix_rfl⟩) (fun _ => ⟨rfl, List.prefix_rfl⟩) _ _ }
    | variant => exact { same with variants := .modify (fun _ => ⟨rfl⟩) (fun _ => ⟨rfl⟩) _ _ }
    | occurrence => exact { same with occurrences := .modify (fun _ => ⟨rfl⟩) (fun _ => ⟨rfl⟩) _ _ }
    | association =>
      exact { same with
        associations :=
          .modify (fun _ => ⟨rfl, List.prefix_rfl⟩) (fun _ => ⟨rfl, List.prefix_rfl⟩) _ _ }
    | role => exact { same with roles := .modify (fun _ => ⟨rfl⟩) (fun _ => ⟨rfl⟩) _ _ }
  | topicAt | createDefaultName | createTypeInstance | createSupertypeSubtype => cases plain

end BuildCall

namespace TopicMap

inductive Reaches (first : TopicMap) : TopicMap → Prop
  | refl : Reaches first first
  | step {map : TopicMap} (earlier : Reaches first map) (call : BuildCall) (plain : call.isPlain)
    (valid : call.Valid map) : Reaches first (call.apply map)

namespace Reaches

variable {first second third : TopicMap}

theorem trans (early : first.Reaches second) (late : second.Reaches third) :
    first.Reaches third := by
  induction late with
  | refl => exact early
  | step _ call plain valid ih => exact ih.step call plain valid

theorem grown (reaches : first.Reaches second) : first.Extends second := by
  induction reaches with
  | refl => exact .refl first
  | step _ call plain _ ih => exact ih.trans (BuildCall.extends_of_isPlain _ call plain)

theorem of_call {map : TopicMap} (call : BuildCall) (plain : call.isPlain) (valid : call.Valid map) :
    map.Reaches (call.apply map) :=
  .step .refl call plain valid

end Reaches

variable {map : TopicMap}

theorem topicAt_reaches (map : TopicMap) (kind : LocatorKind) (iri : String) :
    map.Reaches (map.topicAt kind iri).1 ∧
      (map.topicAt kind iri).1.HasTopic (map.topicAt kind iri).2 := by
  rw [topicAt]
  split
  · rename_i id found
    refine ⟨.refl, ?_⟩
    have member : id ∈ map.topicIds := List.mem_of_find?_eq_some found
    obtain ⟨i, bound, rfl⟩ := List.mem_map.mp member
    exact List.mem_range.mp bound
  · have created : map.createTopic.1.HasTopic ⟨map.topics.size⟩ := by
      simp [createTopic, HasTopic]
    have made : map.Reaches map.createTopic.1 := .of_call .createTopic rfl trivial
    have located : map.createTopic.1.Reaches (map.createTopic.1.addLocator _ kind iri) :=
      .of_call (.addLocator ⟨map.topics.size⟩ kind iri) rfl created
    exact ⟨made.trans located, located.grown.hasTopic created⟩

theorem createDefaultName_reaches {topic : TopicId} (present : map.HasTopic topic) (value : String)
    {scope : List TopicId} (themes : ∀ theme ∈ scope, map.HasTopic theme) :
    map.Reaches (map.createDefaultName topic value scope).1 := by
  obtain ⟨reached, typed⟩ := map.topicAt_reaches .subjectIdentifier Iri.topicName
  have grown := reached.grown
  refine reached.step (.createName topic _ value scope) rfl ⟨grown.hasTopic present, typed, ?_⟩
  exact fun theme member => grown.hasTopic (themes theme member)

theorem createPair_reaches {type generalRole specificRole general specific : TopicId}
    (typed : map.HasTopic type) (asGeneral : map.HasTopic generalRole)
    (asSpecific : map.HasTopic specificRole) (generalThere : map.HasTopic general)
    (specificThere : map.HasTopic specific) :
    map.Reaches (((map.createAssociation type []).1.createRole ⟨map.associations.size⟩ generalRole
      general).1.createRole ⟨map.associations.size⟩ specificRole specific).1 := by
  have opened : map.Reaches (map.createAssociation type []).1 :=
    .of_call (.createAssociation type []) rfl ⟨typed, nofun⟩
  have there : map.associations.size < (map.createAssociation type []).1.associations.size := by
    simp [createAssociation]
  have played := opened.step (.createRole ⟨map.associations.size⟩ generalRole general) rfl
    ⟨there, opened.grown.hasTopic asGeneral, opened.grown.hasTopic generalThere⟩
  refine played.step (.createRole ⟨map.associations.size⟩ specificRole specific) rfl
    ⟨?_, played.grown.hasTopic asSpecific, played.grown.hasTopic specificThere⟩
  simp [BuildCall.apply, createRole, createAssociation]

theorem createBinary_reaches (type generalRole specificRole : String) {general specific : TopicId}
    (generalThere : map.HasTopic general) (specificThere : map.HasTopic specific) :
    map.Reaches (map.createBinary type generalRole specificRole general specific).1 := by
  simp only [createBinary]
  obtain ⟨first, typed⟩ := map.topicAt_reaches .subjectIdentifier type
  generalize map.topicAt .subjectIdentifier type = typeFound at first typed ⊢
  obtain ⟨second, asGeneral⟩ := typeFound.1.topicAt_reaches .subjectIdentifier generalRole
  generalize typeFound.1.topicAt .subjectIdentifier generalRole = generalFound
    at second asGeneral ⊢
  obtain ⟨third, asSpecific⟩ := generalFound.1.topicAt_reaches .subjectIdentifier specificRole
  generalize generalFound.1.topicAt .subjectIdentifier specificRole = specificFound
    at third asSpecific ⊢
  have all := (first.trans second).trans third
  have last := third.grown
  exact all.trans (createPair_reaches ((second.grown.trans last).hasTopic typed)
    (last.hasTopic asGeneral) asSpecific (all.grown.hasTopic generalThere)
    (all.grown.hasTopic specificThere))

end TopicMap

theorem BuildCall.apply_reaches {map : TopicMap} {call : BuildCall} (valid : call.Valid map) :
    map.Reaches (call.apply map) := by
  cases call with
  | topicAt kind iri => exact (map.topicAt_reaches kind iri).1
  | createDefaultName topic value scope =>
    exact TopicMap.createDefaultName_reaches valid.1 value valid.2
  | createTypeInstance type instanceTopic =>
    exact TopicMap.createBinary_reaches _ _ _ valid.1 valid.2
  | createSupertypeSubtype supertype subtype =>
    exact TopicMap.createBinary_reaches _ _ _ valid.1 valid.2
  | createTopic | addLocator | addType | createName | createVariant | createOccurrence
  | createAssociation | createRole | setReifier => exact .of_call _ rfl valid

end CompactTopicMap
