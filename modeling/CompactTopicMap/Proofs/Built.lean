import CompactTopicMap.Graph.Build
import Mathlib.Data.List.Nodup

/-! Maps made by builder calls, in which each parent lists exactly its children. -/

namespace CompactTopicMap

def positions (item : Nat) (items : List Nat) : List Nat :=
  (items.zipIdx.filter (·.1 = item)).map Prod.snd

theorem mem_positions {item i : Nat} {items : List Nat} :
    i ∈ positions item items ↔ items[i]? = some item := by
  simp [positions, List.mk_mem_zipIdx_iff_getElem?]

theorem positions_nodup (item : Nat) (items : List Nat) : (positions item items).Nodup := by
  have distinct : (items.zipIdx.map Prod.snd).Nodup := by
    rw [List.zipIdx_map_snd]
    exact List.nodup_range'
  exact distinct.sublist (List.filter_sublist.map Prod.snd)

theorem positions_append (item last : Nat) (items : List Nat) :
    positions item (items ++ [last]) =
      positions item items ++ if last = item then [items.length] else [] := by
  rw [positions, List.zipIdx_append, List.filter_append, List.map_append, ← positions]
  by_cases same : last = item <;> simp [same]

theorem map_modify_eq {α β : Type} {owner : α → β} {change : α → α}
    (same : ∀ x, owner (change x) = owner x) (records : Array α) (i : Nat) :
    (records.modify i change).toList.map owner = records.toList.map owner := by
  apply List.ext_getElem
  · simp
  · intro j bound _
    simp only [Array.toList_modify, List.getElem_map, List.getElem_modify, Array.getElem_toList]
    split
    · exact same _
    · rfl

theorem forall_mem_modify {α : Type} {Holds : α → Prop} {records : Array α} (change : α → α) (i : Nat)
    (old : ∀ record ∈ records, Holds record)
    (kept : ∀ record, Holds record → Holds (change record)) :
    ∀ record ∈ records.modify i change, Holds record := by
  intro record member
  obtain ⟨j, bound, rfl⟩ := Array.mem_iff_getElem.mp member
  rw [Array.size_modify] at bound
  rw [Array.getElem_modify]
  split
  · exact kept _ (old _ (Array.getElem_mem bound))
  · exact old _ (Array.getElem_mem bound)

/-- Each parent lists the positions of its children, which name it as their owner. -/
structure Owns {α : Type} (parents : Array α) (children : α → List Nat) (owners : List Nat) :
    Prop where
  bounded : ∀ i ∈ owners, i < parents.size
  listed : ∀ i (bound : i < parents.size), children parents[i] = positions i owners

namespace Owns

variable {α : Type} {parents : Array α} {children : α → List Nat} {owners : List Nat}

theorem push_parent (owns : Owns parents children owners) {parent : α}
    (childless : children parent = []) : Owns (parents.push parent) children owners := by
  constructor
  · intro i member
    rw [Array.size_push]
    exact Nat.lt_succ_of_lt (owns.bounded i member)
  · intro i bound
    rw [Array.getElem_push]
    split
    · rename_i old
      exact owns.listed i old
    · rename_i new
      rw [childless, eq_comm, List.eq_nil_iff_forall_not_mem]
      intro j member
      have owner : i ∈ owners := List.mem_of_getElem? (mem_positions.mp member)
      exact new (owns.bounded i owner)

theorem modify_parent (owns : Owns parents children owners) (change : α → α) (i : Nat)
    (same : ∀ parent, children (change parent) = children parent) :
    Owns (parents.modify i change) children owners := by
  constructor
  · intro j member
    rw [Array.size_modify]
    exact owns.bounded j member
  · intro j bound
    rw [Array.size_modify] at bound
    rw [Array.getElem_modify, ← owns.listed j bound]
    split
    · exact same _
    · rfl

theorem modify_child {β : Type} {records : Array β} {owner : β → Nat}
    (owns : Owns parents children (records.toList.map owner)) (change : β → β) (i : Nat)
    (same : ∀ record, owner (change record) = owner record) :
    Owns parents children ((records.modify i change).toList.map owner) := by
  rw [map_modify_eq same]
  exact owns

theorem push_child (owns : Owns parents children owners) {change : α → α} {i : Nat}
    (bound : i < parents.size)
    (added : ∀ parent, children (change parent) = children parent ++ [owners.length]) :
    Owns (parents.modify i change) children (owners ++ [i]) := by
  constructor
  · intro j member
    rw [Array.size_modify]
    rcases List.mem_append.mp member with old | new
    · exact owns.bounded j old
    · exact List.mem_singleton.mp new ▸ bound
  · intro j inside
    rw [Array.size_modify] at inside
    rw [Array.getElem_modify, positions_append, ← owns.listed j inside]
    split
    · rename_i same
      simp [added]
    · simp

variable (fallback : α)

theorem nodup (owns : Owns parents children owners) (childless : children fallback = []) (i : Nat) :
    (children (parents.getD i fallback)).Nodup := by
  by_cases bound : i < parents.size
  · rw [Array.getD_eq_getD_getElem?, Array.getElem?_eq_getElem bound, Option.getD_some,
      owns.listed i bound]
    exact positions_nodup i owners
  · rw [Array.getD_eq_getD_getElem?, Array.getElem?_eq_none (by omega), Option.getD_none, childless]
    exact List.nodup_nil

theorem owner (owns : Owns parents children owners) (childless : children fallback = [])
    {i j : Nat} (member : j ∈ children (parents.getD i fallback)) : owners[j]? = some i := by
  by_cases bound : i < parents.size
  · rw [Array.getD_eq_getD_getElem?, Array.getElem?_eq_getElem bound, Option.getD_some,
      owns.listed i bound] at member
    exact mem_positions.mp member
  · rw [Array.getD_eq_getD_getElem?, Array.getElem?_eq_none (by omega), Option.getD_none,
      childless] at member
    cases member

theorem parent {β : Type} {records : Array β} {owner : β → Nat}
    (owns : Owns parents children (records.toList.map owner)) (childless : children fallback = [])
    (other : β) {i j : Nat} (member : j ∈ children (parents.getD i fallback)) :
    owner (records.getD j other) = i := by
  have named := owns.owner fallback childless member
  simp only [List.getElem?_map, Option.map_eq_some_iff, Array.getElem?_toList] at named
  rcases named with ⟨record, found, same⟩
  rwa [Array.getD_eq_getD_getElem?, found, Option.getD_some]

end Owns

namespace TopicMap

structure Sound (map : TopicMap) : Prop where
  names : Owns map.topics (fun t => t.names.map NameId.index)
    (map.names.toList.map fun n => n.parent.index)
  occurrences : Owns map.topics (fun t => t.occurrences.map OccurrenceId.index)
    (map.occurrences.toList.map fun o => o.parent.index)
  variants : Owns map.names (fun n => n.variants.map VariantId.index)
    (map.variants.toList.map fun v => v.parent.index)
  roles : Owns map.associations (fun a => a.roles.map RoleId.index)
    (map.roles.toList.map fun r => r.parent.index)
  types : ∀ t ∈ map.topics, t.types.Nodup

end TopicMap

inductive BuildCall where
  | createTopic
  | topicAt (kind : LocatorKind) (iri : String)
  | addLocator (topic : TopicId) (kind : LocatorKind) (iri : String)
  | addType (topic type : TopicId)
  | createName (topic type : TopicId) (value : String) (scope : List TopicId)
  | createDefaultName (topic : TopicId) (value : String) (scope : List TopicId)
  | createVariant (name : NameId) (value datatype : String) (scope : List TopicId)
  | createOccurrence (topic type : TopicId) (value datatype : String) (scope : List TopicId)
  | createAssociation (type : TopicId) (scope : List TopicId)
  | createRole (association : AssociationId) (type player : TopicId)
  | setReifier (reified : Reifiable) (reifier : Option TopicId)
  | createTypeInstance (type instanceTopic : TopicId)
  | createSupertypeSubtype (supertype subtype : TopicId)
  deriving DecidableEq, Repr

namespace TopicMap

def HasTopic (map : TopicMap) (id : TopicId) : Prop := id.index < map.topics.size

def HasReifiable (map : TopicMap) : Reifiable → Prop
  | .topicMap => True
  | .name id => id.index < map.names.size
  | .variant id => id.index < map.variants.size
  | .occurrence id => id.index < map.occurrences.size
  | .association id => id.index < map.associations.size
  | .role id => id.index < map.roles.size

instance (map : TopicMap) (id : TopicId) : Decidable (map.HasTopic id) :=
  inferInstanceAs (Decidable (id.index < map.topics.size))

end TopicMap

namespace BuildCall

def apply (map : TopicMap) : BuildCall → TopicMap
  | createTopic => map.createTopic.1
  | topicAt kind iri => (map.topicAt kind iri).1
  | addLocator topic kind iri => map.addLocator topic kind iri
  | addType topic type => map.addType topic type
  | createName topic type value scope => (map.createName topic type value scope).1
  | createDefaultName topic value scope => (map.createDefaultName topic value scope).1
  | createVariant name value datatype scope => (map.createVariant name value datatype scope).1
  | createOccurrence topic type value datatype scope =>
    (map.createOccurrence topic type value datatype scope).1
  | createAssociation type scope => (map.createAssociation type scope).1
  | createRole association type player => (map.createRole association type player).1
  | setReifier reified reifier => map.setReifier reified reifier
  | createTypeInstance type instanceTopic => (map.createTypeInstance type instanceTopic).1
  | createSupertypeSubtype supertype subtype => (map.createSupertypeSubtype supertype subtype).1

def Valid (map : TopicMap) : BuildCall → Prop
  | createTopic | topicAt _ _ => True
  | addLocator topic _ _ => map.HasTopic topic
  | addType topic type => map.HasTopic topic ∧ map.HasTopic type
  | createName topic type _ scope =>
    map.HasTopic topic ∧ map.HasTopic type ∧ ∀ theme ∈ scope, map.HasTopic theme
  | createDefaultName topic _ scope =>
    map.HasTopic topic ∧ ∀ theme ∈ scope, map.HasTopic theme
  | createVariant name _ _ scope =>
    name.index < map.names.size ∧ ∀ theme ∈ scope, map.HasTopic theme
  | createOccurrence topic type _ _ scope =>
    map.HasTopic topic ∧ map.HasTopic type ∧ ∀ theme ∈ scope, map.HasTopic theme
  | createAssociation type scope => map.HasTopic type ∧ ∀ theme ∈ scope, map.HasTopic theme
  | createRole association type player =>
    association.index < map.associations.size ∧ map.HasTopic type ∧ map.HasTopic player
  | setReifier reified reifier =>
    map.HasReifiable reified ∧ ∀ topic ∈ reifier, map.HasTopic topic
  | createTypeInstance type instanceTopic => map.HasTopic type ∧ map.HasTopic instanceTopic
  | createSupertypeSubtype supertype subtype => map.HasTopic supertype ∧ map.HasTopic subtype

def AllValid : TopicMap → List BuildCall → Prop
  | _, [] => True
  | map, call :: calls => call.Valid map ∧ AllValid (call.apply map) calls

end BuildCall

/-- The maps made from the empty one by calls with arguments that earlier calls gave. -/
inductive TopicMap.Built : TopicMap → Prop where
  | empty : Built {}
  | call {map : TopicMap} (built : Built map) (call : BuildCall) (valid : call.Valid map) :
    Built (call.apply map)

namespace TopicMap

theorem Built.calls {map : TopicMap} (built : map.Built) {calls : List BuildCall}
    (valid : BuildCall.AllValid map calls) : (calls.foldl BuildCall.apply map).Built := by
  induction calls generalizing map with
  | nil => exact built
  | cons call calls ih => exact ih (.call built call valid.1) valid.2

namespace Sound

variable {map : TopicMap}

theorem empty : Sound {} where
  names := ⟨by simp, by simp⟩
  occurrences := ⟨by simp, by simp⟩
  variants := ⟨by simp, by simp⟩
  roles := ⟨by simp, by simp⟩
  types := by simp

theorem createTopic (sound : map.Sound) : map.createTopic.1.Sound :=
  { sound with
    names := sound.names.push_parent rfl
    occurrences := sound.occurrences.push_parent rfl
    types := by
      intro t member
      rcases Array.mem_push.mp member with old | rfl
      · exact sound.types t old
      · exact List.nodup_nil }

theorem modifyTopic (sound : map.Sound) (id : TopicId) (change : Topic → Topic)
    (names : ∀ t, (change t).names = t.names)
    (occurrences : ∀ t, (change t).occurrences = t.occurrences)
    (types : ∀ t, t.types.Nodup → (change t).types.Nodup) : (map.modifyTopic id change).Sound :=
  { sound with
    names := sound.names.modify_parent change id.index fun t => by simp only [names]
    occurrences := sound.occurrences.modify_parent change id.index fun t => by
      simp only [occurrences]
    types := forall_mem_modify change id.index sound.types types }

theorem addLocator (sound : map.Sound) (id : TopicId) (kind : LocatorKind) (iri : String) :
    (map.addLocator id kind iri).Sound := by
  apply sound.modifyTopic id
  · intro t
    cases kind <;> rfl
  · intro t
    cases kind <;> rfl
  · intro t distinct
    cases kind <;> exact distinct

theorem addType (sound : map.Sound) (id type : TopicId) : (map.addType id type).Sound :=
  sound.modifyTopic id _ (fun _ => rfl) (fun _ => rfl) fun _ distinct =>
    insertNew_nodup type distinct

theorem topicAt (sound : map.Sound) (kind : LocatorKind) (iri : String) :
    (map.topicAt kind iri).1.Sound := by
  rw [TopicMap.topicAt]
  split
  · exact sound
  · exact sound.createTopic.addLocator _ kind iri

theorem createName (sound : map.Sound) {topic : TopicId} (present : map.HasTopic topic)
    (type : TopicId) (value : String) (scope : List TopicId) :
    (map.createName topic type value scope).1.Sound where
  names := by
    simp only [TopicMap.createName, TopicMap.modifyTopic, Array.toList_push, List.map_append]
    exact sound.names.push_child present fun t => by simp
  occurrences := by
    simp only [TopicMap.createName, TopicMap.modifyTopic]
    exact sound.occurrences.modify_parent _ topic.index fun _ => rfl
  variants := sound.variants.push_parent rfl
  roles := sound.roles
  types := by
    simp only [TopicMap.createName, TopicMap.modifyTopic]
    exact forall_mem_modify _ topic.index sound.types fun _ distinct => distinct

theorem createOccurrence (sound : map.Sound) {topic : TopicId} (present : map.HasTopic topic)
    (type : TopicId) (value datatype : String) (scope : List TopicId) :
    (map.createOccurrence topic type value datatype scope).1.Sound where
  names := by
    simp only [TopicMap.createOccurrence, TopicMap.modifyTopic]
    exact sound.names.modify_parent _ topic.index fun _ => rfl
  occurrences := by
    simp only [TopicMap.createOccurrence, TopicMap.modifyTopic, Array.toList_push, List.map_append]
    exact sound.occurrences.push_child present fun t => by simp
  variants := sound.variants
  roles := sound.roles
  types := by
    simp only [TopicMap.createOccurrence, TopicMap.modifyTopic]
    exact forall_mem_modify _ topic.index sound.types fun _ distinct => distinct

theorem createVariant (sound : map.Sound) {name : NameId} (present : name.index < map.names.size)
    (value datatype : String) (scope : List TopicId) :
    (map.createVariant name value datatype scope).1.Sound where
  names := by
    simp only [TopicMap.createVariant]
    exact sound.names.modify_child _ name.index fun _ => rfl
  occurrences := sound.occurrences
  variants := by
    simp only [TopicMap.createVariant, Array.toList_push, List.map_append]
    exact sound.variants.push_child present fun n => by simp
  roles := sound.roles
  types := sound.types

theorem createAssociation (sound : map.Sound) (type : TopicId) (scope : List TopicId) :
    (map.createAssociation type scope).1.Sound :=
  { sound with roles := sound.roles.push_parent rfl }

theorem createRole (sound : map.Sound) {association : AssociationId}
    (present : association.index < map.associations.size) (type player : TopicId) :
    (map.createRole association type player).1.Sound :=
  { sound with
    roles := by
      simp only [TopicMap.createRole, Array.toList_push, List.map_append]
      exact sound.roles.push_child present fun a => by simp }

theorem setReifier (sound : map.Sound) (reified : Reifiable) (reifier : Option TopicId) :
    (map.setReifier reified reifier).Sound := by
  cases reified with
  | topicMap => exact { sound with }
  | name id =>
    exact {
      names := by
        simp only [TopicMap.setReifier]
        exact sound.names.modify_child _ id.index fun _ => rfl
      occurrences := sound.occurrences
      variants := by
        simp only [TopicMap.setReifier]
        exact sound.variants.modify_parent _ id.index fun _ => rfl
      roles := sound.roles
      types := sound.types }
  | variant id =>
    exact { sound with
      variants := by
        simp only [TopicMap.setReifier]
        exact sound.variants.modify_child _ id.index fun _ => rfl }
  | occurrence id =>
    exact { sound with
      occurrences := by
        simp only [TopicMap.setReifier]
        exact sound.occurrences.modify_child _ id.index fun _ => rfl }
  | association id =>
    exact { sound with
      roles := by
        simp only [TopicMap.setReifier]
        exact sound.roles.modify_parent _ id.index fun _ => rfl }
  | role id =>
    exact { sound with
      roles := by
        simp only [TopicMap.setReifier]
        exact sound.roles.modify_child _ id.index fun _ => rfl }

theorem createPair (sound : map.Sound) (type generalRole specificRole general specific : TopicId) :
    (((map.createAssociation type []).1.createRole ⟨map.associations.size⟩ generalRole general).1
      |>.createRole ⟨map.associations.size⟩ specificRole specific).1.Sound := by
  have first : ((map.createAssociation type []).1.createRole ⟨map.associations.size⟩ generalRole
      general).1.Sound :=
    (sound.createAssociation type []).createRole (by simp [TopicMap.createAssociation]) _ _
  exact first.createRole (by simp [TopicMap.createRole, TopicMap.createAssociation]) _ _

theorem createBinary (sound : map.Sound) (type generalRole specificRole : String)
    (general specific : TopicId) :
    (map.createBinary type generalRole specificRole general specific).1.Sound := by
  simp only [TopicMap.createBinary]
  have typed := sound.topicAt .subjectIdentifier type
  generalize map.topicAt .subjectIdentifier type = typeFound at typed ⊢
  have generalSound := typed.topicAt .subjectIdentifier generalRole
  generalize typeFound.1.topicAt .subjectIdentifier generalRole = generalFound at generalSound ⊢
  have specificSound := generalSound.topicAt .subjectIdentifier specificRole
  generalize generalFound.1.topicAt .subjectIdentifier specificRole = specificFound
    at specificSound ⊢
  exact specificSound.createPair typeFound.2 generalFound.2 specificFound.2 general specific

theorem call (sound : map.Sound) {call : BuildCall} (valid : call.Valid map) :
    (call.apply map).Sound := by
  cases call with
  | createTopic => exact sound.createTopic
  | topicAt kind iri => exact sound.topicAt kind iri
  | addLocator topic kind iri => exact sound.addLocator topic kind iri
  | addType topic type => exact sound.addType topic type
  | createName topic type value scope => exact sound.createName valid.1 type value scope
  | createDefaultName topic value scope =>
    have grown : map.topics.size ≤
        (map.topicAt .subjectIdentifier Iri.topicName).1.topics.size := by
      simp only [TopicMap.topicAt]
      split
      · exact Nat.le_refl _
      · simp [TopicMap.addLocator, TopicMap.modifyTopic, TopicMap.createTopic]
    exact (sound.topicAt _ _).createName (Nat.lt_of_lt_of_le valid.1 grown) _ value scope
  | createVariant name value datatype scope =>
    exact sound.createVariant valid.1 value datatype scope
  | createOccurrence topic type value datatype scope =>
    exact sound.createOccurrence valid.1 type value datatype scope
  | createAssociation type scope => exact sound.createAssociation type scope
  | createRole association type player => exact sound.createRole valid.1 type player
  | setReifier reified reifier => exact sound.setReifier reified reifier
  | createTypeInstance type instanceTopic => exact sound.createBinary _ _ _ type instanceTopic
  | createSupertypeSubtype supertype subtype => exact sound.createBinary _ _ _ supertype subtype

theorem names_nodup (sound : map.Sound) (id : TopicId) : (map.topic id).names.Nodup :=
  .of_map _ (sound.names.nodup default rfl id.index)

theorem occurrences_nodup (sound : map.Sound) (id : TopicId) : (map.topic id).occurrences.Nodup :=
  .of_map _ (sound.occurrences.nodup default rfl id.index)

theorem variants_nodup (sound : map.Sound) (id : NameId) : (map.name id).variants.Nodup :=
  .of_map _ (sound.variants.nodup default rfl id.index)

theorem roles_nodup (sound : map.Sound) (id : AssociationId) : (map.association id).roles.Nodup :=
  .of_map _ (sound.roles.nodup default rfl id.index)

theorem name_parent (sound : map.Sound) {topic : TopicId} {name : NameId}
    (member : name ∈ (map.topic topic).names) : (map.name name).parent = topic :=
  congrArg TopicId.mk
    (sound.names.parent default rfl default (List.mem_map.mpr ⟨name, member, rfl⟩))

theorem occurrence_parent (sound : map.Sound) {topic : TopicId} {occurrence : OccurrenceId}
    (member : occurrence ∈ (map.topic topic).occurrences) :
    (map.occurrence occurrence).parent = topic :=
  congrArg TopicId.mk
    (sound.occurrences.parent default rfl default (List.mem_map.mpr ⟨occurrence, member, rfl⟩))

theorem variant_parent (sound : map.Sound) {name : NameId} {variant : VariantId}
    (member : variant ∈ (map.name name).variants) : (map.variant variant).parent = name :=
  congrArg NameId.mk
    (sound.variants.parent default rfl default (List.mem_map.mpr ⟨variant, member, rfl⟩))

theorem role_parent (sound : map.Sound) {association : AssociationId} {role : RoleId}
    (member : role ∈ (map.association association).roles) :
    (map.role role).parent = association :=
  congrArg AssociationId.mk
    (sound.roles.parent default rfl default (List.mem_map.mpr ⟨role, member, rfl⟩))

end Sound

theorem Built.sound {map : TopicMap} (built : map.Built) : map.Sound := by
  induction built with
  | empty => exact Sound.empty
  | call _ call valid ih => exact ih.call valid

end TopicMap

def villageCalls : List BuildCall :=
  [.topicAt .subjectIdentifier "http://t.example/village", .createTopic,
    .createName ⟨0⟩ ⟨0⟩ "Village" [], .createVariant ⟨0⟩ "village" Iri.string [⟨0⟩],
    .createOccurrence ⟨0⟩ ⟨1⟩ "small" Iri.string [], .createAssociation ⟨0⟩ [],
    .createRole ⟨0⟩ ⟨0⟩ ⟨0⟩]

def village : TopicMap := villageCalls.foldl BuildCall.apply {}

theorem village_built : village.Built := by
  apply TopicMap.Built.calls .empty
  simp [villageCalls, BuildCall.AllValid, BuildCall.Valid, BuildCall.apply]
  decide

end CompactTopicMap
