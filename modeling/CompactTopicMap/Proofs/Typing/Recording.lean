import CompactTopicMap.Proofs.Integrity
import CompactTopicMap.Proofs.Typing.Decoding

/-! What is recorded as an association is a type or supertype from then on. -/

namespace CompactTopicMap

theorem modify_push {α : Type} (records : Array α) (record : α) (change : α → α) :
    (records.push record).modify records.size change = records.push (change record) := by
  apply Array.ext_getElem?
  intro i
  rw [Array.getElem?_modify, Array.getElem?_push, Array.getElem?_push]
  by_cases last : records.size = i
  · simp [last]
  · simp [last, Ne.symm last]

theorem Retains.getD_eq {α : Type} {old new : Array α} (retains : Retains Eq old new) {i : Nat}
    (present : i < old.size) (fallback : α) : new.getD i fallback = old.getD i fallback := by
  obtain ⟨_, found, rfl⟩ := retains _ _ (Array.getElem?_eq_getElem present)
  rw [Array.getD_eq_getD_getElem?, Array.getD_eq_getD_getElem?, found,
    Array.getElem?_eq_getElem present]

namespace ReservedPattern

def both : List ReservedPattern := [typeInstance, supertypeSubtype]

def addresses : List String :=
  both.flatMap fun pattern => [pattern.type, pattern.general, pattern.specific]

theorem mem_addresses {pattern : ReservedPattern} (known : pattern ∈ both) {iri : String}
    (own : iri ∈ [pattern.type, pattern.general, pattern.specific]) : iri ∈ addresses :=
  List.mem_flatMap.mpr ⟨pattern, known, own⟩

theorem general_ne_specific : ∀ pattern ∈ both, pattern.general ≠ pattern.specific := by
  decide +kernel

theorem eq_of_type : ∀ first ∈ both, ∀ second ∈ both, first.type = second.type → first = second := by
  decide +kernel

end ReservedPattern

namespace TopicMap

/-- The second map has the topics, associations and roles of the first one unchanged in their
places. -/
structure Appends (old new : TopicMap) : Prop where
  topics : Retains Eq old.topics new.topics
  associations : Retains Eq old.associations new.associations
  roles : Retains Eq old.roles new.roles

structure Closed (map : TopicMap) : Prop where
  type : ∀ id : AssociationId, id.index < map.associations.size →
    map.HasTopic (map.association id).type
  roles : ∀ id : AssociationId, ∀ role ∈ (map.association id).roles, role.index < map.roles.size

/-- No topic has two of the subject identifiers that are reserved for typing. Otherwise one topic
could stand for both roles, or for the types of both patterns. -/
def ReservedApart (map : TopicMap) : Prop :=
  ∀ t ∈ map.topics, ∀ a ∈ t.subjectIdentifiers, ∀ b ∈ t.subjectIdentifiers,
    a ∈ ReservedPattern.addresses → b ∈ ReservedPattern.addresses → a = b

instance (map : TopicMap) : Decidable map.ReservedApart :=
  inferInstanceAs (Decidable (∀ t ∈ map.topics, ∀ a ∈ t.subjectIdentifiers,
    ∀ b ∈ t.subjectIdentifiers, a ∈ ReservedPattern.addresses → b ∈ ReservedPattern.addresses → a = b))

theorem find?_eq_some_iff {map : TopicMap} {kind : LocatorKind} {iri : String} {id : TopicId} :
    map.find? kind iri = some id ↔
      map.HasTopic id ∧ iri ∈ (map.topic id).locators kind ∧
        ∀ i < id.index, iri ∉ (map.topic ⟨i⟩).locators kind := by
  rw [find?, topicIds, List.find?_map, Option.map_eq_some_iff]
  constructor
  · rintro ⟨i, found, rfl⟩
    obtain ⟨here, bound, before⟩ := List.find?_range_eq_some.mp found
    exact ⟨List.mem_range.mp bound, by simpa using here, by simpa using before⟩
  · rintro ⟨bound, here, before⟩
    refine ⟨id.index, List.find?_range_eq_some.mpr ⟨?_, List.mem_range.mpr bound, ?_⟩, rfl⟩
    · simpa using here
    · simpa using before

theorem find?_eq_none_iff {map : TopicMap} {kind : LocatorKind} {iri : String} :
    map.find? kind iri = none ↔
      ∀ i < map.topics.size, iri ∉ (map.topic ⟨i⟩).locators kind := by
  rw [find?, topicIds, List.find?_map, Option.map_eq_none_iff, List.find?_eq_none]
  simp

namespace Appends

variable {old new third : TopicMap}

theorem refl (map : TopicMap) : map.Appends map :=
  ⟨.refl (fun _ => rfl) _, .refl (fun _ => rfl) _, .refl (fun _ => rfl) _⟩

theorem trans (first : old.Appends new) (second : new.Appends third) : old.Appends third :=
  ⟨first.topics.trans second.topics Eq.trans, first.associations.trans second.associations Eq.trans,
    first.roles.trans second.roles Eq.trans⟩

theorem topic (appends : old.Appends new) {id : TopicId} (present : old.HasTopic id) :
    new.topic id = old.topic id :=
  appends.topics.getD_eq present default

theorem association (appends : old.Appends new) {id : AssociationId}
    (present : id.index < old.associations.size) : new.association id = old.association id :=
  appends.associations.getD_eq present default

theorem role (appends : old.Appends new) {id : RoleId} (present : id.index < old.roles.size) :
    new.role id = old.role id :=
  appends.roles.getD_eq present default

theorem find?_eq_some_iff (appends : old.Appends new) {kind : LocatorKind} {iri : String}
    {id : TopicId} (present : old.HasTopic id) :
    new.find? kind iri = some id ↔ old.find? kind iri = some id := by
  have earlier : ∀ i < id.index, new.topic ⟨i⟩ = old.topic ⟨i⟩ :=
    fun i below => appends.topic (Nat.lt_trans below present)
  have there : new.HasTopic id := Nat.lt_of_lt_of_le present appends.topics.size_le
  rw [TopicMap.find?_eq_some_iff, TopicMap.find?_eq_some_iff, appends.topic present]
  constructor
  · rintro ⟨_, here, before⟩
    exact ⟨present, here, fun i below => earlier i below ▸ before i below⟩
  · rintro ⟨_, here, before⟩
    exact ⟨there, here, fun i below => (earlier i below).symm ▸ before i below⟩

theorem find? (appends : old.Appends new) {kind : LocatorKind} {iri : String} {id : TopicId}
    (found : old.find? kind iri = some id) : new.find? kind iri = some id :=
  (appends.find?_eq_some_iff (TopicMap.find?_eq_some_iff.mp found).1).mpr found

end Appends

theorem ReservedApart.eq_of_find? {map : TopicMap} (apart : map.ReservedApart) {a b : String}
    {id : TopicId} (first : map.find? .subjectIdentifier a = some id)
    (second : map.find? .subjectIdentifier b = some id) (reserved : a ∈ ReservedPattern.addresses)
    (other : b ∈ ReservedPattern.addresses) : a = b := by
  obtain ⟨present, carries, _⟩ := find?_eq_some_iff.mp first
  obtain ⟨_, alsoCarries, _⟩ := find?_eq_some_iff.mp second
  have inside : map.topic id ∈ map.topics := by
    rw [topic, Array.getD_eq_getD_getElem?, Array.getElem?_eq_getElem present]
    exact Array.getElem_mem present
  exact apart _ inside a carries b alsoCarries reserved other

structure Finds (old new : TopicMap) (iri : String) (id : TopicId) : Prop where
  appends : old.Appends new
  associations : new.associations = old.associations
  roles : new.roles = old.roles
  found : new.find? .subjectIdentifier iri = some id
  apart : old.ReservedApart → new.ReservedApart

theorem topicAt_finds (map : TopicMap) (iri : String) :
    map.Finds (map.topicAt .subjectIdentifier iri).1 iri (map.topicAt .subjectIdentifier iri).2 := by
  rw [topicAt]
  split
  · rename_i id found
    exact ⟨.refl map, rfl, rfl, found, fun apart => apart⟩
  · rename_i missing
    have made : map.createTopic.1.addLocator map.createTopic.2 .subjectIdentifier iri =
        { map with topics := map.topics.push { subjectIdentifiers := [iri] } } := by
      simp only [createTopic, addLocator, modifyTopic, modify_push]
      rfl
    simp only [made]
    have appends : map.Appends
        { map with topics := map.topics.push { subjectIdentifiers := [iri] } } :=
      ⟨.push (fun _ => rfl) _ _, .refl (fun _ => rfl) _, .refl (fun _ => rfl) _⟩
    refine ⟨appends, rfl, rfl, find?_eq_some_iff.mpr ⟨?_, ?_, ?_⟩, ?_⟩
    · simp [HasTopic, createTopic]
    · simp [topic, createTopic, Topic.locators]
    · intro i below
      rw [appends.topic below]
      exact find?_eq_none_iff.mp missing i below
    · -- A new topic has one identifier and so cannot have two that are reserved.
      intro apart t member a carries b alsoCarries
      rcases Array.mem_push.mp member with earlier | rfl
      · exact apart t earlier a carries b alsoCarries
      · rw [List.mem_singleton.mp carries, List.mem_singleton.mp alsoCarries]
        exact fun _ _ => rfl

def pair (map : TopicMap) (type generalRole specificRole general specific : TopicId) : TopicMap :=
  { map with
    associations := map.associations.push
      { type, roles := [⟨map.roles.size⟩, ⟨map.roles.size + 1⟩], scope := [] }
    roles := (map.roles.push
      { parent := ⟨map.associations.size⟩, type := generalRole, player := general }).push
      { parent := ⟨map.associations.size⟩, type := specificRole, player := specific } }

theorem createPair_eq (map : TopicMap) (type generalRole specificRole general specific : TopicId) :
    (((map.createAssociation type []).1.createRole (map.createAssociation type []).2 generalRole
      general).1.createRole (map.createAssociation type []).2 specificRole specific).1 =
    map.pair type generalRole specificRole general specific := by
  simp only [createAssociation, createRole, modify_push, Array.size_push, List.nil_append,
    List.cons_append, pair]

theorem appends_pair (map : TopicMap) (type generalRole specificRole general specific : TopicId) :
    map.Appends (map.pair type generalRole specificRole general specific) :=
  ⟨.refl (fun _ => rfl) _, .push (fun _ => rfl) _ _,
    (Retains.push (fun _ => rfl) _ _).trans (.push (fun _ => rfl) _ _) Eq.trans⟩

/-- After a step that may have added topics, an association of the type of the pattern is added, with
one player in each of its roles. -/
structure Records (old new : TopicMap) (pattern : ReservedPattern)
    (type generalRole specificRole general specific : TopicId) : Prop where
  appends : old.Appends new
  apart : old.ReservedApart → new.ReservedApart
  typed : new.find? .subjectIdentifier pattern.type = some type
  asGeneral : new.find? .subjectIdentifier pattern.general = some generalRole
  asSpecific : new.find? .subjectIdentifier pattern.specific = some specificRole
  associations : new.associations =
    (old.pair type generalRole specificRole general specific).associations
  roles : new.roles = (old.pair type generalRole specificRole general specific).roles

theorem createBinary_records (map : TopicMap) (pattern : ReservedPattern)
    (general specific : TopicId) :
    (map.createBinary pattern.type pattern.general pattern.specific general specific).2 =
        ⟨map.associations.size⟩ ∧
      ∃ type generalRole specificRole, map.Records
        (map.createBinary pattern.type pattern.general pattern.specific general specific).1
        pattern type generalRole specificRole general specific := by
  simp only [createBinary, createPair_eq]
  have first := map.topicAt_finds pattern.type
  generalize map.topicAt .subjectIdentifier pattern.type = typeFound at first ⊢
  have second := typeFound.1.topicAt_finds pattern.general
  generalize typeFound.1.topicAt .subjectIdentifier pattern.general = generalFound at second ⊢
  have third := generalFound.1.topicAt_finds pattern.specific
  generalize generalFound.1.topicAt .subjectIdentifier pattern.specific = specificFound
    at third ⊢
  have associations : specificFound.1.associations = map.associations := by
    rw [third.associations, second.associations, first.associations]
  have roles : specificFound.1.roles = map.roles := by
    rw [third.roles, second.roles, first.roles]
  have found : map.Appends specificFound.1 :=
    (first.appends.trans second.appends).trans third.appends
  refine ⟨by simp only [createAssociation, associations],
    typeFound.2, generalFound.2, specificFound.2, ?_⟩
  constructor
  · exact found.trans (appends_pair _ _ _ _ _ _)
  · exact fun apart => third.apart (second.apart (first.apart apart))
  · exact third.appends.find? (second.appends.find? first.found)
  · exact third.appends.find? second.found
  · exact third.found
  · simp only [pair, associations, roles]
  · simp only [pair, associations, roles]

theorem createTypeInstance_records (map : TopicMap) (type instanceTopic : TopicId) :
    (map.createTypeInstance type instanceTopic).2 = ⟨map.associations.size⟩ ∧
      ∃ typeFound typeRole instanceRole, map.Records (map.createTypeInstance type instanceTopic).1
        .typeInstance typeFound typeRole instanceRole type instanceTopic :=
  map.createBinary_records .typeInstance type instanceTopic

theorem createSupertypeSubtype_records (map : TopicMap) (supertype subtype : TopicId) :
    (map.createSupertypeSubtype supertype subtype).2 = ⟨map.associations.size⟩ ∧
      ∃ typeFound supertypeRole subtypeRole,
        map.Records (map.createSupertypeSubtype supertype subtype).1
          .supertypeSubtype typeFound supertypeRole subtypeRole supertype subtype :=
  map.createBinary_records .supertypeSubtype supertype subtype

theorem Built.reaches {map : TopicMap} (built : map.Built) : Reaches {} map := by
  induction built with
  | empty => exact .refl
  | call _ call valid ih => exact ih.trans (BuildCall.apply_reaches valid)

theorem Built.closed {map : TopicMap} (built : map.Built) : map.Closed where
  type id present := by
    have inside : map.association id ∈ map.associations.toList := by
      rw [association, Array.getD_eq_getD_getElem?, Array.getElem?_eq_getElem present]
      exact Array.mem_toList_iff.mpr (Array.getElem_mem present)
    refine (built.reaches.intact built.sound).mentions _ ?_
    simp only [mentions, List.mem_append, List.mem_flatMap]
    exact .inl (.inr ⟨_, inside, List.mem_cons_self⟩)
  roles id role listed := by
    have owner := built.sound.roles.owner default rfl
      (List.mem_map.mpr ⟨role, listed, rfl⟩ : role.index ∈ _)
    have bound := (List.getElem?_eq_some_iff.mp owner).1
    simpa using bound

end TopicMap

namespace Source

variable {old new : TopicMap} {pattern : ReservedPattern} {id : AssociationId} {iri : String}

theorem topicIndicated?_source (map : TopicMap) (iri : String) :
    map.source.topicIndicated? iri = map.find? .subjectIdentifier iri :=
  rfl

/-- Where roles are counted, their types were found; so a type that is found for the first time after a
step does not change the roles of associations that met the pattern before it. -/
theorem Meets.found {source : Source} (meets : source.Meets pattern id) :
    (∃ type, source.topicIndicated? pattern.general = some type) ∧
      ∃ type, source.topicIndicated? pattern.specific = some type := by
  have exists_of_one : ∀ iri, (source.rolesOf id iri).length = 1 →
      ∃ type, source.topicIndicated? iri = some type := by
    intro iri one
    obtain ⟨role, only⟩ := List.length_eq_one_iff.mp one
    have listed : role ∈ source.rolesOf id iri := by simp [only]
    exact ⟨_, by simpa using (List.mem_filter.mp listed).2⟩
  exact ⟨exists_of_one _ meets.1, exists_of_one _ meets.2⟩

theorem association_eq (appends : old.Appends new) (present : id.index < old.associations.size) :
    new.source.association id = old.source.association id :=
  appends.association present

theorem role_eq (appends : old.Appends new) (closed : old.Closed) {role : RoleId}
    (listed : role ∈ (old.source.association id).roles) :
    new.source.role role = old.source.role role :=
  appends.role (closed.roles id role listed)

section Older

variable (appends : old.Appends new) (closed : old.Closed)
  (present : id.index < old.associations.size)
include appends closed present

theorem uses_iff : new.source.Uses pattern id ↔ old.source.Uses pattern id := by
  rw [Uses, Uses, association_eq appends present, topicIndicated?_source, topicIndicated?_source]
  exact appends.find?_eq_some_iff (closed.type id present)

theorem rolesOf_eq {type : TopicId} (found : old.source.topicIndicated? iri = some type) :
    new.source.rolesOf id iri = old.source.rolesOf id iri := by
  have stillFound : new.source.topicIndicated? iri = some type := by
    rw [topicIndicated?_source] at found ⊢
    exact appends.find? found
  rw [rolesOf, rolesOf, association_eq appends present, found, stillFound]
  apply List.filter_congr
  intro role listed
  rw [role_eq appends closed listed]

theorem players_eq {type : TopicId} (found : old.source.topicIndicated? iri = some type) :
    new.source.players id iri = old.source.players id iri := by
  rw [players, players, rolesOf_eq appends closed present found]
  apply List.map_congr_left
  intro role listed
  rw [role_eq appends closed (List.mem_filter.mp listed).1]

theorem isPlain_eq : new.source.isPlain (new.source.association id) =
    old.source.isPlain (old.source.association id) := by
  rw [isPlain, isPlain, association_eq appends present]
  congr 1
  rw [Bool.eq_iff_iff, List.all_eq_true, List.all_eq_true]
  refine forall₂_congr fun role listed => ?_
  rw [role_eq appends closed listed]

theorem meets_of_meets (meets : old.source.Meets pattern id) : new.source.Meets pattern id := by
  obtain ⟨⟨_, general⟩, _, specific⟩ := meets.found
  rw [Meets, rolesOf_eq appends closed present general,
    rolesOf_eq appends closed present specific]
  exact meets

theorem fact?_eq (meets : old.source.Meets pattern id) :
    new.source.fact? pattern id = old.source.fact? pattern id := by
  obtain ⟨⟨_, general⟩, _, specific⟩ := meets.found
  rw [fact?, fact?, players_eq appends closed present general,
    players_eq appends closed present specific, isPlain_eq appends closed present]

end Older

section Added

variable (appends : old.Appends new) (closed : old.Closed)
  (one : new.associations.size = old.associations.size + 1)

theorem index_lt_of_mem (listed : id ∈ old.source.associationIds) :
    id.index < old.associations.size := by
  obtain ⟨i, bound, rfl⟩ := List.mem_map.mp listed
  exact List.mem_range.mp bound

include one in
theorem associationIds_append : new.source.associationIds =
    old.source.associationIds ++ [⟨old.associations.size⟩] := by
  simp [TopicMap.source, TopicMap.associationIds, one, List.range_succ]

include appends closed one

theorem filter_uses_append : new.source.associationIds.filter (new.source.Uses pattern ·) =
    old.source.associationIds.filter (old.source.Uses pattern ·) ++
      if new.source.Uses pattern ⟨old.associations.size⟩ then [⟨old.associations.size⟩] else [] := by
  rw [associationIds_append one, List.filter_append, List.filter_singleton]
  congr 1
  · apply List.filter_congr
    intro id listed
    simp only [uses_iff appends closed (index_lt_of_mem listed)]
  · by_cases used : new.source.Uses pattern ⟨old.associations.size⟩ <;> simp [used]

theorem facts_append (all : old.source.AllMeet pattern) :
    new.source.facts pattern = old.source.facts pattern ++
      if new.source.Uses pattern ⟨old.associations.size⟩ then
        (new.source.fact? pattern ⟨old.associations.size⟩).toList
      else [] := by
  rw [facts, filter_uses_append appends closed one, List.filterMap_append, facts]
  congr 1
  · apply List.filterMap_congr
    intro id member
    obtain ⟨listed, uses⟩ := by simpa using member
    exact fact?_eq appends closed (index_lt_of_mem listed) (all id listed uses)
  · split
    · cases said : new.source.fact? pattern ⟨old.associations.size⟩ <;> simp [said]
    · rfl

theorem allMeet_append (all : old.source.AllMeet pattern)
    (last : new.source.Uses pattern ⟨old.associations.size⟩ →
      new.source.Meets pattern ⟨old.associations.size⟩) : new.source.AllMeet pattern := by
  intro id listed uses
  rw [associationIds_append one, List.mem_append, List.mem_singleton] at listed
  rcases listed with older | rfl
  · have bound := index_lt_of_mem older
    have met := all id older ((uses_iff appends closed bound).mp uses)
    exact meets_of_meets appends closed bound met
  · exact last uses

end Added

end Source

namespace TopicMap.Records

open Source

variable {old new : TopicMap} {pattern : ReservedPattern}
  {type generalRole specificRole general specific : TopicId}
  (records : old.Records new pattern type generalRole specificRole general specific)
include records

theorem size : new.associations.size = old.associations.size + 1 := by
  rw [records.associations]
  exact Array.size_push _

theorem association : new.source.association ⟨old.associations.size⟩ =
    { type, roles := [⟨old.roles.size⟩, ⟨old.roles.size + 1⟩], scope := [] } := by
  simp [source, Source.association, TopicMap.association, records.associations, pair]

theorem role_general : new.source.role ⟨old.roles.size⟩ =
    { parent := ⟨old.associations.size⟩, type := generalRole, player := general } := by
  have before : old.roles.size ≠ old.roles.size + 1 := by omega
  rw [source, Source.role, TopicMap.role, records.roles, pair, Array.getD_eq_getD_getElem?,
    Array.getElem?_push, Array.size_push, if_neg before, Array.getElem?_push, if_pos rfl,
    Option.getD_some]

theorem role_specific : new.source.role ⟨old.roles.size + 1⟩ =
    { parent := ⟨old.associations.size⟩, type := specificRole, player := specific } := by
  rw [source, Source.role, TopicMap.role, records.roles, pair, Array.getD_eq_getD_getElem?,
    Array.getElem?_push, if_pos (Array.size_push _).symm, Option.getD_some]

theorem uses : new.source.Uses pattern ⟨old.associations.size⟩ := by
  rw [Uses, records.association]
  exact records.typed

theorem not_uses (apart : old.ReservedApart) (known : pattern ∈ ReservedPattern.both)
    {other : ReservedPattern} (alsoKnown : other ∈ ReservedPattern.both) (differ : other ≠ pattern) :
    ¬new.source.Uses other ⟨old.associations.size⟩ := by
  intro uses
  rw [Uses, records.association] at uses
  have same := (records.apart apart).eq_of_find? uses records.typed
    (ReservedPattern.mem_addresses alsoKnown (by simp)) (ReservedPattern.mem_addresses known (by simp))
  exact differ (ReservedPattern.eq_of_type other alsoKnown pattern known same)

theorem rolesOf (apart : old.ReservedApart) (known : pattern ∈ ReservedPattern.both) :
    new.source.rolesOf ⟨old.associations.size⟩ pattern.general = [⟨old.roles.size⟩] ∧
      new.source.rolesOf ⟨old.associations.size⟩ pattern.specific = [⟨old.roles.size + 1⟩] := by
  have differ : generalRole ≠ specificRole := by
    rintro rfl
    have same := (records.apart apart).eq_of_find? records.asGeneral records.asSpecific
      (ReservedPattern.mem_addresses known (by simp)) (ReservedPattern.mem_addresses known (by simp))
    exact ReservedPattern.general_ne_specific pattern known same
  have asGeneral : new.source.topicIndicated? pattern.general = some generalRole := records.asGeneral
  have asSpecific : new.source.topicIndicated? pattern.specific = some specificRole :=
    records.asSpecific
  constructor
  · simp [Source.rolesOf, records.association, records.role_general, records.role_specific,
      asGeneral, differ]
  · simp [Source.rolesOf, records.association, records.role_general, records.role_specific,
      asSpecific, differ.symm]

theorem meets (apart : old.ReservedApart) (known : pattern ∈ ReservedPattern.both) :
    new.source.Meets pattern ⟨old.associations.size⟩ := by
  obtain ⟨generals, specifics⟩ := records.rolesOf apart known
  rw [Meets, generals, specifics]
  exact ⟨rfl, rfl⟩

theorem fact? (apart : old.ReservedApart) (known : pattern ∈ ReservedPattern.both) :
    new.source.fact? pattern ⟨old.associations.size⟩ =
      some ⟨⟨old.associations.size⟩, specific, general⟩ := by
  obtain ⟨generals, specifics⟩ := records.rolesOf apart known
  simp [Source.fact?, players, generals, specifics, isPlain, records.association,
    records.role_general, records.role_specific]

theorem facts (closed : old.Closed) (apart : old.ReservedApart)
    (known : pattern ∈ ReservedPattern.both) (all : old.source.AllMeet pattern) :
    new.source.AllMeet pattern ∧ new.source.facts pattern =
      old.source.facts pattern ++ [⟨⟨old.associations.size⟩, specific, general⟩] := by
  refine ⟨allMeet_append records.appends closed records.size all fun _ =>
    records.meets apart known, ?_⟩
  rw [facts_append records.appends closed records.size all, if_pos records.uses,
    records.fact? apart known]
  rfl

theorem facts_other (closed : old.Closed) (apart : old.ReservedApart)
    (known : pattern ∈ ReservedPattern.both) {other : ReservedPattern}
    (alsoKnown : other ∈ ReservedPattern.both) (differ : other ≠ pattern)
    (all : old.source.AllMeet other) :
    new.source.AllMeet other ∧ new.source.facts other = old.source.facts other := by
  have unused := records.not_uses apart known alsoKnown differ
  refine ⟨allMeet_append records.appends closed records.size all fun uses =>
    absurd uses unused, ?_⟩
  rw [facts_append records.appends closed records.size all, if_neg unused, List.append_nil]

end TopicMap.Records

namespace Typing

/-- One more association is folded. It gives the specific topic the general one, behind those that it
had; nothing else changes. -/
structure Gains (map : TopicMap) (reads keeps : Typing → TopicId → List TopicId)
    (old new : Typing) (added : AssociationId) (general specific : TopicId) : Prop where
  folded : new.isFolded added = true
  gained : reads new specific = insertNew (reads old specific) general
  others : ∀ topic, topic ≠ specific → reads new topic = reads old topic
  kept : ∀ topic, keeps new topic = keeps old topic
  older : ∀ id : AssociationId, id.index < map.associations.size →
    new.isFolded id = old.isFolded id

theorem generalsOf_concat (facts : List Fact) (fact : Fact) :
    generalsOf (facts ++ [fact]) fact.specific =
      insertNew (generalsOf facts fact.specific) fact.general := by
  rw [generalsOf, generalsOf, List.filter_append, List.map_append, ← firstSeen_concat]
  simp

theorem generalsOf_concat_of_ne (facts : List Fact) {fact : Fact} {topic : TopicId}
    (other : topic ≠ fact.specific) : generalsOf (facts ++ [fact]) topic = generalsOf facts topic := by
  rw [generalsOf, generalsOf, List.filter_append]
  simp [other.symm]

variable {map : TopicMap} {typing : Typing} {general specific : TopicId}

theorem ne_of_older {id : AssociationId} (present : id.index < map.associations.size) :
    (⟨map.associations.size⟩ : AssociationId) ≠ id := by
  rintro rfl
  exact Nat.lt_irrefl _ present

theorem gains_type : Gains map derivedTypes supertypesOf typing
    { typing with types := typing.types ++ [⟨⟨map.associations.size⟩, specific, general⟩] }
    ⟨map.associations.size⟩ general specific where
  folded := by simp [isFolded]
  gained := generalsOf_concat typing.types ⟨_, specific, general⟩
  others _ other := generalsOf_concat_of_ne typing.types other
  kept _ := rfl
  older id present := by
    simp [isFolded, ne_of_older present]

theorem gains_supertype : Gains map supertypesOf derivedTypes typing
    { typing with
      supertypes := typing.supertypes ++ [⟨⟨map.associations.size⟩, specific, general⟩] }
    ⟨map.associations.size⟩ general specific where
  folded := by simp [isFolded]
  gained := generalsOf_concat typing.supertypes ⟨_, specific, general⟩
  others _ other := generalsOf_concat_of_ne typing.supertypes other
  kept _ := rfl
  older id present := by
    simp [isFolded, ne_of_older present]

/-- A type or supertype that is recorded in a map that is accepted is a type or supertype from then
on, and typing is otherwise unchanged. -/
theorem recorded (built : map.Built) (apart : map.ReservedApart)
    (decoded : build map.source = .ok typing) (general specific : TopicId) :
    (∃ after, build (map.createTypeInstance general specific).1.source = .ok after ∧
      Gains map derivedTypes supertypesOf typing after
        (map.createTypeInstance general specific).2 general specific) ∧
    ∃ after, build (map.createSupertypeSubtype general specific).1.source = .ok after ∧
      Gains map supertypesOf derivedTypes typing after
        (map.createSupertypeSubtype general specific).2 general specific := by
  obtain ⟨types, supertypes, rfl⟩ := build_eq_ok_iff.mp decoded
  have knownType : ReservedPattern.typeInstance ∈ ReservedPattern.both := .head _
  have knownSupertype : ReservedPattern.supertypeSubtype ∈ ReservedPattern.both := .tail _ (.head _)
  have differ : ReservedPattern.typeInstance ≠ ReservedPattern.supertypeSubtype := by
    decide +kernel
  constructor
  · obtain ⟨handed, _, _, _, records⟩ := map.createTypeInstance_records general specific
    obtain ⟨allTypes, gained⟩ := records.facts built.closed apart knownType types
    obtain ⟨allSupertypes, kept⟩ :=
      records.facts_other built.closed apart knownType knownSupertype differ.symm supertypes
    refine ⟨_, build_eq_ok allTypes allSupertypes, ?_⟩
    rw [gained, kept, handed]
    exact gains_type
  · obtain ⟨handed, _, _, _, records⟩ := map.createSupertypeSubtype_records general specific
    obtain ⟨allSupertypes, gained⟩ := records.facts built.closed apart knownSupertype supertypes
    obtain ⟨allTypes, kept⟩ :=
      records.facts_other built.closed apart knownSupertype knownType differ types
    refine ⟨_, build_eq_ok allTypes allSupertypes, ?_⟩
    rw [gained, kept, handed]
    exact gains_supertype

theorem crew_built : crew.Built := by
  apply TopicMap.Built.calls .empty
  simp [crewCalls, BuildCall.AllValid, BuildCall.Valid, BuildCall.apply]
  decide +kernel

theorem crew_recorded :
    crew.Built ∧ crew.ReservedApart ∧ ∃ typing, build crew.source = .ok typing ∧
      typing.derivedTypes ⟨1⟩ = [⟨0⟩] ∧
      ∃ after, build (crew.createTypeInstance ⟨5⟩ ⟨1⟩).1.source = .ok after ∧
        after.derivedTypes ⟨1⟩ = [⟨0⟩, ⟨5⟩] ∧ after.isFolded ⟨2⟩ = true := by
  have apart : crew.ReservedApart := by decide +kernel
  have decoded : build crew.source = .ok ⟨[⟨⟨0⟩, ⟨1⟩, ⟨0⟩⟩], [⟨⟨1⟩, ⟨0⟩, ⟨5⟩⟩]⟩ := by rfl
  obtain ⟨⟨after, again, gains⟩, _⟩ := recorded crew_built apart decoded ⟨5⟩ ⟨1⟩
  refine ⟨crew_built, apart, _, decoded, by decide, after, again, ?_, gains.folded⟩
  rw [gains.gained]
  decide

end Typing
end CompactTopicMap
