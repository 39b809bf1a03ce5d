import CompactTopicMap.Proofs.Extension

namespace CompactTopicMap

section Listing

theorem positions_pairwise (item : Nat) (items : List Nat) :
    (positions item items).Pairwise (· < ·) := by
  have ascending : (items.zipIdx.map Prod.snd).Pairwise (· < ·) := by
    rw [List.zipIdx_map_snd]
    exact List.pairwise_lt_range'
  exact ascending.sublist (List.filter_sublist.map Prod.snd)

/-- Each record is listed by its owner, once, and by no other parent, in the order of creation. -/
structure Lists {α : Type} (parents : Array α) (children : α → List Nat) (owners : List Nat) :
    Prop where
  owned : ∀ i ∈ owners, i < parents.size
  once : ∀ i (bound : i < parents.size) j,
    (children parents[i]).count j = if owners[j]? = some i then 1 else 0
  ascending : ∀ i (bound : i < parents.size), (children parents[i]).Pairwise (· < ·)

theorem Owns.lists {α : Type} {parents : Array α} {children : α → List Nat} {owners : List Nat}
    (owns : Owns parents children owners) : Lists parents children owners where
  owned := owns.bounded
  once := by
    intro i bound j
    rw [owns.listed i bound]
    split
    · rename_i own
      exact List.count_eq_one_of_mem (positions_nodup i owners) (mem_positions.mpr own)
    · rename_i other
      exact List.count_eq_zero.mpr fun member => other (mem_positions.mp member)
  ascending := by
    intro i bound
    rw [owns.listed i bound]
    exact positions_pairwise i owners

end Listing

section Mentions

def Name.mentions (n : Name) : List TopicId := (n.parent :: n.type :: n.scope) ++ n.reifier.toList

def Variant.mentions (v : Variant) : List TopicId := v.scope ++ v.reifier.toList

def Occurrence.mentions (o : Occurrence) : List TopicId :=
  (o.parent :: o.type :: o.scope) ++ o.reifier.toList

def Association.mentions (a : Association) : List TopicId :=
  (a.type :: a.scope) ++ a.reifier.toList

def Role.mentions (r : Role) : List TopicId := [r.type, r.player] ++ r.reifier.toList

def TopicMap.mentions (map : TopicMap) : List TopicId :=
  map.reifier.toList ++ map.topics.toList.flatMap Topic.types ++
    map.names.toList.flatMap Name.mentions ++ map.variants.toList.flatMap Variant.mentions ++
    map.occurrences.toList.flatMap Occurrence.mentions ++
    map.associations.toList.flatMap Association.mentions ++ map.roles.toList.flatMap Role.mentions

def MentionsMore {α : Type} (more : List TopicId) (mentions : α → List TopicId)
    (old new : Array α) : Prop :=
  new.toList.flatMap mentions ⊆ old.toList.flatMap mentions ++ more

namespace MentionsMore

variable {α : Type} {more : List TopicId} {mentions : α → List TopicId}

theorem same (records : Array α) : MentionsMore more mentions records records :=
  List.subset_append_left _ _

theorem push {record : α} (added : mentions record ⊆ more) (records : Array α) :
    MentionsMore more mentions records (records.push record) := by
  rw [MentionsMore, Array.toList_push, List.flatMap_append, List.flatMap_singleton]
  refine List.append_subset.mpr ⟨List.subset_append_left _ _, ?_⟩
  exact List.Subset.trans added (List.subset_append_right _ _)

theorem modify {change : α → α} (added : ∀ record, mentions (change record) ⊆ mentions record ++ more)
    (records : Array α) (i : Nat) :
    MentionsMore more mentions records (records.modify i change) := by
  intro id member
  obtain ⟨record, inside, mentioned⟩ := List.mem_flatMap.mp member
  obtain ⟨j, bound, rfl⟩ := Array.mem_iff_getElem.mp (Array.mem_toList_iff.mp inside)
  rw [Array.size_modify] at bound
  have listed : records[j] ∈ records.toList := Array.mem_toList_iff.mpr (Array.getElem_mem bound)
  have old : ∀ {other}, other ∈ mentions records[j] → other ∈ records.toList.flatMap mentions ++ more :=
    fun own => List.mem_append_left _ (List.mem_flatMap.mpr ⟨_, listed, own⟩)
  rw [Array.getElem_modify] at mentioned
  split at mentioned
  · rcases List.mem_append.mp (added _ mentioned) with own | new
    · exact old own
    · exact List.mem_append_right _ new
  · exact old mentioned

end MentionsMore

namespace TopicMap

/-- A step after which a map mentions only topics of the list besides those it mentioned before. -/
structure AddsMentions (more : List TopicId) (old new : TopicMap) : Prop where
  reifier : new.reifier.toList ⊆ old.reifier.toList ++ more
  topics : MentionsMore more Topic.types old.topics new.topics
  names : MentionsMore more Name.mentions old.names new.names
  variants : MentionsMore more Variant.mentions old.variants new.variants
  occurrences : MentionsMore more Occurrence.mentions old.occurrences new.occurrences
  associations : MentionsMore more Association.mentions old.associations new.associations
  roles : MentionsMore more Role.mentions old.roles new.roles

theorem AddsMentions.same (more : List TopicId) (map : TopicMap) : map.AddsMentions more map where
  reifier := List.subset_append_left _ _
  topics := .same _
  names := .same _
  variants := .same _
  occurrences := .same _
  associations := .same _
  roles := .same _

end TopicMap

def BuildCall.topics : BuildCall → List TopicId
  | createTopic | topicAt _ _ => []
  | addLocator topic _ _ => [topic]
  | addType topic type => [topic, type]
  | createName topic type _ scope | createOccurrence topic type _ _ scope => topic :: type :: scope
  | createDefaultName topic _ scope => topic :: scope
  | createVariant _ _ _ scope => scope
  | createAssociation type scope => type :: scope
  | createRole _ type player => [type, player]
  | setReifier _ reifier => reifier.toList
  | createTypeInstance type instanceTopic => [type, instanceTopic]
  | createSupertypeSubtype supertype subtype => [supertype, subtype]

theorem BuildCall.Valid.hasTopic {map : TopicMap} {call : BuildCall} (valid : call.Valid map) :
    ∀ id ∈ call.topics, map.HasTopic id := by
  cases call <;> simp_all [Valid, topics]

theorem BuildCall.addsMentions (map : TopicMap) (call : BuildCall) (plain : call.isPlain) :
    map.AddsMentions call.topics (call.apply map) := by
  have same := TopicMap.AddsMentions.same call.topics map
  cases call with
  | createTopic => exact { same with topics := .push (List.nil_subset _) _ }
  | addLocator topic kind iri =>
    refine { same with topics := .modify (fun t => ?_) _ _ }
    cases kind <;> exact List.subset_append_left _ _
  | addType topic type =>
    refine { same with topics := .modify (fun t id member => ?_) _ _ }
    rcases mem_insertNew.mp member with old | rfl
    · exact List.mem_append_left _ old
    · simp [topics]
  | createName topic type value scope =>
    refine { same with topics := .modify (fun t => ?_) _ _, names := .push ?_ _ }
    · exact List.subset_append_left _ _
    · simp [Name.mentions, topics]
  | createVariant name value datatype scope =>
    refine { same with names := .modify (fun n => ?_) _ _, variants := .push ?_ _ }
    · exact List.subset_append_left _ _
    · simp [Variant.mentions, topics]
  | createOccurrence topic type value datatype scope =>
    refine { same with topics := .modify (fun t => ?_) _ _, occurrences := .push ?_ _ }
    · exact List.subset_append_left _ _
    · simp [Occurrence.mentions, topics]
  | createAssociation type scope =>
    exact { same with associations := .push (by simp [Association.mentions, topics]) _ }
  | createRole association type player =>
    refine { same with associations := .modify (fun a => ?_) _ _, roles := .push ?_ _ }
    · exact List.subset_append_left _ _
    · simp [Role.mentions, topics]
  | setReifier reified reifier =>
    have replaced : ∀ fixed old : List TopicId,
        fixed ++ reifier.toList ⊆ fixed ++ old ++ (setReifier reified reifier).topics := by
      intro fixed old
      have first : fixed ⊆ fixed ++ old := List.subset_append_left _ _
      refine List.append_subset.mpr ⟨?_, List.subset_append_right _ _⟩
      exact List.Subset.trans first (List.subset_append_left _ _)
    cases reified with
    | topicMap => exact { same with reifier := List.subset_append_right _ _ }
    | name => exact { same with names := .modify (fun n => by exact replaced _ _) _ _ }
    | variant => exact { same with variants := .modify (fun v => by exact replaced _ _) _ _ }
    | occurrence => exact { same with occurrences := .modify (fun o => by exact replaced _ _) _ _ }
    | association => exact { same with associations := .modify (fun a => by exact replaced _ _) _ _ }
    | role => exact { same with roles := .modify (fun r => by exact replaced _ _) _ _ }
  | topicAt | createDefaultName | createTypeInstance | createSupertypeSubtype => cases plain

theorem TopicMap.AddsMentions.subset {more : List TopicId} {old new : TopicMap}
    (adds : old.AddsMentions more new) : new.mentions ⊆ old.mentions ++ more := by
  have parts : ∀ {part whole : List TopicId} {id}, part ⊆ whole ++ more → id ∈ part →
      id ∈ whole ∨ id ∈ more := fun inside member => List.mem_append.mp (inside member)
  intro id member
  simp only [mentions, List.mem_append] at member ⊢
  rcases member with (((((reifier | topic) | name) | variant) | occurrence) | association) | role
  · have := parts adds.reifier reifier
    tauto
  · have := parts adds.topics topic
    tauto
  · have := parts adds.names name
    tauto
  · have := parts adds.variants variant
    tauto
  · have := parts adds.occurrences occurrence
    tauto
  · have := parts adds.associations association
    tauto
  · have := parts adds.roles role
    tauto

end Mentions

theorem BuildCall.locators_nodup {map : TopicMap} (call : BuildCall) (plain : call.isPlain)
    (old : ∀ t ∈ map.topics, ∀ kind, (t.locators kind).Nodup) :
    ∀ t ∈ (call.apply map).topics, ∀ kind, (t.locators kind).Nodup := by
  have kept : ∀ (change : Topic → Topic) (i : Nat),
      (∀ t kind, (change t).locators kind = t.locators kind) →
        ∀ t ∈ map.topics.modify i change, ∀ kind, (t.locators kind).Nodup := by
    intro change i same
    exact forall_mem_modify change i old fun t distinct kind => same t kind ▸ distinct kind
  cases call with
  | createTopic =>
    intro t member kind
    rcases Array.mem_push.mp member with earlier | rfl
    · exact old t earlier kind
    · cases kind <;> exact List.nodup_nil
  | addLocator topic kind iri =>
    refine forall_mem_modify (·.addLocator kind iri) topic.index old fun t distinct other => ?_
    rw [Topic.locators_addLocator]
    split
    · exact insertNew_nodup iri (distinct kind)
    · exact distinct other
  | addType topic type =>
    refine kept (·.addType type) topic.index fun t kind => ?_
    cases kind <;> rfl
  | createName topic =>
    refine kept (fun t => { t with names := t.names ++ [_] }) topic.index fun t kind => ?_
    cases kind <;> rfl
  | createOccurrence topic =>
    refine kept (fun t => { t with occurrences := t.occurrences ++ [_] }) topic.index
      fun t kind => ?_
    cases kind <;> rfl
  | createVariant | createAssociation | createRole => exact old
  | setReifier reified => cases reified <;> exact old
  | topicAt | createDefaultName | createTypeInstance | createSupertypeSubtype => cases plain

namespace TopicMap

/-- The lists of the map agree with the parents of its records, are in order of creation and without
repetition, and all topics that stand anywhere are there. -/
structure Intact (map : TopicMap) : Prop where
  names : Lists map.topics (fun t => t.names.map NameId.index)
    (map.names.toList.map fun n => n.parent.index)
  occurrences : Lists map.topics (fun t => t.occurrences.map OccurrenceId.index)
    (map.occurrences.toList.map fun o => o.parent.index)
  variants : Lists map.names (fun n => n.variants.map VariantId.index)
    (map.variants.toList.map fun v => v.parent.index)
  roles : Lists map.associations (fun a => a.roles.map RoleId.index)
    (map.roles.toList.map fun r => r.parent.index)
  mentions : ∀ id ∈ map.mentions, map.HasTopic id
  locators : ∀ t ∈ map.topics, ∀ kind, (t.locators kind).Nodup
  types : ∀ t ∈ map.topics, t.types.Nodup

theorem Reaches.hasTopic {first second : TopicMap} (reaches : first.Reaches second)
    (old : ∀ id ∈ first.mentions, first.HasTopic id) :
    ∀ id ∈ second.mentions, second.HasTopic id := by
  induction reaches with
  | refl => exact old
  | @step map earlier call plain valid ih =>
    intro id member
    have grown := BuildCall.extends_of_isPlain map call plain
    rcases List.mem_append.mp ((BuildCall.addsMentions map call plain).subset member) with before | new
    · exact grown.hasTopic (ih id before)
    · exact grown.hasTopic (valid.hasTopic id new)

theorem Reaches.locators_nodup {first second : TopicMap} (reaches : first.Reaches second)
    (old : ∀ t ∈ first.topics, ∀ kind, (t.locators kind).Nodup) :
    ∀ t ∈ second.topics, ∀ kind, (t.locators kind).Nodup := by
  induction reaches with
  | refl => exact old
  | step _ call plain _ ih => exact call.locators_nodup plain ih

theorem Reaches.intact {map : TopicMap} (reaches : Reaches {} map) (sound : map.Sound) :
    map.Intact where
  names := sound.names.lists
  occurrences := sound.occurrences.lists
  variants := sound.variants.lists
  roles := sound.roles.lists
  mentions := reaches.hasTopic (by simp [TopicMap.mentions])
  locators := reaches.locators_nodup (by simp)
  types := sound.types

end TopicMap

inductive Handle where
  | topic (id : TopicId)
  | part (reified : Reifiable)
  deriving DecidableEq, Repr

def TopicMap.Has (map : TopicMap) : Handle → Prop
  | .topic id => map.HasTopic id
  | .part reified => map.HasReifiable reified

theorem TopicMap.Extends.has {old new : TopicMap} (grown : old.Extends new) {handle : Handle}
    (present : old.Has handle) : new.Has handle := by
  cases handle with
  | topic id => exact grown.hasTopic present
  | part reified => exact grown.hasReifiable present

namespace BuildCall

def handle? (map : TopicMap) : BuildCall → Option Handle
  | createTopic => some (.topic map.createTopic.2)
  | topicAt kind iri => some (.topic (map.topicAt kind iri).2)
  | addLocator _ _ _ | addType _ _ | setReifier _ _ => none
  | createName topic type value scope =>
    some (.part (.name (map.createName topic type value scope).2))
  | createDefaultName topic value scope =>
    some (.part (.name (map.createDefaultName topic value scope).2))
  | createVariant name value datatype scope =>
    some (.part (.variant (map.createVariant name value datatype scope).2))
  | createOccurrence topic type value datatype scope =>
    some (.part (.occurrence (map.createOccurrence topic type value datatype scope).2))
  | createAssociation type scope => some (.part (.association (map.createAssociation type scope).2))
  | createRole association type player =>
    some (.part (.role (map.createRole association type player).2))
  | createTypeInstance type instanceTopic =>
    some (.part (.association (map.createTypeInstance type instanceTopic).2))
  | createSupertypeSubtype supertype subtype =>
    some (.part (.association (map.createSupertypeSubtype supertype subtype).2))

theorem has_handle (map : TopicMap) (call : BuildCall) :
    ∀ handle ∈ call.handle? map, (call.apply map).Has handle := by
  intro handle handed
  cases call with
  | topicAt kind iri =>
    obtain rfl := Option.some.inj handed
    exact (map.topicAt_reaches kind iri).2
  | addLocator | addType | setReifier => cases handed
  | createTopic | createName | createDefaultName | createVariant | createOccurrence
  | createAssociation | createRole =>
    obtain rfl := Option.some.inj handed
    exact Nat.lt_of_lt_of_eq (Nat.lt_succ_self _) (Array.size_push _).symm
  | createTypeInstance | createSupertypeSubtype =>
    obtain rfl := Option.some.inj handed
    simp [TopicMap.Has, TopicMap.HasReifiable, apply, TopicMap.createTypeInstance,
      TopicMap.createSupertypeSubtype, TopicMap.createBinary, TopicMap.createRole,
      TopicMap.createAssociation]

theorem allValid_append {map : TopicMap} {earlier later : List BuildCall} :
    AllValid map (earlier ++ later) ↔
      AllValid map earlier ∧ AllValid (earlier.foldl apply map) later := by
  induction earlier generalizing map with
  | nil => simp [AllValid]
  | cons call calls ih => simp [AllValid, ih, and_assoc]

theorem foldl_reaches {map : TopicMap} {calls : List BuildCall} (valid : AllValid map calls) :
    map.Reaches (calls.foldl apply map) := by
  induction calls generalizing map with
  | nil => exact .refl
  | cons call calls ih => exact (apply_reaches valid.1).trans (ih valid.2)

def run (calls : List BuildCall) : TopicMap := calls.foldl apply {}

theorem run_append (earlier later : List BuildCall) :
    run (earlier ++ later) = later.foldl apply (run earlier) :=
  List.foldl_append

/-- A map made by calls whose arguments were there is intact; each of the calls left all records and
lists that were there before it, and what it handed out is there since. -/
theorem run_intact {calls : List BuildCall} (valid : AllValid {} calls) :
    (run calls).Intact ∧
      (∀ earlier later, earlier <+: later → later <+: calls → (run earlier).Extends (run later)) ∧
      ∀ earlier call, earlier ++ [call] <+: calls →
        ∀ handle ∈ call.handle? (run earlier), (run calls).Has handle := by
  have grown : ∀ earlier later, earlier <+: later → later <+: calls →
      (run earlier).Extends (run later) := by
    rintro earlier _ ⟨between, rfl⟩ ⟨rest, rfl⟩
    have until_later := (allValid_append.mp valid).1
    rw [run_append]
    exact (foldl_reaches (allValid_append.mp until_later).2).grown
  refine ⟨?_, grown, ?_⟩
  · exact (foldl_reaches valid).intact (TopicMap.Built.calls .empty valid).sound
  · intro earlier call before handle handed
    have stays := grown _ calls before List.prefix_rfl
    rw [run_append] at stays
    exact stays.has (has_handle (run earlier) call handle handed)

theorem village_intact :
    AllValid {} villageCalls ∧ (run villageCalls).Intact ∧
      (run villageCalls).Has (.part (.variant ⟨0⟩)) := by
  have valid : AllValid {} villageCalls := by
    simp [villageCalls, AllValid, Valid, apply]
    decide
  obtain ⟨intact, _, handed⟩ := run_intact valid
  refine ⟨valid, intact, ?_⟩
  exact handed (villageCalls.take 3) _ (List.take_prefix 4 villageCalls) _ rfl

end BuildCall
end CompactTopicMap
