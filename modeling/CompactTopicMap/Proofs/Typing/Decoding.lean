import CompactTopicMap.Proofs.Built
import CompactTopicMap.Typing

namespace CompactTopicMap

namespace Source

/-- The roles of an association whose type the address indicates; if it indicates no topic, there are
none. -/
def rolesOf (source : Source) (id : AssociationId) (iri : String) : List RoleId :=
  (source.association id).roles.filter fun role =>
    source.topicIndicated? iri = some (source.role role).type

def players (source : Source) (id : AssociationId) (iri : String) : List TopicId :=
  (source.rolesOf id iri).map fun role => (source.role role).player

def Uses (source : Source) (pattern : ReservedPattern) (id : AssociationId) : Prop :=
  source.topicIndicated? pattern.type = some (source.association id).type

def Meets (source : Source) (pattern : ReservedPattern) (id : AssociationId) : Prop :=
  (source.rolesOf id pattern.general).length = 1 ∧ (source.rolesOf id pattern.specific).length = 1

/-- The association is of the type of the pattern and says nothing but who its two players are. -/
structure Folds (source : Source) (pattern : ReservedPattern) (id : AssociationId) : Prop where
  uses : source.Uses pattern id
  roles : (source.association id).roles.length = 2
  scope : (source.association id).scope = []
  reifier : (source.association id).reifier = none
  unreified : ∀ role ∈ (source.association id).roles, (source.role role).reifier = none

def AllMeet (source : Source) (pattern : ReservedPattern) : Prop :=
  ∀ id ∈ source.associationIds, source.Uses pattern id → source.Meets pattern id

variable {source : Source} {pattern : ReservedPattern} {id : AssociationId} {role : String}

instance : Decidable (source.Uses pattern id) :=
  inferInstanceAs (Decidable (source.topicIndicated? pattern.type = some _))

instance : Decidable (source.Meets pattern id) := inferInstanceAs (Decidable (_ ∧ _))

instance : Decidable (source.AllMeet pattern) :=
  inferInstanceAs (Decidable (∀ id ∈ source.associationIds, source.Uses pattern id → _))

theorem folds_iff :
    source.Folds pattern id ↔
      source.Uses pattern id ∧ source.isPlain (source.association id) = true := by
  simp only [isPlain, Bool.and_eq_true, List.isEmpty_iff, Option.isNone_iff_eq_none,
    decide_eq_true_eq, List.all_eq_true]
  constructor
  · rintro ⟨uses, roles, scope, reifier, unreified⟩
    exact ⟨uses, ⟨⟨scope, reifier⟩, roles⟩, unreified⟩
  · rintro ⟨uses, ⟨⟨scope, reifier⟩, roles⟩, unreified⟩
    exact ⟨uses, roles, scope, reifier, unreified⟩

instance : Decidable (source.Folds pattern id) := decidable_of_iff _ folds_iff.symm

/-- The general players of the folded associations in which the topic is the specific player. -/
def generals (source : Source) (pattern : ReservedPattern) (topic : TopicId) : List TopicId :=
  (source.associationIds.filter fun id =>
    source.Folds pattern id ∧ topic ∈ source.players id pattern.specific).flatMap fun id =>
      source.players id pattern.general

/-- The first association of the type that does not have one player in each role, and the first of
the two roles that it does not have once. -/
structure FirstFault (source : Source) (pattern : ReservedPattern) (id : AssociationId)
    (role : String) : Prop where
  association : source.associationIds.find?
    (fun id => source.Uses pattern id ∧ ¬source.Meets pattern id) = some id
  role : [pattern.general, pattern.specific].find?
    (fun iri => (source.rolesOf id iri).length ≠ 1) = some role

def fact? (source : Source) (pattern : ReservedPattern) (id : AssociationId) : Option Fact :=
  match source.players id pattern.general, source.players id pattern.specific with
  | [general], [specific] =>
    if source.isPlain (source.association id) then some ⟨id, specific, general⟩ else none
  | _, _ => none

def facts (source : Source) (pattern : ReservedPattern) : List Fact :=
  (source.associationIds.filter (source.Uses pattern ·)).filterMap (source.fact? pattern)

theorem playersOf_eq (id : AssociationId) (iri : String) :
    source.playersOf (source.association id) (source.topicIndicated? iri) =
      source.players id iri := by
  simp only [playersOf, players, rolesOf, List.filter_map, List.map_map, Function.comp_def,
    eq_comm (b := source.topicIndicated? iri)]

theorem length_players (id : AssociationId) (iri : String) :
    (source.players id iri).length = (source.rolesOf id iri).length :=
  List.length_map _

theorem Meets.players (meets : source.Meets pattern id) :
    ∃ general specific, source.players id pattern.general = [general] ∧
      source.players id pattern.specific = [specific] := by
  obtain ⟨general, one⟩ := List.length_eq_one_iff.mp ((length_players _ _).trans meets.1)
  obtain ⟨specific, other⟩ := List.length_eq_one_iff.mp ((length_players _ _).trans meets.2)
  exact ⟨general, specific, one, other⟩

theorem exists_firstFault (fails : ¬source.AllMeet pattern) :
    ∃ id role, source.FirstFault pattern id role := by
  cases first : source.associationIds.find?
      (fun id => source.Uses pattern id ∧ ¬source.Meets pattern id) with
  | none =>
    refine absurd (fun id member uses => ?_) fails
    simpa [uses] using List.find?_eq_none.mp first id member
  | some id =>
    obtain ⟨_, misses⟩ := by simpa using List.find?_some first
    cases faulty : [pattern.general, pattern.specific].find?
        (fun iri => (source.rolesOf id iri).length ≠ 1) with
    | none =>
      have both := List.find?_eq_none.mp faulty
      exact absurd ⟨by simpa using both pattern.general (by simp),
        by simpa using both pattern.specific (by simp)⟩ misses
    | some role => exact ⟨id, role, first, faulty⟩

end Source

section Results

variable {α β ε : Type} {f : α → Except ε β} {items : List α}

theorem mapM_eq_ok {g : α → β} (each : ∀ item ∈ items, f item = .ok (g item)) :
    items.mapM f = .ok (items.map g) := by
  induction items with
  | nil => rfl
  | cons item items ih =>
    rw [List.mapM_cons, each item List.mem_cons_self,
      ih fun other member => each other (List.mem_cons_of_mem item member)]
    rfl

theorem mapM_eq_error {bad : α → Bool} {item : α} {e : ε}
    (good : ∀ item ∈ items, bad item = false → ∃ result, f item = .ok result)
    (first : items.find? bad = some item) (fails : f item = .error e) :
    items.mapM f = .error e := by
  induction items with
  | nil => cases first
  | cons next items ih =>
    rw [List.mapM_cons]
    cases here : bad next with
    | true =>
      rw [List.find?_cons_of_pos here] at first
      obtain rfl := Option.some.inj first
      rw [fails]
      rfl
    | false =>
      rw [List.find?_cons_of_neg (by simp [here])] at first
      obtain ⟨result, done⟩ := good next List.mem_cons_self here
      rw [done, ih (fun other member => good other (List.mem_cons_of_mem next member)) first]
      rfl

end Results

namespace Typing

open Source

variable {source : Source} {pattern : ReservedPattern} {id : AssociationId} {role : String}

theorem fact_of_meets (meets : source.Meets pattern id) :
    fact source pattern (source.topicIndicated? pattern.general)
      (source.topicIndicated? pattern.specific) id = .ok (source.fact? pattern id) := by
  obtain ⟨general, specific, one, other⟩ := meets.players
  simp only [fact, playersOf_eq, fact?, one, other]

theorem fact_of_faulty (faulty : [pattern.general, pattern.specific].find?
      (fun iri => (source.rolesOf id iri).length ≠ 1) = some role) :
    fact source pattern (source.topicIndicated? pattern.general)
        (source.topicIndicated? pattern.specific) id =
      .error (.structuralConstraint id pattern.type role (source.rolesOf id role).length) := by
  simp only [fact, playersOf_eq, ← length_players] at faulty ⊢
  by_cases one : (source.players id pattern.general).length = 1
  · obtain ⟨general, found⟩ := List.length_eq_one_iff.mp one
    have misses : (source.players id pattern.specific).length ≠ 1 ∧ pattern.specific = role := by
      simpa [one] using faulty
    obtain ⟨misses, rfl⟩ := misses
    rw [found]
    split
    · rename_i same
      simp [same] at misses
    · rfl
    · rename_i other _
      exact absurd rfl (other general)
  · obtain rfl : pattern.general = role := by simpa [one] using faulty
    split
    · rename_i same _
      simp [same] at one
    · rename_i same _
      simp [same] at one
    · rfl

theorem associationsOfType_eq {type : TopicId} (found : source.topicIndicated? pattern.type = some type) :
    source.associationsOfType type = source.associationIds.filter (source.Uses pattern ·) := by
  simp only [associationsOfType, Uses, found, Option.some.injEq, eq_comm (a := type)]

theorem facts_of_missing (missing : source.topicIndicated? pattern.type = none) :
    source.associationIds.filter (source.Uses pattern ·) = [] := by
  simp [Uses, missing]

theorem facts_eq_ok (all : source.AllMeet pattern) :
    facts source pattern = .ok (source.facts pattern) := by
  rw [facts, Source.facts]
  cases found : source.topicIndicated? pattern.type with
  | none => rw [facts_of_missing found]; rfl
  | some type =>
    have each : ∀ id ∈ source.associationIds.filter (source.Uses pattern ·),
        fact source pattern (source.topicIndicated? pattern.general)
          (source.topicIndicated? pattern.specific) id = .ok (source.fact? pattern id) := by
      intro id member
      obtain ⟨listed, uses⟩ := by simpa using member
      exact fact_of_meets (all id listed uses)
    simp only [associationsOfType_eq found, mapM_eq_ok each]
    exact congrArg Except.ok List.filterMap_map

theorem facts_eq_error (fault : source.FirstFault pattern id role) :
    facts source pattern =
      .error (.structuralConstraint id pattern.type role (source.rolesOf id role).length) := by
  have found : source.topicIndicated? pattern.type = some (source.association id).type :=
    (by simpa using List.find?_some fault.association : source.Uses pattern id ∧ _).1
  have first : (source.associationIds.filter (source.Uses pattern ·)).find?
      (fun id => ¬source.Meets pattern id) = some id := by
    rw [List.find?_filter]
    simpa using fault.association
  have good : ∀ other ∈ source.associationIds.filter (source.Uses pattern ·),
      decide (¬source.Meets pattern other) = false → ∃ result,
        fact source pattern (source.topicIndicated? pattern.general)
          (source.topicIndicated? pattern.specific) other = .ok result :=
    fun other _ meets => ⟨_, fact_of_meets (by simpa using meets)⟩
  have failed := mapM_eq_error good first (fact_of_faulty fault.role)
  rw [facts]
  simp only [found, associationsOfType_eq found, failed]
  rfl

theorem build_eq_ok (types : source.AllMeet .typeInstance)
    (supertypes : source.AllMeet .supertypeSubtype) :
    build source = .ok ⟨source.facts .typeInstance, source.facts .supertypeSubtype⟩ := by
  rw [build, facts_eq_ok types, facts_eq_ok supertypes]
  rfl

theorem build_of_fault (fault : source.FirstFault pattern id role)
    (earlier : pattern = .typeInstance ∨
      pattern = .supertypeSubtype ∧ source.AllMeet .typeInstance) :
    build source =
      .error (.structuralConstraint id pattern.type role (source.rolesOf id role).length) := by
  rcases earlier with rfl | ⟨rfl, types⟩
  · rw [build, facts_eq_error fault]
    rfl
  · rw [build, facts_eq_ok types, facts_eq_error fault]
    rfl

theorem allMeet_or_fault (source : Source) :
    (source.AllMeet .typeInstance ∧ source.AllMeet .supertypeSubtype) ∨
      ∃ pattern id role, source.FirstFault pattern id role ∧
        (pattern = .typeInstance ∨ pattern = .supertypeSubtype ∧ source.AllMeet .typeInstance) := by
  by_cases types : source.AllMeet .typeInstance
  · by_cases supertypes : source.AllMeet .supertypeSubtype
    · exact .inl ⟨types, supertypes⟩
    · obtain ⟨id, role, fault⟩ := exists_firstFault supertypes
      exact .inr ⟨_, id, role, fault, .inr ⟨rfl, types⟩⟩
  · obtain ⟨id, role, fault⟩ := exists_firstFault types
    exact .inr ⟨_, id, role, fault, .inl rfl⟩

theorem build_eq_ok_iff {typing : Typing} :
    build source = .ok typing ↔
      source.AllMeet .typeInstance ∧ source.AllMeet .supertypeSubtype ∧
        typing = ⟨source.facts .typeInstance, source.facts .supertypeSubtype⟩ := by
  constructor
  · intro built
    rcases allMeet_or_fault source with ⟨types, supertypes⟩ | ⟨_, _, _, fault, earlier⟩
    · rw [build_eq_ok types supertypes] at built
      exact ⟨types, supertypes, (Except.ok.inj built).symm⟩
    · rw [build_of_fault fault earlier] at built
      cases built
  · rintro ⟨types, supertypes, rfl⟩
    exact build_eq_ok types supertypes

theorem exists_mem_facts (all : source.AllMeet pattern) :
    (∃ fact ∈ source.facts pattern, fact.association = id) ↔
      id ∈ source.associationIds ∧ source.Folds pattern id := by
  constructor
  · rintro ⟨fact, member, rfl⟩
    obtain ⟨other, inside, said⟩ := List.mem_filterMap.mp member
    obtain ⟨listed, uses⟩ := by simpa using inside
    obtain ⟨general, specific, one, two⟩ := (all other listed uses).players
    simp only [fact?, one, two, Option.ite_none_right_eq_some, Option.some.injEq] at said
    obtain ⟨plain, rfl⟩ := said
    exact ⟨listed, folds_iff.mpr ⟨uses, plain⟩⟩
  · rintro ⟨listed, folds⟩
    obtain ⟨uses, plain⟩ := folds_iff.mp folds
    obtain ⟨general, specific, one, two⟩ := (all id listed uses).players
    refine ⟨⟨id, specific, general⟩, List.mem_filterMap.mpr ⟨id, by simp [listed, uses], ?_⟩, rfl⟩
    simp only [fact?, one, two, plain, if_true]

theorem map_general_facts (all : source.AllMeet pattern) (topic : TopicId) :
    ((source.facts pattern).filter (·.specific = topic)).map Fact.general =
      source.generals pattern topic := by
  rw [Source.facts, Source.generals]
  rw [AllMeet] at all
  generalize source.associationIds = ids at all ⊢
  induction ids with
  | nil => rfl
  | cons id ids ih =>
    have rest := ih fun other member => all other (List.mem_cons_of_mem id member)
    by_cases uses : source.Uses pattern id
    · obtain ⟨general, specific, one, two⟩ := (all id List.mem_cons_self uses).players
      by_cases plain : source.isPlain (source.association id) = true
      · by_cases same : specific = topic
        · simp [folds_iff, fact?, uses, one, two, plain, same, rest]
        · simp [folds_iff, fact?, uses, one, two, plain, same, Ne.symm same, rest]
      · simp [folds_iff, fact?, uses, one, two, plain, rest]
    · simp [folds_iff, uses, rest]

/-- The associations that are folded, and what they say of each topic in the order of the source. -/
structure Decodes (source : Source) (typing : Typing) : Prop where
  folded : ∀ id, typing.isFolded id = true ↔
    id ∈ source.associationIds ∧
      (source.Folds .typeInstance id ∨ source.Folds .supertypeSubtype id)
  types : ∀ topic, ListsFirst (source.generals .typeInstance topic) (typing.derivedTypes topic)
  supertypes : ∀ topic,
    ListsFirst (source.generals .supertypeSubtype topic) (typing.supertypesOf topic)

theorem isFolded_iff {typing : Typing} :
    typing.isFolded id = true ↔
      (∃ fact ∈ typing.types, fact.association = id) ∨
        ∃ fact ∈ typing.supertypes, fact.association = id := by
  simp only [isFolded, List.any_append, Bool.or_eq_true, List.any_eq_true, decide_eq_true_eq]

theorem decodes_of_build {typing : Typing} (built : build source = .ok typing) :
    Decodes source typing := by
  obtain ⟨types, supertypes, rfl⟩ := build_eq_ok_iff.mp built
  constructor
  · intro id
    rw [isFolded_iff, exists_mem_facts types, exists_mem_facts supertypes, ← and_or_left]
  · intro topic
    rw [derivedTypes, generalsOf, map_general_facts types]
    exact firstSeen_lists _
  · intro topic
    rw [supertypesOf, generalsOf, map_general_facts supertypes]
    exact firstSeen_lists _

/-- A graph is accepted exactly if all associations of the two reserved types have one player in each
role. If it is accepted, the typing is what its plain associations say; if not, the error is about
the first association that fails, its first role that fails, and the number of players there. -/
theorem build_exact (source : Source) :
    ((∃ typing, build source = .ok typing) ↔
      source.AllMeet .typeInstance ∧ source.AllMeet .supertypeSubtype) ∧
    (∀ typing, build source = .ok typing → Decodes source typing) ∧
    ∀ e, build source = .error e → ∃ pattern id role, source.FirstFault pattern id role ∧
      (pattern = .typeInstance ∨ pattern = .supertypeSubtype ∧ source.AllMeet .typeInstance) ∧
      e = .structuralConstraint id pattern.type role (source.rolesOf id role).length := by
  refine ⟨?_, fun typing => decodes_of_build, fun e failed => ?_⟩
  · constructor
    · rintro ⟨typing, built⟩
      obtain ⟨types, supertypes, _⟩ := build_eq_ok_iff.mp built
      exact ⟨types, supertypes⟩
    · rintro ⟨types, supertypes⟩
      exact ⟨_, build_eq_ok types supertypes⟩
  · rcases allMeet_or_fault source with ⟨types, supertypes⟩ | ⟨pattern, id, role, fault, earlier⟩
    · rw [build_eq_ok types supertypes] at failed
      cases failed
    · rw [build_of_fault fault earlier] at failed
      exact ⟨pattern, id, role, fault, earlier, (Except.error.inj failed).symm⟩

def crewCalls : List BuildCall :=
  [.topicAt .subjectIdentifier "http://t.example/sailor",
    .topicAt .subjectIdentifier "http://t.example/anna", .createTypeInstance ⟨0⟩ ⟨1⟩,
    .topicAt .subjectIdentifier "http://t.example/people", .createSupertypeSubtype ⟨5⟩ ⟨0⟩]

def crew : TopicMap := crewCalls.foldl BuildCall.apply {}

def crowdedCrew : TopicMap := (crew.createRole ⟨0⟩ ⟨4⟩ ⟨0⟩).1

theorem crew_exact :
    (∃ typing, build crew.source = .ok typing ∧ typing.isFolded ⟨1⟩ = true ∧
      typing.derivedTypes ⟨1⟩ = [⟨0⟩] ∧ ⟨0⟩ ∈ crew.source.generals .typeInstance ⟨1⟩) ∧
      build crowdedCrew.source =
        .error (.structuralConstraint ⟨0⟩ Iri.typeInstance Iri.instanceRole 2) ∧
      ∃ pattern id role, crowdedCrew.source.FirstFault pattern id role ∧
        (crowdedCrew.source.rolesOf id role).length = 2 := by
  constructor
  · obtain ⟨accepted, decodes, _⟩ := build_exact crew.source
    obtain ⟨typing, built⟩ := accepted.mpr (by decide +kernel)
    have types : typing.derivedTypes ⟨1⟩ = [⟨0⟩] := by
      obtain ⟨_, _, rfl⟩ := build_eq_ok_iff.mp built
      decide +kernel
    refine ⟨typing, built, ?_, types, ?_⟩
    · exact ((decodes typing built).folded ⟨1⟩).mpr (by decide +kernel)
    · exact (((decodes typing built).types ⟨1⟩).mem ⟨0⟩).mp (by simp [types])
  · have failed : build crowdedCrew.source =
        .error (.structuralConstraint ⟨0⟩ Iri.typeInstance Iri.instanceRole 2) := by rfl
    obtain ⟨_, _, reported⟩ := build_exact crowdedCrew.source
    obtain ⟨pattern, id, role, fault, _, same⟩ := reported _ failed
    exact ⟨failed, pattern, id, role, fault, (Error.structuralConstraint.inj same).2.2.2.symm⟩

end Typing
end CompactTopicMap
