import CompactTopicMap.Resolver
import Mathlib.Data.Finset.Card

namespace CompactTopicMap

def IsFirst {α : Type} (holds : α → Prop) (items : List α) (item : α) : Prop :=
  ∃ before behind, items = before ++ item :: behind ∧ holds item ∧ ∀ other ∈ before, ¬ holds other

theorem find?_not_eq_some_iff {α : Type} {p : α → Bool} {items : List α} {item : α} :
    items.find? (!p ·) = some item ↔ IsFirst (¬ p · = true) items item := by
  rw [List.find?_eq_some_iff_append]
  constructor
  · rintro ⟨holds, before, behind, split, earlier⟩
    exact ⟨before, behind, split, by simpa using holds, by simpa using earlier⟩
  · rintro ⟨before, behind, split, holds, earlier⟩
    exact ⟨by simpa using holds, before, behind, split, by simpa using earlier⟩

namespace Naming

/-- The address starts with that of the engine. An engine without an address has assigned nothing. -/
def Assigned (naming : Naming) (iri : String) : Prop :=
  ∃ engine, naming.engine = some engine ∧ engine ≠ "" ∧ engine.toList <+: iri.toList

theorem isSystem_iff {naming : Naming} {iri : String} :
    naming.isSystem iri = true ↔ naming.Assigned iri := by
  simp [isSystem, Assigned, Iri.startsWith, Option.any_eq_true]

inductive Selects (naming : Naming) (topic : Topic) : LocatorKind → String → Prop
  | indicator {iri : String}
    (first : IsFirst (¬ Iri.isReserved · = true) topic.subjectIdentifiers iri) :
    Selects naming topic .subjectIdentifier iri
  | locator {iri : String} {more : List String}
    (reserved : ∀ other ∈ topic.subjectIdentifiers, Iri.isReserved other = true)
    (first : topic.subjectLocators = iri :: more) : Selects naming topic .subjectLocator iri
  | item {iri : String}
    (reserved : ∀ other ∈ topic.subjectIdentifiers, Iri.isReserved other = true)
    (nowhere : topic.subjectLocators = [])
    (first : IsFirst (¬ naming.Assigned ·) topic.itemIdentifiers iri) :
    Selects naming topic .itemIdentifier iri
  | reservedIndicator {iri : String} {more : List String}
    (reserved : ∀ other ∈ topic.subjectIdentifiers, Iri.isReserved other = true)
    (nowhere : topic.subjectLocators = [])
    (assigned : ∀ other ∈ topic.itemIdentifiers, naming.Assigned other)
    (first : topic.subjectIdentifiers = iri :: more) : Selects naming topic .subjectIdentifier iri
  | assignedItem {iri : String} {more : List String} (unindicated : topic.subjectIdentifiers = [])
    (nowhere : topic.subjectLocators = [])
    (assigned : ∀ other ∈ topic.itemIdentifiers, naming.Assigned other)
    (first : topic.itemIdentifiers = iri :: more) : Selects naming topic .itemIdentifier iri

variable {naming : Naming} {topic : Topic} {kind : LocatorKind} {iri : String}

theorem Selects.mem (selects : naming.Selects topic kind iri) : iri ∈ topic.locators kind := by
  cases selects with
  | indicator first | item _ _ first =>
    obtain ⟨before, behind, split, _⟩ := first
    simp [Topic.locators, split]
  | locator _ first | reservedIndicator _ _ _ first | assignedItem _ _ _ first =>
    simp [Topic.locators, first]

theorem select?_eq_some_iff :
    naming.select? topic = some (kind, iri) ↔ naming.Selects topic kind iri := by
  simp only [select?, Option.or_eq_some_iff, Option.map_eq_some_iff, Option.map_eq_none_iff,
    Prod.mk.injEq, List.find?_eq_none, List.head?_eq_none_iff, List.head?_eq_some_iff,
    find?_not_eq_some_iff, isSystem_iff, Bool.not_eq_true', Bool.not_eq_false]
  constructor
  · rintro (⟨_, first, rfl, rfl⟩ | ⟨reserved, found | ⟨nowhere, found | ⟨assigned, found⟩⟩⟩)
    · exact .indicator first
    · obtain ⟨_, ⟨_, first⟩, rfl, rfl⟩ := found
      exact .locator reserved first
    · obtain ⟨_, first, rfl, rfl⟩ := found
      exact .item reserved nowhere first
    · obtain ⟨_, ⟨_, first⟩, rfl, rfl⟩ | ⟨unindicated, _, ⟨_, first⟩, rfl, rfl⟩ := found
      · exact .reservedIndicator reserved nowhere assigned first
      · exact .assignedItem unindicated nowhere assigned first
  · intro selects
    cases selects with
    | indicator first => exact .inl ⟨iri, first, rfl, rfl⟩
    | locator reserved first => exact .inr ⟨reserved, .inl ⟨iri, ⟨_, first⟩, rfl, rfl⟩⟩
    | item reserved nowhere first =>
      exact .inr ⟨reserved, .inr ⟨nowhere, .inl ⟨iri, first, rfl, rfl⟩⟩⟩
    | reservedIndicator reserved nowhere assigned first =>
      exact .inr ⟨reserved, .inr ⟨nowhere, .inr ⟨assigned, .inl ⟨iri, ⟨_, first⟩, rfl, rfl⟩⟩⟩⟩
    | assignedItem unindicated nowhere assigned first =>
      have reserved : ∀ other ∈ topic.subjectIdentifiers, Iri.isReserved other = true := by
        simp [unindicated]
      exact .inr ⟨reserved, .inr ⟨nowhere, .inr ⟨assigned,
        .inr ⟨unindicated, iri, ⟨_, first⟩, rfl, rfl⟩⟩⟩⟩

theorem select?_eq_none_iff :
    naming.select? topic = none ↔ ∀ kind, topic.locators kind = [] := by
  simp only [select?, Option.or_eq_none_iff, Option.map_eq_none_iff, List.head?_eq_none_iff]
  constructor
  · rintro ⟨_, nowhere, _, unindicated, unnamed⟩ kind
    cases kind with
    | subjectIdentifier => exact unindicated
    | subjectLocator => exact nowhere
    | itemIdentifier => exact unnamed
  · intro anonymous
    have unindicated := anonymous .subjectIdentifier
    have nowhere := anonymous .subjectLocator
    have unnamed := anonymous .itemIdentifier
    simp only [Topic.locators] at unindicated nowhere unnamed
    simp [unindicated, nowhere, unnamed]

theorem identity?_eq_none_iff {table : PrefixTable} :
    naming.identity? table topic = none ↔ ∀ kind, topic.locators kind = [] := by
  rw [identity?, Option.map_eq_none_iff, select?_eq_none_iff]

theorem identity?_eq_some_iff {table : PrefixTable} {identity : Identity} :
    naming.identity? table topic = some identity ↔ ∃ kind iri, naming.Selects topic kind iri ∧
      identity = .ofLocator table naming.base kind iri := by
  rw [identity?, Option.map_eq_some_iff, Prod.exists]
  exact exists_congr fun kind => exists_congr fun iri => and_congr select?_eq_some_iff eq_comm

end Naming

namespace Resolver

variable {resolver : Resolver} {source : Source} {table : PrefixTable} {asked : List TopicId}

def resolveEach (resolver : Resolver) (source : Source) (table : PrefixTable) :
    List TopicId → Resolver × List (Option Identity)
  | [] => (resolver, [])
  | id :: ids =>
    let first := resolver.resolve source table id
    let rest := first.1.resolveEach source table ids
    (rest.1, first.2 :: rest.2)

structure Remembers (resolver : Resolver) (asked : List TopicId) : Prop where
  distinct : (resolver.known.map Prod.fst).Nodup
  mem : ∀ id, id ∈ resolver.known.map Prod.fst ↔ id ∈ asked

theorem Remembers.resolve (remembers : resolver.Remembers asked) (id : TopicId) :
    (resolver.resolve source table id).1.Remembers (asked ++ [id]) := by
  unfold Resolver.resolve
  split
  · rename_i identity found
    obtain ⟨before, behind, known, _⟩ := List.lookup_eq_some_iff.mp found
    have old : id ∈ asked := (remembers.mem id).mp (by simp [known])
    refine ⟨remembers.distinct, fun other => ?_⟩
    rw [remembers.mem, List.mem_append, List.mem_singleton]
    exact ⟨.inl, fun either => either.elim (fun asked => asked) fun same => same ▸ old⟩
  · rename_i unknown
    have new : id ∉ resolver.known.map Prod.fst := by
      intro member
      obtain ⟨entry, inside, same⟩ := List.mem_map.mp member
      simpa [same] using List.lookup_eq_none_iff.mp unknown entry inside
    refine ⟨List.nodup_cons.mpr ⟨new, remembers.distinct⟩, fun other => ?_⟩
    rw [List.map_cons, List.mem_cons, remembers.mem, List.mem_append, List.mem_singleton, or_comm]

theorem resolveEach_spec (faithful : resolver.Faithful source table)
    (remembers : resolver.Remembers asked) (ids : List TopicId) :
    (resolver.resolveEach source table ids).2 =
        ids.map (fun id => resolver.naming.identity? table (source.topic id)) ∧
      (resolver.resolveEach source table ids).1.Remembers (asked ++ ids) := by
  induction ids generalizing resolver asked with
  | nil => exact ⟨rfl, (List.append_nil asked).symm ▸ remembers⟩
  | cons id ids ih =>
    obtain ⟨kept, naming, answer⟩ := faithful.resolve id
    obtain ⟨answers, known⟩ := ih kept (remembers.resolve id)
    rw [naming] at answers
    rw [List.append_assoc] at known
    refine ⟨?_, known⟩
    rw [resolveEach, List.map_cons, answer, answers]

theorem Remembers.size (remembers : resolver.Remembers asked) :
    resolver.size = asked.toFinset.card := by
  have same : asked.toFinset = (resolver.known.map Prod.fst).toFinset := by
    ext id
    rw [List.mem_toFinset, List.mem_toFinset, remembers.mem]
  rw [same, List.toFinset_card_of_nodup remembers.distinct, List.length_map, Resolver.size]

/-- Whatever is asked for, in whatever order and however often, each answer is the one of a new resolver,
and each topic is remembered once. A topic has no identity exactly if it has no locator, and otherwise
that of the locator which comes first in the order of preference. -/
theorem resolveEach_transparent (naming : Naming) (source : Source) (table : PrefixTable)
    (asked : List TopicId) :
    let new : Resolver := { naming }
    (new.resolveEach source table asked).2 =
        asked.map (fun id => (new.resolve source table id).2) ∧
      (new.resolveEach source table asked).1.size = asked.toFinset.card ∧
      ∀ id, ((new.resolve source table id).2 = none ↔
          ∀ kind, (source.topic id).locators kind = []) ∧
        ∀ identity, (new.resolve source table id).2 = some identity ↔
          ∃ kind, ∃ iri ∈ (source.topic id).locators kind,
            naming.Selects (source.topic id) kind iri ∧
              identity = .ofLocator table naming.base kind iri := by
  intro new
  have answer (id : TopicId) : (new.resolve source table id).2 =
      naming.identity? table (source.topic id) := rfl
  have faithful : new.Faithful source table := nofun
  have nothing : new.Remembers [] := ⟨.nil, by simp [new]⟩
  obtain ⟨answers, remembers⟩ := resolveEach_spec faithful nothing asked
  refine ⟨answers, remembers.size, fun id => ⟨?_, fun identity => ?_⟩⟩
  · rw [answer, Naming.identity?_eq_none_iff]
  · rw [answer, Naming.identity?_eq_some_iff]
    constructor
    · rintro ⟨kind, iri, selects, same⟩
      exact ⟨kind, iri, selects.mem, selects, same⟩
    · rintro ⟨kind, iri, _, selects, same⟩
      exact ⟨kind, iri, selects, same⟩

end Resolver
end CompactTopicMap
