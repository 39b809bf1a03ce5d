import CompactTopicMap.Namespaces
import Mathlib.Data.Finite.Defs
import Mathlib.Data.List.Sort
import Mathlib.Order.WellFoundedSet

namespace CompactTopicMap

theorem Text.isSome_after? {mark text : List Char} :
    (Text.after? mark text).isSome = true ↔ mark <:+: text := by
  induction text with
  | nil => cases mark <;> simp [after?]
  | cons c text ih =>
    rw [after?, Option.isSome_or, Bool.or_eq_true, ih, List.infix_cons_iff,
      List.isSome_isPrefixOf?_eq_isPrefixOf, List.isPrefixOf_iff_prefix]

def Nested (a b : String) : Prop := a.toList <:+: b.toList ∨ b.toList <:+: a.toList

instance (a b : String) : Decidable (Nested a b) :=
  inferInstanceAs (Decidable (a.toList <:+: b.toList ∨ b.toList <:+: a.toList))

instance : Std.Symm fun a b => ¬ Nested a b := ⟨fun _ _ apart nested => apart (Or.symm nested)⟩

theorem overlaps_iff {a b : String} : overlaps a b = true ↔ Nested a b := by
  rw [overlaps, Bool.or_eq_true, Text.isSome_after?, Text.isSome_after?, Nested]

/-- The first namespace occurs more often, or as often and comes first as a text. -/
def Precedes (spaces : List String) (a b : String) : Prop :=
  spaces.count b < spaces.count a ∨ spaces.count a = spaces.count b ∧ a < b

instance (spaces : List String) (a b : String) : Decidable (Precedes spaces a b) :=
  inferInstanceAs (Decidable (spaces.count b < spaces.count a ∨
    spaces.count a = spaces.count b ∧ a < b))

instance (spaces : List String) : IsStrictOrder String (Precedes spaces) where
  irrefl a precedes := by
    rcases precedes with less | ⟨_, less⟩
    · exact Nat.lt_irrefl _ less
    · exact String.lt_irrefl a less
  trans a b c first second := by
    rcases first with less | ⟨same, before⟩
    · rcases second with less' | ⟨same', _⟩
      · exact .inl (less'.trans less)
      · exact .inl (same' ▸ less)
    · rcases second with less' | ⟨same', before'⟩
      · exact .inl (same ▸ less')
      · exact .inr ⟨same.trans same', String.lt_trans before before'⟩

/-- The namespaces that occur more than once, ranked, are gone through from the first on, and each is
chosen unless it is nested with one that was chosen before. -/
structure GreedyChoice (spaces chosen : List String) : Prop where
  repeated : ∀ a ∈ chosen, 1 < spaces.count a
  ranked : chosen.Pairwise (Precedes spaces)
  apart : chosen.Pairwise fun a b => ¬ Nested a b
  greedy : ∀ b, 1 < spaces.count b → b ∉ chosen → ∃ a ∈ chosen, Precedes spaces a b ∧ Nested a b

namespace GreedyChoice

variable {spaces chosen chosen' : List String}

theorem mem_iff (choice : GreedyChoice spaces chosen) (b : String) :
    b ∈ chosen ↔ 1 < spaces.count b ∧ ∀ a ∈ chosen, Precedes spaces a b → ¬ Nested a b := by
  constructor
  · intro member
    refine ⟨choice.repeated b member, fun a other precedes => ?_⟩
    have differ : a ≠ b := fun same => irrefl_of (Precedes spaces) b (same ▸ precedes)
    exact choice.apart.forall other member differ
  · rintro ⟨repeated, free⟩
    by_contra left_out
    obtain ⟨a, other, precedes, nested⟩ := choice.greedy b repeated left_out
    exact free a other precedes nested

theorem unique (choice : GreedyChoice spaces chosen) (choice' : GreedyChoice spaces chosen') :
    chosen = chosen' := by
  have finite : {a | 1 < spaces.count a}.Finite :=
    spaces.finite_toSet.subset fun a (repeated : 1 < spaces.count a) =>
      List.count_pos_iff.mp (Nat.zero_lt_of_lt repeated)
  have agree : ∀ b, 1 < spaces.count b → (b ∈ chosen ↔ b ∈ chosen') := by
    intro b repeated
    have founded := finite.wellFoundedOn (r := Precedes spaces)
    refine founded.induction (P := fun b => b ∈ chosen ↔ b ∈ chosen') repeated ?_
    intro b repeated ih
    rw [choice.mem_iff, choice'.mem_iff]
    have same : ∀ a, Precedes spaces a b → (a ∈ chosen ↔ a ∈ chosen') := by
      intro a precedes
      have repeated' : 1 < spaces.count a := by
        rcases precedes with less | ⟨same, _⟩
        · exact Nat.lt_trans repeated less
        · exact same ▸ repeated
      exact ih a repeated' precedes
    refine and_congr_right fun _ => forall_congr' fun a => ?_
    exact ⟨fun free member precedes => free ((same a precedes).mpr member) precedes,
      fun free member precedes => free ((same a precedes).mp member) precedes⟩
  apply List.Pairwise.eq_of_mem_iff choice.ranked choice'.ranked
  exact fun b => ⟨fun member => (agree b (choice.repeated b member)).mp member,
    fun member => (agree b (choice'.repeated b member)).mpr member⟩

theorem perm {spaces' : List String} (choice : GreedyChoice spaces chosen)
    (perm : spaces.Perm spaces') : GreedyChoice spaces' chosen := by
  have count (a : String) : spaces'.count a = spaces.count a := (perm.count_eq a).symm
  have precedes : Precedes spaces' = Precedes spaces := by
    funext a b
    simp only [Precedes, count]
  constructor
  · simpa only [count] using choice.repeated
  · rw [precedes]
    exact choice.ranked
  · exact choice.apart
  · simpa only [precedes, count] using choice.greedy

end GreedyChoice

section Ranking

theorem Counted.mem_ofSpaces {spaces : List String} {c : Counted} :
    c ∈ Counted.ofSpaces spaces ↔ c.space ∈ spaces ∧ c.count = spaces.count c.space := by
  rw [ofSpaces, List.mem_map]
  constructor
  · rintro ⟨space, member, rfl⟩
    exact ⟨mem_firstSeen.mp member, rfl⟩
  · rintro ⟨member, count⟩
    exact ⟨c.space, mem_firstSeen.mpr member, by rw [← count]⟩

theorem Counted.map_space_ofSpaces (spaces : List String) :
    (Counted.ofSpaces spaces).map Counted.space = firstSeen spaces := by
  rw [ofSpaces, List.map_map]
  exact List.map_id _

theorem Counted.ranksBefore_iff {a b : Counted} :
    a.ranksBefore b = true ↔ b.count < a.count ∨ a.count = b.count ∧ a.space ≤ b.space := by
  simp [ranksBefore]

theorem Counted.ranksBefore_trans (a b c : Counted) (first : a.ranksBefore b = true)
    (second : b.ranksBefore c = true) : a.ranksBefore c = true := by
  rw [ranksBefore_iff] at *
  rcases first with less | ⟨same, before⟩
  · exact .inl (by omega)
  · rcases second with less | ⟨same', before'⟩
    · exact .inl (by omega)
    · exact .inr ⟨same.trans same', String.le_trans before before'⟩

theorem Counted.ranksBefore_total (a b : Counted) :
    (a.ranksBefore b || b.ranksBefore a) = true := by
  rw [Bool.or_eq_true, ranksBefore_iff, ranksBefore_iff]
  rcases String.le_total a.space b.space with before | before
  · rcases Nat.lt_or_ge a.count b.count with less | most
    · exact .inr (.inl less)
    · exact .inl (most.lt_or_eq.imp_right fun same => ⟨same.symm, before⟩)
  · rcases Nat.lt_or_ge b.count a.count with less | most
    · exact .inl (.inl less)
    · exact .inr (most.lt_or_eq.imp_right fun same => ⟨same.symm, before⟩)

namespace Source

variable {source : Source}

theorem mem_rankedNamespaces {c : Counted} :
    c ∈ source.rankedNamespaces ↔
      1 < source.namespaces.count c.space ∧ c.count = source.namespaces.count c.space := by
  rw [rankedNamespaces, List.mem_mergeSort, List.mem_filter, Counted.mem_ofSpaces, decide_eq_true_eq]
  constructor
  · rintro ⟨⟨_, count⟩, repeated⟩
    exact ⟨count ▸ repeated, count⟩
  · rintro ⟨repeated, count⟩
    exact ⟨⟨List.count_pos_iff.mp (Nat.zero_lt_of_lt repeated), count⟩, count ▸ repeated⟩

theorem rankedNamespaces_ranked (source : Source) :
    (source.rankedNamespaces.map Counted.space).Pairwise (Precedes source.namespaces) := by
  have sorted := List.pairwise_mergeSort Counted.ranksBefore_trans Counted.ranksBefore_total
    ((Counted.ofSpaces source.namespaces).filter (1 < ·.count))
  -- No two namespaces have the same rank, since their texts differ.
  have distinct : (source.rankedNamespaces.map Counted.space).Nodup := by
    have all := Counted.map_space_ofSpaces source.namespaces ▸ firstSeen_nodup source.namespaces
    have frequent := all.sublist (List.filter_sublist (p := (1 < ·.count)).map Counted.space)
    exact ((List.mergeSort_perm _ _).map Counted.space).nodup_iff.mpr frequent
  rw [List.pairwise_map]
  refine (sorted.and (List.pairwise_map.mp distinct)).imp_of_mem ?_
  rintro a b here there ⟨before, differ⟩
  have count := (mem_rankedNamespaces.mp here).2
  have count' := (mem_rankedNamespaces.mp there).2
  rw [Precedes, ← count, ← count']
  exact (Counted.ranksBefore_iff.mp before).imp_right fun ⟨same, before⟩ =>
    ⟨same, String.not_le.mp fun after => differ (String.le_antisymm before after)⟩

end Source
end Ranking

section Choosing

def chooseNext (chosen : List String) (space : String) : List String :=
  if chosen.any (overlaps · space) then chosen else chosen ++ [space]

structure ChosenFrom (before : String → String → Prop) (seen chosen : List String) : Prop where
  sublist : chosen.Sublist seen
  apart : chosen.Pairwise fun a b => ¬ Nested a b
  greedy : ∀ b ∈ seen, b ∉ chosen → ∃ a ∈ chosen, before a b ∧ Nested a b

variable {before : String → String → Prop} {seen chosen : List String}

theorem ChosenFrom.next (from_seen : ChosenFrom before seen chosen) {space : String}
    (last : ∀ a ∈ seen, before a space) :
    ChosenFrom before (seen ++ [space]) (chooseNext chosen space) := by
  rw [chooseNext]
  split
  · rename_i nested
    obtain ⟨a, member, overlap⟩ := List.any_eq_true.mp nested
    refine ⟨from_seen.sublist.trans (List.sublist_append_left _ _), from_seen.apart, ?_⟩
    intro b here left_out
    rcases List.mem_append.mp here with earlier | here
    · exact from_seen.greedy b earlier left_out
    · obtain rfl := List.mem_singleton.mp here
      exact ⟨a, member, last a (from_seen.sublist.subset member), overlaps_iff.mp overlap⟩
  · rename_i free
    have apart : ∀ a ∈ chosen, ¬ Nested a space := fun a member nested =>
      free (List.any_eq_true.mpr ⟨a, member, overlaps_iff.mpr nested⟩)
    refine ⟨from_seen.sublist.append_right [space], ?_, ?_⟩
    · rw [List.pairwise_append]
      refine ⟨from_seen.apart, List.pairwise_singleton _ _, fun a member b here => ?_⟩
      exact List.mem_singleton.mp here ▸ apart a member
    · intro b here left_out
      rw [List.mem_append, not_or] at left_out
      obtain ⟨earlier, differ⟩ := left_out
      have seen_before := (List.mem_append.mp here).resolve_right differ
      obtain ⟨a, member, found⟩ := from_seen.greedy b seen_before earlier
      exact ⟨a, List.mem_append_left _ member, found⟩

theorem ChosenFrom.foldl {rest : List String} (from_seen : ChosenFrom before seen chosen)
    (ranked : (seen ++ rest).Pairwise before) :
    ChosenFrom before (seen ++ rest) (rest.foldl chooseNext chosen) := by
  induction rest generalizing seen chosen with
  | nil => rwa [List.append_nil]
  | cons space rest ih =>
    rw [List.append_cons] at ranked ⊢
    have last : ∀ a ∈ seen, before a space := fun a member =>
      (List.pairwise_append.mp (List.pairwise_append.mp ranked).1).2.2 a member space
        (List.mem_singleton_self space)
    exact ih (from_seen.next last) ranked

end Choosing

namespace Source

variable {source other : Source}

theorem detectNamespaces_choice (source : Source) :
    GreedyChoice source.namespaces source.detectNamespaces := by
  have ranked := source.rankedNamespaces_ranked
  have detected : source.detectNamespaces =
      (source.rankedNamespaces.map Counted.space).foldl chooseNext [] := by
    rw [List.foldl_map]
    rfl
  have start : ChosenFrom (Precedes source.namespaces) [] [] := ⟨.slnil, .nil, nofun⟩
  have whole := start.foldl ranked
  rw [List.nil_append, ← detected] at whole
  have listed (a : String) :
      a ∈ source.rankedNamespaces.map Counted.space ↔ 1 < source.namespaces.count a := by
    rw [List.mem_map]
    constructor
    · rintro ⟨c, member, rfl⟩
      exact (mem_rankedNamespaces.mp member).1
    · intro repeated
      exact ⟨⟨a, source.namespaces.count a⟩, mem_rankedNamespaces.mpr ⟨repeated, rfl⟩, rfl⟩
  exact {
    repeated := fun a member => (listed a).mp (whole.sublist.subset member)
    ranked := ranked.sublist whole.sublist
    apart := whole.apart
    greedy := fun b repeated => whole.greedy b ((listed b).mpr repeated) }

theorem detectNamespaces_nodup (source : Source) : source.detectNamespaces.Nodup :=
  source.detectNamespaces_choice.ranked.imp fun precedes => ne_of_irrefl precedes

/-- The other source enumerates the same topics, and for each of them the same addresses, in some
order each. -/
structure Reorders (source other : Source) : Prop where
  topics : other.topicIds.Perm source.topicIds
  indicators : ∀ id ∈ source.topicIds,
    (other.topic id).subjectIdentifiers.Perm (source.topic id).subjectIdentifiers
  locators : ∀ id ∈ source.topicIds,
    (other.topic id).subjectLocators.Perm (source.topic id).subjectLocators

theorem Reorders.namespaces_perm (reorders : source.Reorders other) :
    other.namespaces.Perm source.namespaces := by
  refine (reorders.topics.flatMap_right _).trans (List.Perm.flatMap_left _ fun id member => ?_)
  exact ((reorders.indicators id member).append (reorders.locators id member)).filterMap namespace?

/-- The detected namespaces are the greedy choice among the namespaces of all addresses, and every
enumeration of the topics and their addresses gives the same ones. -/
theorem detectNamespaces_greedy (source : Source) :
    (∀ chosen, GreedyChoice source.namespaces chosen ↔ chosen = source.detectNamespaces) ∧
      ∀ other, source.Reorders other → other.detectNamespaces = source.detectNamespaces := by
  have choice := source.detectNamespaces_choice
  refine ⟨fun chosen => ⟨fun other => other.unique choice, fun same => same ▸ choice⟩, ?_⟩
  intro other reorders
  exact (other.detectNamespaces_choice.perm reorders.namespaces_perm).unique choice

def coast : Source :=
  TopicMap.source {
    topics := #[
      { subjectIdentifiers := ["http://t.example/port/mole", "http://t.example/port/pier"] },
      { subjectLocators := ["http://t.example/port/quay/east", "http://t.example/port/quay/west"] },
      { subjectIdentifiers := ["http://t.example/port/crane", "http://t.example/shop#net"]
        subjectLocators := ["http://t.example/shop#fish"] }] }

def turnedCoast : Source where
  map := {
    topics := #[
      { subjectIdentifiers := ["http://t.example/port/pier", "http://t.example/port/mole"] },
      { subjectLocators := ["http://t.example/port/quay/west", "http://t.example/port/quay/east"] },
      { subjectIdentifiers := ["http://t.example/shop#net", "http://t.example/port/crane"]
        subjectLocators := ["http://t.example/shop#fish"] }] }
  topicIds := [⟨2⟩, ⟨0⟩, ⟨1⟩]
  associationIds := []

/-- The quay has two addresses, but it is a part of the port, which has three. -/
theorem coast_detected :
    coast.Reorders turnedCoast ∧
      coast.detectNamespaces = ["http://t.example/port/", "http://t.example/shop#"] ∧
      turnedCoast.detectNamespaces = coast.detectNamespaces := by
  have reorders : coast.Reorders turnedCoast := ⟨by decide, by decide, by decide⟩
  have listed : coast.namespaces = ["http://t.example/port/", "http://t.example/port/",
      "http://t.example/port/quay/", "http://t.example/port/quay/", "http://t.example/port/",
      "http://t.example/shop#", "http://t.example/shop#"] := by decide +kernel
  have choice : GreedyChoice coast.namespaces
      ["http://t.example/port/", "http://t.example/shop#"] := by
    rw [listed]
    refine ⟨by decide, by decide, by decide, fun b repeated => ?_⟩
    have member := List.count_pos_iff.mp (Nat.zero_lt_of_lt repeated)
    revert repeated
    revert b member
    decide
  obtain ⟨unique, stable⟩ := detectNamespaces_greedy coast
  exact ⟨reorders, ((unique _).mp choice).symm, stable turnedCoast reorders⟩

end Source
end CompactTopicMap
