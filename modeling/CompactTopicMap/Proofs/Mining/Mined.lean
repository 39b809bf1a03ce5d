import CompactTopicMap.Proofs.Mining.Explicit
import CompactTopicMap.Proofs.Mining.Names
import CompactTopicMap.Session.Mining

namespace CompactTopicMap

theorem exists_of_mem_zipWith {α β γ : Type} {f : α → β → γ} {as : List α} {bs : List β} {c : γ}
    (member : c ∈ List.zipWith f as bs) : ∃ a ∈ as, ∃ b ∈ bs, c = f a b := by
  rw [← List.map_uncurry_zip_eq_zipWith] at member
  obtain ⟨⟨a, b⟩, inside, rfl⟩ := List.mem_map.mp member
  exact ⟨a, (List.of_mem_zip inside).1, b, (List.of_mem_zip inside).2, rfl⟩

namespace Session

variable {s : Session}

theorem isNamed_of_localName? {type : TopicId} {name : String}
    (found : s.localName? type = some name) : s.IsNamed type := by
  rw [← identity?_isSome]
  unfold localName? at found
  obtain ⟨identity, identified, _⟩ := Option.map_eq_some_iff.mp found
  rw [identified]
  rfl

theorem isIdentifierChars_localName? {type : TopicId} {name : String}
    (found : s.localName? type = some name) : isIdentifierChars name.toList = true := by
  unfold localName? at found
  obtain ⟨identity, _, rfl⟩ := Option.map_eq_some_iff.mp found
  rw [String.toList_ofList]
  exact isIdentifierChars_sanitize (by decide) _

theorem isNamed_of_areIdentifiable {ids : List TopicId}
    (identifiable : s.areIdentifiable ids = true) {id : TopicId} (member : id ∈ ids) :
    s.IsNamed id :=
  (s.identity?_isSome id).mp (List.all_eq_true.mp identifiable id member)

theorem themes_scopePattern (scope : List TopicId) :
    (scopePattern scope).themes = scope.map .fixed := by
  rw [scopePattern, ScopePattern.themes]
  cases scope <;> rfl

theorem scopePattern_explicit {scope : List TopicId} (named : ∀ theme ∈ scope, s.IsNamed theme) :
    ∀ theme ∈ (scopePattern scope).themes, theme.Explicit s.source := by
  intro theme member
  rw [themes_scopePattern] at member
  obtain ⟨id, inside, rfl⟩ := List.mem_map.mp member
  exact named id inside

theorem minedStatements_explicit {type : TopicId} (named : s.IsNamed type)
    (instances : List TopicId) :
    ∀ statement ∈ s.minedStatements type instances, statement.Explicit s.source := by
  intro statement member
  simp only [minedStatements, List.cons_append, List.mem_cons, List.mem_append] at member
  rcases member with rfl | name | occurrence
  · exact named
  · obtain ⟨signature, inside, token, _, rfl⟩ := exists_of_mem_zipWith name
    have identifiable := (List.mem_filter.mp inside).2
    exact {
      type := isNamed_of_areIdentifiable identifiable (by simp)
      themes := scopePattern_explicit fun theme member =>
        isNamed_of_areIdentifiable identifiable (List.mem_cons_of_mem _ member)
      reifier := rfl
      variants := rfl }
  · obtain ⟨signature, inside, token, _, rfl⟩ := exists_of_mem_zipWith occurrence
    have identifiable := (List.mem_filter.mp inside).2
    exact {
      type := isNamed_of_areIdentifiable identifiable (by simp)
      themes := scopePattern_explicit fun theme member =>
        isNamed_of_areIdentifiable identifiable (List.mem_cons_of_mem _ member)
      reifier := rfl }

theorem isIdentifier_minedName {type : TopicId} {base : String}
    (found : s.localName? type = some base) (taken : List String) :
    isIdentifier (freshName taken (base ++ "-template")) = true := by
  have stem : Hyphenated (base ++ "-template") :=
    .of_append (isIdentifierChars_localName? found) (by rfl) (by decide)
  exact (stem.freshName taken).isIdentifier

theorem mineTopic_explicit {taken : List String} {type : TopicId} {t : Template}
    (mined : s.mineTopic taken type = some t) : t.Explicit s.source := by
  unfold mineTopic at mined
  split at mined
  · cases mined
  · obtain ⟨base, found, built⟩ := Option.bind_eq_some_iff.mp mined
    simp only [Option.ite_none_left_eq_some, Option.some.injEq] at built
    rcases built with ⟨_, rfl⟩
    refine .topic (isIdentifier_minedName found taken) (by simp [minedStatements]) ?_
    intro entry member
    obtain ⟨statement, inside, rfl⟩ := List.mem_map.mp member
    exact .statement (minedStatements_explicit (isNamed_of_localName? found) _ statement inside)

theorem minedRoles_explicit (associations : List AssociationId) :
    ∀ role ∈ s.minedRoles associations, role.Explicit s.source := by
  intro role member
  obtain ⟨⟨type, stem⟩, inside, token, _, rfl⟩ := exists_of_mem_zipWith member
  obtain ⟨other, _, named⟩ := List.mem_filterMap.mp inside
  obtain ⟨name, found, same⟩ := Option.map_eq_some_iff.mp named
  obtain ⟨rfl, _⟩ := Prod.mk.inj same
  exact ⟨isNamed_of_localName? found, ⟨token, rfl⟩, rfl⟩

theorem mineAssociation_explicit {taken : List String} {type : TopicId} {t : Template}
    (mined : s.mineAssociation taken type = some t) : t.Explicit s.source := by
  unfold mineAssociation at mined
  split at mined
  · cases mined
  · obtain ⟨base, found, built⟩ := Option.bind_eq_some_iff.mp mined
    simp only [Option.ite_none_left_eq_some, Option.some.injEq] at built
    rcases built with ⟨_, rfl⟩
    exact .association (isIdentifier_minedName found taken) {
      type := isNamed_of_localName? found
      roles := minedRoles_explicit _
      scope := rfl
      reifier := rfl }

theorem mineEach_explicit {mine : List String → TopicId → Option Template}
    (each : ∀ {taken type t}, mine taken type = some t → t.Explicit s.source) (taken : List String)
    (types : List TopicId) : ∀ t ∈ mineEach mine taken types, t.Explicit s.source := by
  induction types generalizing taken with
  | nil => simp [mineEach]
  | cons type types ih =>
    rw [mineEach]
    split
    · rename_i t mined
      intro other member
      rcases List.mem_cons.mp member with rfl | later
      · exact each mined
      · exact ih _ other later
    · exact ih taken

theorem mineAll_explicit (s : Session) (taken : List String) :
    ∀ t ∈ s.mineAll taken, t.Explicit s.source := by
  intro t member
  simp only [mineAll, List.mem_append] at member
  rcases member with topic | association
  · split at topic
    · exact mineEach_explicit mineTopic_explicit _ _ t topic
    · cases topic
  · split at association
    · exact mineEach_explicit mineAssociation_explicit _ _ t association
    · cases association

end Session
end CompactTopicMap
