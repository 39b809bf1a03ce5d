import CompactTopicMap.Proofs.Matching.Bindings

/-! Patterns are matched place by place in a fixed order, whatever the constructs are. -/

namespace CompactTopicMap

/-- A topic, or a value with the datatype that it must have. -/
inductive Place where
  | topic (ref : TopicRef)
  | value (text datatype : String)

def Place.tokens : Place → List String
  | topic ref => ref.tokens
  | value text _ => valueTokens text

def ScopePattern.places (scope : ScopePattern) : List Place := scope.themes.map .topic

def ReifierPattern.places (reifier : ReifierPattern) : List Place := reifier.toList.map .topic

def VariantPattern.places (p : VariantPattern) : List Place :=
  [.value p.value p.datatype] ++ p.scope.places ++ p.reifier.places

def NamePattern.places (p : NamePattern) : List Place :=
  [.topic p.type, .value p.value Iri.string] ++ p.scope.places ++ p.reifier.places ++
    p.variants.flatMap VariantPattern.places

def OccurrencePattern.places (p : OccurrencePattern) : List Place :=
  [.topic p.type, .value p.value p.datatype] ++ p.scope.places ++ p.reifier.places

def RolePattern.places (p : RolePattern) : List Place :=
  [.topic p.type, .topic p.player] ++ p.reifier.places

def AssociationPattern.places (p : AssociationPattern) : List Place :=
  [.topic p.type] ++ p.scope.places ++ p.reifier.places ++ p.roles.flatMap RolePattern.places

/-- The places in the order in which they are matched. The parts of other statements match nothing on
their own. -/
def Statement.places : Statement → List Place
  | isa type => [.topic type]
  | ako supertype => [.topic supertype]
  | name p => p.places
  | occurrence p => p.places
  | identifier _ value => [.value value Iri.anyUri]
  | association p => p.places
  | variant _ | role _ | reifier _ | scope _ => []

section Tokens

theorem ScopePattern.tokens_places (scope : ScopePattern) :
    scope.places.flatMap Place.tokens = scope.tokens := by
  rw [places, List.flatMap_map]
  rfl

theorem ReifierPattern.tokens_places (reifier : ReifierPattern) :
    reifier.places.flatMap Place.tokens = reifier.tokens := by
  cases reifier with
  | none => rfl
  | some topic => exact List.append_nil _

theorem VariantPattern.tokens_places (p : VariantPattern) :
    p.places.flatMap Place.tokens = p.tokens := by
  simp [places, tokens, Place.tokens, ScopePattern.tokens_places, ReifierPattern.tokens_places]

theorem NamePattern.tokens_places (p : NamePattern) : p.places.flatMap Place.tokens = p.tokens := by
  simp [places, tokens, Place.tokens, ScopePattern.tokens_places, ReifierPattern.tokens_places,
    List.flatMap_assoc, VariantPattern.tokens_places]

theorem OccurrencePattern.tokens_places (p : OccurrencePattern) :
    p.places.flatMap Place.tokens = p.tokens := by
  simp [places, tokens, Place.tokens, ScopePattern.tokens_places, ReifierPattern.tokens_places]

theorem RolePattern.tokens_places (p : RolePattern) : p.places.flatMap Place.tokens = p.tokens := by
  simp [places, tokens, Place.tokens, ReifierPattern.tokens_places]

theorem AssociationPattern.tokens_places_subset (p : AssociationPattern) :
    p.places.flatMap Place.tokens ⊆ p.tokens := by
  intro token member
  simp only [places, tokens, List.flatMap_append, List.flatMap_singleton, List.flatMap_assoc,
    ScopePattern.tokens_places, ReifierPattern.tokens_places, RolePattern.tokens_places,
    Place.tokens, List.mem_append] at member ⊢
  tauto

theorem Statement.tokens_places_subset (s : Statement) : s.places.flatMap Place.tokens ⊆ s.tokens := by
  cases s with
  | isa type => simp [places, tokens, Place.tokens]
  | ako supertype => simp [places, tokens, Place.tokens]
  | name p => exact p.tokens_places ▸ List.Subset.refl _
  | occurrence p => exact p.tokens_places ▸ List.Subset.refl _
  | identifier kind value => simp [places, tokens, Place.tokens]
  | association p => exact p.tokens_places_subset
  | variant _ | role _ | reifier _ | scope _ => exact List.nil_subset _

end Tokens

variable {source : Source} {m m' : Match}

namespace Match

/-- The second match comes from the first by comparing the topics and values of the places in order,
and by claiming constructs. -/
inductive Visits (source : Source) : List Place → Match → Match → Prop
  | refl (m : Match) : Visits source [] m m
  | topic {m m' : Match} {ref : TopicRef} {actual : TopicId}
    (found : m.topic? source ref actual = some m') : Visits source [.topic ref] m m'
  | value {m m' : Match} {text expected value datatype : String}
    (found : m.value? text expected value datatype = some m') :
    Visits source [.value text expected] m m'
  | trans {m m' m'' : Match} {first second : List Place} (before : Visits source first m m')
    (after : Visits source second m' m'') : Visits source (first ++ second) m m''
  | claim {m m' : Match} {places : List Place} (visits : Visits source places m m') (c : Construct) :
    Visits source places m (m'.claim c)

theorem themes?_visits {patterns : List TopicRef} {themes : List TopicId}
    (found : m.themes? source patterns themes = some m') :
    Visits source (patterns.map .topic) m m' := by
  induction patterns generalizing themes m with
  | nil =>
    cases themes with
    | nil => exact Option.some.inj found ▸ .refl m
    | cons theme themes => cases found
  | cons pattern patterns ih =>
    cases themes with
    | nil => cases found
    | cons theme themes =>
      obtain ⟨middle, first, rest⟩ := Option.bind_eq_some_iff.mp found
      exact (Visits.topic first).trans (ih rest)

theorem scope?_visits {pattern : ScopePattern} {scope : List TopicId}
    (found : m.scope? source pattern scope = some m') : Visits source pattern.places m m' :=
  themes?_visits found

theorem reifier?_visits {pattern : ReifierPattern} {reifier : Option TopicId}
    (found : m.reifier? source pattern reifier = some m') : Visits source pattern.places m m' := by
  unfold reifier? at found
  split at found
  · exact Option.some.inj found ▸ .refl m
  · exact .topic found
  · cases found

end Match

namespace Matcher

open Match (Visits)

variable {w : Matcher}

theorem relation?_visits {c : Construct} {pattern : TopicRef} {actual : TopicId}
    (found : w.relation? m c pattern actual = some m') : Visits w.source [.topic pattern] m m' := by
  unfold relation? at found
  split at found
  · obtain ⟨bound, topic, rfl⟩ := Option.map_eq_some_iff.mp found
    exact .claim (.topic topic) c
  · cases found

theorem variant?_visits {pattern : VariantPattern} {id : VariantId}
    (found : w.variant? pattern id m = some m') : Visits w.source pattern.places m m' := by
  unfold variant? at found
  split at found
  · simp only [Option.bind_eq_bind, Option.bind_eq_some_iff, Option.some.injEq] at found
    obtain ⟨valued, value, themed, scope, reified, reifier, rfl⟩ := found
    have placed := (Visits.value value).trans (Match.scope?_visits scope)
    exact (placed.trans (Match.reifier?_visits reifier)).claim _
  · cases found

theorem variants?_visits {patterns : List VariantPattern} {ids : List VariantId}
    (found : w.variants? patterns ids m = some m') :
    Visits w.source (patterns.flatMap VariantPattern.places) m m' := by
  induction patterns generalizing ids m with
  | nil =>
    cases ids with
    | nil => exact Option.some.inj found ▸ .refl m
    | cons id ids => cases found
  | cons pattern patterns ih =>
    cases ids with
    | nil => cases found
    | cons id ids =>
      obtain ⟨middle, first, rest⟩ := Option.bind_eq_some_iff.mp found
      exact (variant?_visits first).trans (ih rest)

theorem name?_visits {pattern : NamePattern} {id : NameId}
    (found : w.name? pattern id m = some m') : Visits w.source pattern.places m m' := by
  simp only [name?, Option.bind_eq_bind, Option.bind_eq_some_iff, Option.some.injEq] at found
  obtain ⟨typed, type, valued, value, themed, scope, reified, reifier, full, variants, rfl⟩ := found
  have typedValue := (Visits.topic type).trans (.value value)
  have placed := typedValue.trans (Match.scope?_visits scope)
  have outer := placed.trans (Match.reifier?_visits reifier)
  exact (outer.trans (variants?_visits variants)).claim _

theorem occurrence?_visits {pattern : OccurrencePattern} {id : OccurrenceId}
    (found : w.occurrence? pattern id m = some m') : Visits w.source pattern.places m m' := by
  simp only [occurrence?, Option.bind_eq_bind, Option.bind_eq_some_iff, Option.some.injEq] at found
  obtain ⟨typed, type, valued, value, themed, scope, reified, reifier, rfl⟩ := found
  have typedValue := (Visits.topic type).trans (.value value)
  have placed := typedValue.trans (Match.scope?_visits scope)
  exact (placed.trans (Match.reifier?_visits reifier)).claim _

theorem role?_visits {pattern : RolePattern} {id : RoleId} (found : w.role? pattern id m = some m') :
    Visits w.source pattern.places m m' := by
  simp only [role?, Option.bind_eq_bind, Option.bind_eq_some_iff, Option.some.injEq] at found
  obtain ⟨typed, type, played, player, reified, reifier, rfl⟩ := found
  have both := (Visits.topic type).trans (.topic player)
  exact (both.trans (Match.reifier?_visits reifier)).claim _

theorem roles?_visits {patterns : List RolePattern} {ids : List RoleId}
    (found : w.roles? patterns ids m = some m') :
    Visits w.source (patterns.flatMap RolePattern.places) m m' := by
  induction patterns generalizing ids m with
  | nil => exact Option.some.inj found ▸ .refl m
  | cons pattern patterns ih =>
    obtain ⟨_, _, step⟩ := List.exists_of_findSome?_eq_some found
    obtain ⟨middle, first, rest⟩ := Option.bind_eq_some_iff.mp step
    exact (role?_visits first).trans (ih rest)

theorem association?_visits {pattern : AssociationPattern} {id : AssociationId}
    (found : w.association? pattern id m = some m') : Visits w.source pattern.places m m' := by
  simp only [association?] at found
  split at found
  · cases found
  · simp only [Option.bind_eq_bind, Option.bind_eq_some_iff, Option.some.injEq] at found
    obtain ⟨typed, type, themed, scope, reified, reifier, full, roles, rfl⟩ := found
    have placed := (Visits.topic type).trans (Match.scope?_visits scope)
    have outer := placed.trans (Match.reifier?_visits reifier)
    exact (outer.trans (roles?_visits roles)).claim _

theorem extend_visits {subject : TopicId} {statement : Statement} {next : Match}
    (member : next ∈ w.extend subject statement m) : Visits w.source statement.places m next := by
  cases statement with
  | isa pattern =>
    obtain ⟨type, _, found⟩ := List.mem_filterMap.mp member
    exact relation?_visits found
  | ako pattern =>
    obtain ⟨supertype, _, found⟩ := List.mem_filterMap.mp member
    exact relation?_visits found
  | name pattern =>
    obtain ⟨id, _, found⟩ := List.mem_filterMap.mp member
    exact name?_visits (Option.ite_none_right_eq_some.mp found).2
  | occurrence pattern =>
    obtain ⟨id, _, found⟩ := List.mem_filterMap.mp member
    exact occurrence?_visits (Option.ite_none_right_eq_some.mp found).2
  | identifier kind pattern =>
    obtain ⟨iri, _, found⟩ := List.mem_filterMap.mp member
    have available := Option.ite_none_right_eq_some.mp found
    obtain ⟨bound, value, rfl⟩ := Option.map_eq_some_iff.mp available.2
    exact .claim (.value value) _
  | association pattern =>
    obtain ⟨id, _, found⟩ := List.mem_filterMap.mp member
    exact association?_visits (Option.ite_none_right_eq_some.mp found).2
  | variant _ | role _ | reifier _ | scope _ => cases member

theorem search_visits {subject : TopicId} {statements : List Statement}
    (found : w.search subject statements m = some m') :
    Visits w.source (statements.flatMap Statement.places) m m' := by
  induction statements generalizing m with
  | nil => exact Option.some.inj found ▸ .refl m
  | cons statement rest ih =>
    obtain ⟨next, member, later⟩ := List.exists_of_findSome?_eq_some found
    exact (extend_visits member).trans (ih later)

end Matcher

namespace Match

def Leaves (tokens : List String) (m m' : Match) : Prop :=
  ∀ token ∉ tokens, m'.find? token = m.find? token

theorem Leaves.trans {m'' : Match} {first second : List String} (before : Leaves first m m')
    (after : Leaves second m' m'') : Leaves (first ++ second) m m'' := by
  intro token other
  rw [List.mem_append, not_or] at other
  exact (after token other.2).trans (before token other.1)

theorem Leaves.mono {first second : List String} (leaves : Leaves first m m')
    (subset : first ⊆ second) : Leaves second m m' :=
  fun token other => leaves token fun member => other (subset member)

theorem topic?_leaves {pattern : TopicRef} {actual : TopicId}
    (found : m.topic? source pattern actual = some m') : Leaves pattern.tokens m m' := by
  intro token other
  cases pattern with
  | fixed id =>
    simp only [topic?, Option.ite_none_right_eq_some, Option.some.injEq] at found
    rw [found.2]
  | var name =>
    have differ : token ≠ name := fun same => other (List.mem_singleton.mpr same)
    simp only [topic?] at found
    split at found
    · simp only [Option.ite_none_right_eq_some, Option.some.injEq] at found
      rw [found.2]
    · cases found
    · simp only [Option.ite_none_left_eq_some, Option.some.injEq] at found
      rw [← found.2, find?_bind, if_neg differ]

theorem value?_leaves {pattern expected value datatype : String}
    (found : m.value? pattern expected value datatype = some m') :
    Leaves (valueTokens pattern) m m' := by
  intro token other
  unfold value? at found
  split at found
  · cases found
  · split at found
    · simp only [Option.ite_none_right_eq_some, Option.some.injEq] at found
      rw [found.2]
    · rename_i variable_
      have differ : token ≠ pattern := by
        rintro rfl
        rw [Bool.not_eq_true', Bool.not_eq_false] at variable_
        simp [valueTokens, variable_] at other
      split at found
      · simp only [Option.ite_none_right_eq_some, Option.some.injEq] at found
        rw [found.2]
      · cases found
      · rw [← Option.some.inj found, find?_bind, if_neg differ]

theorem Visits.leaves {places : List Place} (visits : Visits source places m m') :
    Leaves (places.flatMap Place.tokens) m m' := by
  induction visits with
  | refl m => exact fun _ _ => rfl
  | topic found =>
    rw [List.flatMap_singleton]
    exact topic?_leaves found
  | value found =>
    rw [List.flatMap_singleton]
    exact value?_leaves found
  | trans _ _ before after =>
    rw [List.flatMap_append]
    exact before.trans after
  | claim _ _ leaves => exact leaves

end Match

namespace Matcher

open Match (Leaves)

variable {w : Matcher}

theorem roles?_leaves {patterns : List RolePattern} {ids : List RoleId}
    (found : w.roles? patterns ids m = some m') :
    Leaves (patterns.flatMap RolePattern.tokens) m m' := by
  have leaves := (roles?_visits found).leaves
  simpa only [List.flatMap_assoc, RolePattern.tokens_places] using leaves

theorem association?_leaves {pattern : AssociationPattern} {id : AssociationId}
    (found : w.association? pattern id m = some m') : Leaves pattern.tokens m m' :=
  (association?_visits found).leaves.mono pattern.tokens_places_subset

theorem search_leaves {subject : TopicId} {statements : List Statement}
    (found : w.search subject statements m = some m') :
    Leaves (statements.flatMap Statement.tokens) m m' := by
  apply (search_visits found).leaves.mono
  intro token member
  rw [List.flatMap_assoc] at member
  obtain ⟨statement, inside, listed⟩ := List.mem_flatMap.mp member
  exact List.mem_flatMap.mpr ⟨statement, inside, statement.tokens_places_subset listed⟩

end Matcher
end CompactTopicMap
