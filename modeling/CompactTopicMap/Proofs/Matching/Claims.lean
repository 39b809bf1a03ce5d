import CompactTopicMap.Proofs.Matching.Bindings

namespace CompactTopicMap

variable {source : Source} {m m' : Match}

theorem perm_of_mem_picks {α : Type} {items others : List α} {item : α}
    (member : (item, others) ∈ picks items) : (item :: others).Perm items := by
  induction items generalizing others with
  | nil => cases member
  | cons first rest ih =>
    rcases List.mem_cons.mp member with here | later
    · obtain ⟨rfl, rfl⟩ := Prod.mk.inj here
      exact .refl _
    · obtain ⟨⟨picked, left⟩, inside, same⟩ := List.mem_map.mp later
      obtain ⟨rfl, rfl⟩ := Prod.mk.inj same
      exact (List.Perm.swap _ _ _).trans ((ih inside).cons first)

namespace Match

/-- A step of a match that binds variables and claims the given constructs. -/
structure Takes (source : Source) (m : Match) (taken : List Construct) (m' : Match) : Prop where
  grows : m.Grows source m'
  claims : m'.claims = taken ++ m.claims

theorem Binds.claim (binds : m.Binds source m') (c : Construct) :
    m.Takes source [c] (m'.claim c) :=
  ⟨binds.grows.trans (grows_claim source m' c), congrArg (c :: ·) binds.claims⟩

theorem Binds.takes {m'' : Match} {taken : List Construct} (first : m.Binds source m')
    (second : m'.Takes source taken m'') : m.Takes source taken m'' :=
  ⟨first.grows.trans second.grows, second.claims.trans (congrArg (taken ++ ·) first.claims)⟩

theorem Takes.nil : m.Takes source [] m :=
  ⟨.refl source m, rfl⟩

theorem Takes.trans {m'' : Match} {first second : List Construct}
    (before : m.Takes source first m') (after : m'.Takes source second m'') :
    m.Takes source (second ++ first) m'' := by
  refine ⟨before.grows.trans after.grows, ?_⟩
  rw [after.claims, before.claims, List.append_assoc]

theorem Takes.claim {taken : List Construct} (takes : m.Takes source taken m') (c : Construct) :
    m.Takes source (c :: taken) (m'.claim c) :=
  ⟨takes.grows.trans (grows_claim source m' c), congrArg (c :: ·) takes.claims⟩

end Match

namespace Matcher

variable {w : Matcher}

theorem available_iff {c : Construct} :
    w.available m c = true ↔ c ∉ w.written ∧ c ∉ m.claims := by
  simp [available]

theorem available_of_takes {taken : List Construct} {c : Construct}
    (takes : m.Takes source taken m') (available : w.available m' c) : w.available m c := by
  rw [available_iff] at *
  refine ⟨available.1, fun claimed => available.2 ?_⟩
  rw [takes.claims]
  exact List.mem_append_right taken claimed

theorem variant?_spec {pattern : VariantPattern} {id : VariantId}
    (found : w.variant? pattern id m = some m') :
    w.available m (.variant id) ∧ m.Takes w.source [.variant id] m' ∧
      pattern.Denotes m' (w.source.variant id) := by
  unfold variant? at found
  split at found
  · rename_i available
    simp only [Option.bind_eq_bind, Option.bind_eq_some_iff, Option.some.injEq] at found
    rcases found with ⟨valued, hvalue, themed, hscope, reified, hreifier, rfl⟩
    have value := Match.value?_spec w.source hvalue
    have scope := Match.scope?_spec hscope
    have reifier := Match.reifier?_spec hreifier
    have last := Match.grows_claim w.source reified (.variant id)
    have late := reifier.1.grows.trans last
    refine ⟨available, ((value.1.trans scope.1).trans reifier.1).claim _, ?_⟩
    exact {
      value := value.2.2.grow (scope.1.grows.trans late)
      datatype := value.2.1
      scope := scope.2.grow late
      reifier := reifier.2.grow last }
  · cases found

theorem variants?_spec {patterns : List VariantPattern} {ids : List VariantId}
    (found : w.variants? patterns ids m = some m') :
    (∀ id ∈ ids, w.available m (.variant id)) ∧
      m.Takes w.source (ids.reverse.map .variant) m' ∧
      List.Forall₂ (fun p id => p.Denotes m' (w.source.variant id)) patterns ids := by
  induction patterns generalizing ids m with
  | nil =>
    cases ids with
    | nil =>
      obtain rfl := Option.some.inj found
      exact ⟨by simp, .nil, .nil⟩
    | cons id ids => cases found
  | cons pattern patterns ih =>
    cases ids with
    | nil => cases found
    | cons id ids =>
      obtain ⟨middle, first, rest⟩ := Option.bind_eq_some_iff.mp found
      obtain ⟨available, takes, denotes⟩ := variant?_spec first
      obtain ⟨othersAvailable, othersTaken, othersDenote⟩ := ih rest
      refine ⟨?_, ?_, .cons (denotes.grow othersTaken.grows) othersDenote⟩
      · intro other member
        rcases List.mem_cons.mp member with rfl | member
        · exact available
        · exact available_of_takes takes (othersAvailable other member)
      · simpa using takes.trans othersTaken

theorem name?_spec {pattern : NamePattern} {id : NameId}
    (found : w.name? pattern id m = some m') :
    (∀ v ∈ (w.source.name id).variants, w.available m (.variant v)) ∧
      m.Takes w.source (.name id :: (w.source.name id).variants.reverse.map .variant) m' ∧
      pattern.Denotes w.source m' (w.source.name id) := by
  simp only [name?, Option.bind_eq_bind, Option.bind_eq_some_iff, Option.some.injEq] at found
  obtain ⟨typed, htype, valued, hvalue, themed, hscope, reified, hreifier, full, hvariants, rfl⟩ :=
    found
  have type := Match.topic?_spec htype
  have value := Match.value?_spec w.source hvalue
  have scope := Match.scope?_spec hscope
  have reifier := Match.reifier?_spec hreifier
  obtain ⟨available, taken, variants⟩ := variants?_spec hvariants
  have bound := ((type.1.trans value.1).trans scope.1).trans reifier.1
  have last := Match.grows_claim w.source full (.name id)
  have late := taken.grows.trans last
  have later := reifier.1.grows.trans late
  have latest := scope.1.grows.trans later
  refine ⟨fun v member => ?_, (bound.takes taken).claim _, ?_⟩
  · have here := available v member
    rwa [available_iff, bound.claims, ← available_iff] at here
  · exact {
      type := type.2.grow (value.1.grows.trans latest)
      value := value.2.2.grow latest
      scope := scope.2.grow later
      reifier := reifier.2.grow late
      variants := variants.imp fun _ _ denotes => denotes.grow last }

theorem occurrence?_spec {pattern : OccurrencePattern} {id : OccurrenceId}
    (found : w.occurrence? pattern id m = some m') :
    m.Takes w.source [.occurrence id] m' ∧ pattern.Denotes m' (w.source.occurrence id) := by
  simp only [occurrence?, Option.bind_eq_bind, Option.bind_eq_some_iff, Option.some.injEq] at found
  rcases found with ⟨typed, htype, valued, hvalue, themed, hscope, reified, hreifier, rfl⟩
  have type := Match.topic?_spec htype
  have value := Match.value?_spec w.source hvalue
  have scope := Match.scope?_spec hscope
  have reifier := Match.reifier?_spec hreifier
  have last := Match.grows_claim w.source reified (.occurrence id)
  have late := reifier.1.grows.trans last
  have later := scope.1.grows.trans late
  refine ⟨(((type.1.trans value.1).trans scope.1).trans reifier.1).claim _, ?_⟩
  exact {
    type := type.2.grow (value.1.grows.trans later)
    value := value.2.2.grow later
    datatype := value.2.1
    scope := scope.2.grow late
    reifier := reifier.2.grow last }

theorem role?_spec {pattern : RolePattern} {id : RoleId}
    (found : w.role? pattern id m = some m') :
    m.Takes w.source [.role id] m' ∧ pattern.Denotes m' (w.source.role id) := by
  simp only [role?, Option.bind_eq_bind, Option.bind_eq_some_iff, Option.some.injEq] at found
  rcases found with ⟨typed, htype, played, hplayer, reified, hreifier, rfl⟩
  have type := Match.topic?_spec htype
  have player := Match.topic?_spec hplayer
  have reifier := Match.reifier?_spec hreifier
  have last := Match.grows_claim w.source reified (.role id)
  have late := reifier.1.grows.trans last
  refine ⟨((type.1.trans player.1).trans reifier.1).claim _, ?_⟩
  exact {
    type := type.2.grow (player.1.grows.trans late)
    player := player.2.grow late
    reifier := reifier.2.grow last }

theorem roles?_spec {patterns : List RolePattern} {ids : List RoleId}
    (found : w.roles? patterns ids m = some m') :
    ∃ chosen others : List RoleId, (chosen ++ others).Perm ids ∧
      m.Takes w.source (chosen.reverse.map .role) m' ∧
      List.Forall₂ (fun p id => p.Denotes m' (w.source.role id)) patterns chosen := by
  induction patterns generalizing ids m with
  | nil =>
    obtain rfl := Option.some.inj found
    exact ⟨[], ids, .refl _, .nil, .nil⟩
  | cons pattern patterns ih =>
    obtain ⟨⟨id, others⟩, picked, step⟩ := List.exists_of_findSome?_eq_some found
    obtain ⟨middle, first, rest⟩ := Option.bind_eq_some_iff.mp step
    obtain ⟨takes, denotes⟩ := role?_spec first
    obtain ⟨chosen, left, perm, taken, denote⟩ := ih rest
    refine ⟨id :: chosen, left, ?_, ?_, .cons (denotes.grow taken.grows) denote⟩
    · exact (perm.cons id).trans (perm_of_mem_picks picked)
    · simpa using takes.trans taken

theorem association?_spec {pattern : AssociationPattern} {id : AssociationId}
    (found : w.association? pattern id m = some m') :
    ∃ chosen : List RoleId, chosen.Perm (w.source.association id).roles ∧
      m.Takes w.source (.association id :: chosen.map .role) m' ∧
      pattern.Denotes w.source m' (w.source.association id) := by
  simp only [association?] at found
  split at found
  · cases found
  rename_i sameLength
  simp only [Option.bind_eq_bind, Option.bind_eq_some_iff, Option.some.injEq] at found
  rcases found with ⟨typed, htype, themed, hscope, reified, hreifier, full, hroles, rfl⟩
  have type := Match.topic?_spec htype
  have scope := Match.scope?_spec hscope
  have reifier := Match.reifier?_spec hreifier
  obtain ⟨chosen, others, perm, taken, denote⟩ := roles?_spec hroles
  have none_left : others = [] := by
    have lengths := perm.length_eq
    have patterned := denote.length_eq
    rw [List.length_append] at lengths
    exact List.eq_nil_of_length_eq_zero (by omega)
  subst none_left
  rw [List.append_nil] at perm
  have last := Match.grows_claim w.source full (.association id)
  have late := taken.grows.trans last
  have later := reifier.1.grows.trans late
  refine ⟨chosen.reverse, chosen.reverse_perm.trans perm, ?_, ?_⟩
  · exact (((type.1.trans scope.1).trans reifier.1).takes taken).claim _
  · exact {
      type := type.2.grow (scope.1.grows.trans later)
      scope := scope.2.grow later
      reifier := reifier.2.grow late
      roles := ⟨chosen, perm, denote.imp fun _ _ denotes => denotes.grow last⟩ }

/-- What a statement about the subject stands for under the bindings of a match. -/
inductive Stands (w : Matcher) (subject : TopicId) (m : Match) : Statement → List Construct → Prop
  | isa {pattern : TopicRef} {type : TopicId} (member : type ∈ w.typing.typesOf w.source subject)
      (denotes : pattern.Denotes m type) : Stands w subject m (.isa pattern) [.typing subject type]
  | ako {pattern : TopicRef} {supertype : TopicId}
      (member : supertype ∈ w.typing.supertypesOf subject)
      (denotes : pattern.Denotes m supertype) :
      Stands w subject m (.ako pattern) [.subtyping subject supertype]
  | name {pattern : NamePattern} {id : NameId} (member : id ∈ (w.source.topic subject).names)
      (denotes : pattern.Denotes w.source m (w.source.name id)) :
      Stands w subject m (.name pattern)
        (.name id :: (w.source.name id).variants.reverse.map .variant)
  | occurrence {pattern : OccurrencePattern} {id : OccurrenceId}
      (member : id ∈ (w.source.topic subject).occurrences)
      (denotes : pattern.Denotes m (w.source.occurrence id)) :
      Stands w subject m (.occurrence pattern) [.occurrence id]
  | identifier {kind : LocatorKind} {pattern iri : String}
      (member : iri ∈ (w.source.topic subject).locators kind)
      (denotes : ValueDenotes m pattern iri) :
      Stands w subject m (.identifier kind pattern) [.locator subject kind iri]
  | association {pattern : AssociationPattern} {id : AssociationId} {chosen : List RoleId}
      (member : id ∈ w.source.associationIds) (unfolded : w.typing.isFolded id = false)
      (perm : chosen.Perm (w.source.association id).roles)
      (denotes : pattern.Denotes w.source m (w.source.association id)) :
      Stands w subject m (.association pattern) (.association id :: chosen.map .role)

theorem Stands.congr {subject : TopicId} {statement : Statement}
    {taken : List Construct} (stands : w.Stands subject m statement taken)
    (keeps : ∀ token ∈ statement.tokens, m.KeepsAt m' token) :
    w.Stands subject m' statement taken := by
  cases stands with
  | isa member denotes => exact .isa member (denotes.congr keeps)
  | ako member denotes => exact .ako member (denotes.congr keeps)
  | name member denotes => exact .name member (denotes.congr keeps)
  | occurrence member denotes => exact .occurrence member (denotes.congr keeps)
  | identifier member denotes => exact .identifier member (denotes.congr keeps)
  | association member unfolded perm denotes =>
    exact .association member unfolded perm (denotes.congr keeps)

theorem Stands.grow {subject : TopicId} {statement : Statement} {taken : List Construct}
    (stands : w.Stands subject m statement taken) (grows : m.Grows w.source m') :
    w.Stands subject m' statement taken :=
  stands.congr fun token _ => grows.keepsAt token

theorem Stands.bound {subject : TopicId} {statement : Statement} {taken : List Construct}
    {token : String} (stands : w.Stands subject m statement taken)
    (member : token ∈ statement.tokens) : m.IsBound token := by
  cases stands with
  | isa _ denotes => exact denotes.bound member
  | ako _ denotes => exact denotes.bound member
  | name _ denotes => exact denotes.bound member
  | occurrence _ denotes => exact denotes.bound member
  | identifier _ denotes => exact denotes.bound member
  | association _ _ _ denotes => exact denotes.bound member

/-- How a statement extended a match: what it stands for was claimed, and was available unless it is
a role. -/
structure Extends (w : Matcher) (subject : TopicId) (statement : Statement) (m next : Match)
    (taken : List Construct) : Prop where
  stands : w.Stands subject next statement taken
  takes : m.Takes w.source taken next
  available : ∀ c ∈ taken, w.available m c ∨ ∃ role, c = .role role

theorem relation?_spec {c : Construct} {pattern : TopicRef} {actual : TopicId}
    (found : w.relation? m c pattern actual = some m') :
    w.available m c ∧ m.Takes w.source [c] m' ∧ pattern.Denotes m' actual := by
  unfold relation? at found
  split at found
  · rename_i available
    obtain ⟨bound, topic, rfl⟩ := Option.map_eq_some_iff.mp found
    have spec := Match.topic?_spec topic
    exact ⟨available, spec.1.claim c, spec.2.grow (Match.grows_claim w.source bound c)⟩
  · cases found

theorem extend_spec {subject : TopicId} {statement : Statement} {next : Match}
    (member : next ∈ w.extend subject statement m) :
    ∃ taken, w.Extends subject statement m next taken := by
  cases statement with
  | isa pattern =>
    obtain ⟨type, inside, found⟩ := List.mem_filterMap.mp member
    obtain ⟨available, takes, denotes⟩ := relation?_spec found
    exact ⟨_, .isa inside denotes, takes, by simp [available]⟩
  | ako pattern =>
    obtain ⟨supertype, inside, found⟩ := List.mem_filterMap.mp member
    obtain ⟨available, takes, denotes⟩ := relation?_spec found
    exact ⟨_, .ako inside denotes, takes, by simp [available]⟩
  | name pattern =>
    obtain ⟨id, inside, found⟩ := List.mem_filterMap.mp member
    split at found
    · rename_i available
      obtain ⟨variants, takes, denotes⟩ := name?_spec found
      refine ⟨_, .name inside denotes, takes, ?_⟩
      intro c claimed
      rcases List.mem_cons.mp claimed with rfl | claimed
      · exact .inl available
      · obtain ⟨v, own, rfl⟩ := List.mem_map.mp claimed
        exact .inl (variants v (List.mem_reverse.mp own))
    · cases found
  | occurrence pattern =>
    obtain ⟨id, inside, found⟩ := List.mem_filterMap.mp member
    split at found
    · rename_i available
      obtain ⟨takes, denotes⟩ := occurrence?_spec found
      exact ⟨_, .occurrence inside denotes, takes, by simp [available]⟩
    · cases found
  | identifier kind pattern =>
    obtain ⟨iri, inside, found⟩ := List.mem_filterMap.mp member
    simp only at found
    split at found
    · rename_i available
      obtain ⟨bound, value, rfl⟩ := Option.map_eq_some_iff.mp found
      have spec := Match.value?_spec w.source value
      have denotes := spec.2.2.grow (Match.grows_claim w.source bound (.locator subject kind iri))
      exact ⟨_, .identifier inside denotes, spec.1.claim _, by simp [available]⟩
    · cases found
  | association pattern =>
    obtain ⟨id, inside, found⟩ := List.mem_filterMap.mp member
    split at found
    · rename_i isOpen
      simp only [Matcher.isOpen, Bool.and_eq_true, Bool.not_eq_true'] at isOpen
      obtain ⟨chosen, perm, takes, denotes⟩ := association?_spec found
      refine ⟨_, .association inside isOpen.2 perm denotes, takes, ?_⟩
      intro c claimed
      rcases List.mem_cons.mp claimed with rfl | claimed
      · exact .inl isOpen.1
      · obtain ⟨role, _, rfl⟩ := List.mem_map.mp claimed
        exact .inr ⟨role, rfl⟩
    · cases found
  | variant _ | role _ | reifier _ | scope _ => cases member

theorem search_induction {Keeps : Match → Prop} {subject : TopicId} {statements : List Statement}
    (step : ∀ {statement m next taken}, w.Extends subject statement m next taken →
      Keeps m → Keeps next)
    (found : w.search subject statements m = some m') (start : Keeps m) : Keeps m' := by
  induction statements generalizing m with
  | nil =>
    obtain rfl := Option.some.inj found
    exact start
  | cons statement rest ih =>
    obtain ⟨next, member, later⟩ := List.exists_of_findSome?_eq_some found
    obtain ⟨taken, extended⟩ := extend_spec member
    exact ih later (step extended start)

theorem search_spec {subject : TopicId} {statements : List Statement}
    (found : w.search subject statements m = some m') :
    ∃ groups : List (List Construct), List.Forall₂ (w.Stands subject m') statements groups ∧
      m.Takes w.source groups.reverse.flatten m' := by
  induction statements generalizing m with
  | nil =>
    obtain rfl := Option.some.inj found
    exact ⟨[], .nil, .nil⟩
  | cons statement rest ih =>
    obtain ⟨next, member, later⟩ := List.exists_of_findSome?_eq_some found
    obtain ⟨taken, extended⟩ := extend_spec member
    obtain ⟨groups, stand, takes⟩ := ih later
    refine ⟨taken :: groups, .cons (extended.stands.grow takes.grows) stand, ?_⟩
    simpa using extended.takes.trans takes

theorem matchTopic?_eq_some {t : Template} {subject : TopicId} :
    w.matchTopic? t subject = some m ↔
      t.kind = .topic ∧ w.search subject t.flattened (.ofSubject subject) = some m := by
  simp [matchTopic?]

theorem matchTopic?_claims {t : Template} {subject : TopicId}
    (found : w.matchTopic? t subject = some m) {c : Construct} (claimed : c ∈ m.claims) :
    ∃ statement ∈ t.flattened, ∃ taken, w.Stands subject m statement taken ∧ c ∈ taken := by
  obtain ⟨_, search⟩ := matchTopic?_eq_some.mp found
  obtain ⟨groups, stand, takes⟩ := search_spec search
  rw [takes.claims, List.mem_append] at claimed
  rcases claimed with grouped | impossible
  · obtain ⟨group, member, inside⟩ := List.mem_flatten.mp grouped
    obtain ⟨statement, listed, stands⟩ := exists_of_mem_forall₂ stand (List.mem_reverse.mp member)
    exact ⟨statement, listed, group, stands, inside⟩
  · cases impossible

theorem matchAssociation?_spec {t : Template} {id : AssociationId}
    (found : w.matchAssociation? t id = some m) :
    ∃ pattern, t.kind = .association ∧ t.entries = [.statement (.association pattern)] ∧
      w.isOpen {} id ∧ w.association? pattern id {} = some m := by
  unfold matchAssociation? at found
  split at found
  · rename_i pattern kind entries
    simp only [Option.ite_none_right_eq_some] at found
    exact ⟨pattern, kind, entries, found⟩
  · cases found

end Matcher
end CompactTopicMap
