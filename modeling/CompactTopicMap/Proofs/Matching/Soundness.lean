import CompactTopicMap.Proofs.AtMostOnce

namespace CompactTopicMap

def Source.parts (source : Source) : Construct → List Construct
  | .name id => (source.name id).variants.map .variant
  | .association id => (source.association id).roles.map .role
  | _ => []

def Source.whole (source : Source) (c : Construct) : List Construct := c :: source.parts c

namespace Session

/-- A statement about the subject asserts a construct: with the bindings of the match in the place of
its variables, it is what the graph holds there. -/
inductive Asserts (s : Session) (subject : TopicId) (m : Match) : Statement → Construct → Prop
  | isa {pattern : TopicRef} {type : TopicId} (own : type ∈ s.typesOf subject)
    (denotes : pattern.Denotes m type) : Asserts s subject m (.isa pattern) (.typing subject type)
  | ako {pattern : TopicRef} {supertype : TopicId} (own : supertype ∈ s.supertypesOf subject)
    (denotes : pattern.Denotes m supertype) :
    Asserts s subject m (.ako pattern) (.subtyping subject supertype)
  | name {pattern : NamePattern} {id : NameId} (own : id ∈ (s.source.topic subject).names)
    (denotes : pattern.Denotes s.source m (s.source.name id)) :
    Asserts s subject m (.name pattern) (.name id)
  | occurrence {pattern : OccurrencePattern} {id : OccurrenceId}
    (own : id ∈ (s.source.topic subject).occurrences)
    (denotes : pattern.Denotes m (s.source.occurrence id)) :
    Asserts s subject m (.occurrence pattern) (.occurrence id)
  | identifier {kind : LocatorKind} {pattern iri : String}
    (own : iri ∈ (s.source.topic subject).locators kind) (denotes : ValueDenotes m pattern iri) :
    Asserts s subject m (.identifier kind pattern) (.locator subject kind iri)
  | association {pattern : AssociationPattern} {id : AssociationId}
    (listed : id ∈ s.source.associationIds) (unfolded : s.typing.isFolded id = false)
    (denotes : pattern.Denotes s.source m (s.source.association id)) :
    Asserts s subject m (.association pattern) (.association id)

/-- The progress that writing and extracting arguments lead to, in any order. -/
inductive Reached (s : Session) : Progress → Prop
  | fresh : Reached s {}
  | write {p : Progress} (reached : Reached s p) (call : WriteCall) : Reached s (s.perform p call).1
  | extractTopic {p : Progress} (reached : Reached s p) (t : Template) (id : TopicId) :
    Reached s (s.extractTopic p t id).1
  | extractAssociation {p : Progress} (reached : Reached s p) (t : Template) (id : AssociationId) :
    Reached s (s.extractAssociation p t id).1

variable {s : Session} {p : Progress} {m : Match} {subject : TopicId}

theorem asserts_of_stands {statement : Statement} {taken : List Construct}
    (stands : (s.matcher p).Stands subject m statement taken) :
    ∃ c, s.Asserts subject m statement c ∧ taken.Perm (s.source.whole c) := by
  cases stands with
  | isa own denotes => exact ⟨_, .isa own denotes, .refl _⟩
  | ako own denotes => exact ⟨_, .ako own denotes, .refl _⟩
  | @name pattern id own denotes =>
    refine ⟨_, .name own denotes, ?_⟩
    exact ((List.reverse_perm _).map Construct.variant).cons (.name id)
  | occurrence own denotes => exact ⟨_, .occurrence own denotes, .refl _⟩
  | identifier own denotes => exact ⟨_, .identifier own denotes, .refl _⟩
  | @association pattern id chosen listed unfolded perm denotes =>
    refine ⟨_, .association listed unfolded denotes, ?_⟩
    exact (perm.map Construct.role).cons (.association id)

theorem assert_of_stand {statements : List Statement} {groups : List (List Construct)}
    (stand : List.Forall₂ ((s.matcher p).Stands subject m) statements groups) :
    ∃ constructs, List.Forall₂ (s.Asserts subject m) statements constructs ∧
      groups.flatten.Perm (constructs.flatMap s.source.whole) := by
  induction stand with
  | nil => exact ⟨[], .nil, .refl _⟩
  | cons here _ ih =>
    obtain ⟨c, asserts, perm⟩ := asserts_of_stands here
    obtain ⟨constructs, others, perms⟩ := ih
    refine ⟨c :: constructs, .cons asserts others, ?_⟩
    rw [List.flatten_cons, List.flatMap_cons]
    exact perm.append perms

theorem sublist_flatMap_whole (source : Source) (constructs : List Construct) :
    constructs.Sublist (constructs.flatMap source.whole) := by
  induction constructs with
  | nil => exact .slnil
  | cons c constructs ih =>
    rw [List.flatMap_cons, Source.whole, List.cons_append]
    exact .cons_cons c (ih.trans (List.sublist_append_right _ _))

section Reaching

theorem rolesFollow_mark {source : Source} {p : Progress} {c : Construct}
    (follow : source.RolesFollow (· ∈ p.written)) (plain : ∀ role, c ≠ .role role) :
    source.RolesFollow (· ∈ (p.mark c).written) := by
  have one : source.RolesFollow (· = c) := .of_no_role fun role same => plain role same.symm
  have both := one.union follow
  simpa only [Progress.mark, Written.mem_insert] using both

theorem rolesFollow_markAll {source : Source} {p : Progress} {cs : List Construct}
    (follow : source.RolesFollow (· ∈ p.written)) (claimed : source.RolesFollow (· ∈ cs)) :
    source.RolesFollow (· ∈ (p.markAll cs).written) := by
  have both := claimed.union follow
  simpa only [Progress.markAll, Written.mem_insertAll] using both

theorem writeTopic_rolesFollow (sound : s.source.map.Sound) (id : TopicId)
    (follow : s.source.RolesFollow (· ∈ p.written)) :
    s.source.RolesFollow (· ∈ (s.writeTopic p id).1.written) := by
  rw [writeTopic_eq_trace, traceTopic]
  split
  · exact follow
  · cases s.identity? id with
    | none => exact follow
    | some identity =>
      have marked : s.source.RolesFollow
          (· ∈ (p.mark (.locator id identity.kind identity.iri)).written) :=
        rolesFollow_mark follow fun role same => by cases same
      have invoked := traceTemplates_chain sound id s.templates _ marked
      have typed := invoked.append (s.traceTypes_chain id _)
      exact (typed.append (s.traceCharacteristics_chain id _)).rolesFollow marked

theorem writeAssociation_rolesFollow (sound : s.source.map.Sound) (id : AssociationId)
    (follow : s.source.RolesFollow (· ∈ p.written)) :
    s.source.RolesFollow (· ∈ (s.writeAssociation p id).1.written) := by
  rw [writeAssociation_eq_trace]
  exact (traceAssociation_chain sound p id follow).rolesFollow follow

theorem extractTopic_rolesFollow (sound : s.source.map.Sound) (t : Template) (id : TopicId)
    (follow : s.source.RolesFollow (· ∈ p.written)) :
    s.source.RolesFollow (· ∈ (s.extractTopic p t id).1.written) := by
  cases found : (s.matcher p).matchTopic? t id with
  | none =>
    rw [extractTopic, found]
    exact follow
  | some m =>
    obtain ⟨arguments, extracted, _⟩ := extractTopic_ok found
    have clean := Matcher.matchTopic?_clean (w := s.matcher p) sound follow found
    rw [extracted]
    exact rolesFollow_markAll follow clean.roles

theorem extractAssociation_rolesFollow (sound : s.source.map.Sound) (t : Template)
    (id : AssociationId) (follow : s.source.RolesFollow (· ∈ p.written)) :
    s.source.RolesFollow (· ∈ (s.extractAssociation p t id).1.written) := by
  cases found : (s.matcher p).matchAssociation? t id with
  | none =>
    rw [extractAssociation, found]
    exact follow
  | some m =>
    obtain ⟨arguments, extracted, _⟩ := extractAssociation_ok found
    have clean := Matcher.matchAssociation?_clean (w := s.matcher p) sound follow found
    rw [extracted]
    exact rolesFollow_markAll follow clean.roles

theorem Reached.rolesFollow (reached : s.Reached p) (sound : s.source.map.Sound) :
    s.source.RolesFollow (· ∈ p.written) := by
  induction reached with
  | fresh => exact .of_no_role fun role => Written.not_mem_empty _
  | write _ call ih =>
    cases call with
    | topic id => exact writeTopic_rolesFollow sound id ih
    | association id => exact writeAssociation_rolesFollow sound id ih
  | extractTopic _ t id ih => exact extractTopic_rolesFollow sound t id ih
  | extractAssociation _ t id ih => exact extractAssociation_rolesFollow sound t id ih

end Reaching

theorem matchTopic?_asserts {t : Template} (found : (s.matcher p).matchTopic? t subject = some m) :
    ∃ constructs, List.Forall₂ (s.Asserts subject m) t.flattened constructs ∧
      m.claims.Perm (constructs.flatMap s.source.whole) := by
  obtain ⟨_, search⟩ := Matcher.matchTopic?_eq_some.mp found
  obtain ⟨groups, stand, takes⟩ := Matcher.search_spec search
  obtain ⟨constructs, asserted, perm⟩ := assert_of_stand stand
  have claims : m.claims = groups.reverse.flatten := takes.claims.trans (List.append_nil _)
  refine ⟨constructs, asserted, ?_⟩
  rw [claims]
  exact (List.reverse_perm groups).flatten.trans perm

/-- A match of a topic template binds the subject, and its claims are distinct, unwritten, and made
up of one construct for each statement with the parts of these constructs. What an extraction of the
arguments marks is what was claimed. -/
theorem matchTopic?_sound (s : Session) (built : s.source.map.Built) {p : Progress}
    (reached : s.Reached p) {t : Template} {subject : TopicId} {m : Match}
    (found : (s.matcher p).matchTopic? t subject = some m) :
    m.find? subjectToken = some (.topic subject) ∧
      m.claims.Nodup ∧ (∀ c ∈ m.claims, c ∉ p.written) ∧
      (∃ constructs, List.Forall₂ (s.Asserts subject m) t.flattened constructs ∧
        constructs.Nodup ∧ m.claims.Perm (constructs.flatMap s.source.whole)) ∧
      ∃ q arguments, s.extractTopic p t subject = (q, .ok arguments) ∧
        ∀ c, c ∈ q.written ↔ c ∈ m.claims ∨ c ∈ p.written := by
  obtain ⟨_, search⟩ := Matcher.matchTopic?_eq_some.mp found
  obtain ⟨_, _, takes⟩ := Matcher.search_spec search
  have clean := Matcher.matchTopic?_clean (w := s.matcher p) built.sound
    (reached.rolesFollow built.sound) found
  obtain ⟨constructs, asserted, claims⟩ := matchTopic?_asserts found
  refine ⟨?_, clean.distinct, clean.fresh, ⟨constructs, asserted, ?_, claims⟩, ?_⟩
  · apply takes.grows.keeps
    rw [Match.find?_ofSubject, if_pos rfl]
  · exact (claims.nodup_iff.mp clean.distinct).sublist (sublist_flatMap_whole _ _)
  · obtain ⟨arguments, extracted, _⟩ := extractTopic_ok found
    exact ⟨_, arguments, extracted, fun c => Written.mem_insertAll⟩

def namedLoopTemplate : Template :=
  ⟨"named-loop", .topic,
    .statement (.name {
      type := .var "$kind"
      value := "$label"
      variants := [⟨"$short", Iri.string, some [.var subjectToken], none⟩] }) ::
    [.group loopTemplate.entries]⟩

def namedLoopMatch : Match where
  bindings := [("$type", .topic ⟨0⟩), ("$short", .literal "village" Iri.string),
    ("$label", .literal "Village" Iri.string), ("$kind", .topic ⟨0⟩), (subjectToken, .topic ⟨0⟩)]
  claims := [.association ⟨0⟩, .role ⟨0⟩, .name ⟨0⟩, .variant ⟨0⟩]

theorem village_matched :
    let p := (villageSession.perform {} (.topic ⟨1⟩)).1
    (villageSession.matcher p).matchTopic? namedLoopTemplate ⟨0⟩ = some namedLoopMatch ∧
      namedLoopMatch.claims.Nodup ∧
      ∃ constructs : List Construct, constructs.Nodup ∧
        namedLoopMatch.claims.Perm (constructs.flatMap villageSession.source.whole) := by
  have found : (villageSession.matcher (villageSession.perform {} (.topic ⟨1⟩)).1).matchTopic?
      namedLoopTemplate ⟨0⟩ = some namedLoopMatch := by rfl
  obtain ⟨_, distinct, _, ⟨constructs, _, apart, claims⟩, _⟩ :=
    matchTopic?_sound villageSession village_built (.write .fresh (.topic ⟨1⟩)) found
  exact ⟨found, distinct, constructs, apart, claims⟩

end Session
end CompactTopicMap
