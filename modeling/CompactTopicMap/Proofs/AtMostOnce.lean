import CompactTopicMap.Proofs.Built
import CompactTopicMap.Proofs.Tracing

/-!
A role is claimed without a test. It is fresh all the same, since it is never held without its
association, which is tested.
-/

namespace CompactTopicMap

def Source.RolesFollow (source : Source) (held : Construct → Prop) : Prop :=
  ∀ association, ∀ role ∈ (source.association association).roles,
    held (.role role) → held (.association association)

namespace Source.RolesFollow

variable {source : Source} {held : Construct → Prop}

theorem union {others : Construct → Prop} (follow : source.RolesFollow held)
    (followToo : source.RolesFollow others) :
    source.RolesFollow fun c => held c ∨ others c := by
  intro association role member either
  rcases either with first | second
  · exact .inl (follow association role member first)
  · exact .inr (followToo association role member second)

theorem of_no_role (none : ∀ role, ¬ held (.role role)) : source.RolesFollow held := by
  intro association role _ present
  exact absurd present (none role)

variable {id : AssociationId} {chosen : List RoleId}

/-- An association that is not held is fresh together with its roles. -/
theorem fresh (follow : source.RolesFollow held) (absent : ¬ held (.association id))
    (perm : chosen.Perm (source.association id).roles) :
    ∀ c ∈ .association id :: chosen.map Construct.role, ¬ held c := by
  intro c member present
  rcases List.mem_cons.mp member with rfl | member
  · exact absent present
  · obtain ⟨role, inside, rfl⟩ := List.mem_map.mp member
    exact absent (follow id role (perm.mem_iff.mp inside) present)

theorem association (sound : source.map.Sound)
    (perm : chosen.Perm (source.association id).roles) :
    source.RolesFollow (· ∈ .association id :: chosen.map Construct.role) := by
  intro other role member present
  have inside : role ∈ (source.association id).roles := by
    have chosen : role ∈ chosen := by simpa using present
    exact perm.mem_iff.mp chosen
  have same : other = id := by
    rw [← sound.role_parent member, ← sound.role_parent inside]
  simp [same]

end Source.RolesFollow

theorem association_nodup {source : Source} (sound : source.map.Sound) {id : AssociationId}
    {chosen : List RoleId} (perm : chosen.Perm (source.association id).roles) :
    (.association id :: chosen.map Construct.role).Nodup := by
  have distinct : chosen.Nodup := perm.nodup_iff.mpr (sound.roles_nodup id)
  refine List.nodup_cons.mpr ⟨by simp, distinct.map ?_⟩
  intro first second same
  exact Construct.role.inj same

namespace Matcher

variable {w : Matcher} {subject : Option TopicId} {m next : Match}

/-- A match claims nothing twice and nothing that is written, roles with their associations, and
locators of its subject alone. -/
structure Clean (w : Matcher) (subject : Option TopicId) (m : Match) : Prop where
  distinct : m.claims.Nodup
  fresh : ∀ c ∈ m.claims, c ∉ w.written
  roles : w.source.RolesFollow (· ∈ m.claims)
  locators : ∀ {topic kind iri}, .locator topic kind iri ∈ m.claims → some topic = subject

theorem Clean.of_claims_nil (none : m.claims = []) : w.Clean subject m where
  distinct := none ▸ List.nodup_nil
  fresh := by simp [none]
  roles := .of_no_role (by simp [none])
  locators := by simp [none]

theorem Clean.add {taken : List Construct} (clean : w.Clean subject m)
    (claims : next.claims = taken ++ m.claims) (distinct : taken.Nodup)
    (fresh : ∀ c ∈ taken, c ∉ w.written ∧ c ∉ m.claims)
    (roles : w.source.RolesFollow (· ∈ taken))
    (locators : ∀ {topic kind iri}, .locator topic kind iri ∈ taken → some topic = subject) :
    w.Clean subject next where
  distinct := by
    rw [claims, List.nodup_append]
    refine ⟨distinct, clean.distinct, ?_⟩
    intro c new d old same
    exact (fresh c new).2 (same ▸ old)
  fresh := by
    intro c member
    rw [claims, List.mem_append] at member
    rcases member with new | old
    · exact (fresh c new).1
    · exact clean.fresh c old
  roles := by
    have both := roles.union clean.roles
    simpa only [claims, List.mem_append] using both
  locators := by
    intro topic kind iri member
    rw [claims, List.mem_append] at member
    rcases member with new | old
    · exact locators new
    · exact clean.locators old

theorem Extends.clean {topic : TopicId} {statement : Statement} {taken : List Construct}
    (sound : w.source.map.Sound) (held : w.source.RolesFollow (· ∈ w.written))
    (extended : w.Extends topic statement m next taken) (clean : w.Clean (some topic) m) :
    w.Clean (some topic) next := by
  have available : ∀ c ∈ taken, (∀ role, c ≠ .role role) → c ∉ w.written ∧ c ∉ m.claims := by
    intro c member other
    rcases extended.available c member with free | ⟨role, same⟩
    · exact available_iff.mp free
    · exact absurd same (other role)
  cases extended.stands with
  | isa =>
    exact clean.add extended.takes.claims (by simp) (by simpa using available)
      (.of_no_role (by simp)) (by simp)
  | ako =>
    exact clean.add extended.takes.claims (by simp) (by simpa using available)
      (.of_no_role (by simp)) (by simp)
  | @name pattern id member denotes =>
    refine clean.add extended.takes.claims ?_ ?_ (.of_no_role (by simp)) (by simp)
    · refine List.nodup_cons.mpr ⟨by simp, ?_⟩
      refine (List.nodup_reverse.mpr (sound.variants_nodup id)).map ?_
      intro first second same
      exact Construct.variant.inj same
    · intro c new
      apply available c new
      rintro role rfl
      simp at new
  | occurrence =>
    exact clean.add extended.takes.claims (by simp) (by simpa using available)
      (.of_no_role (by simp)) (by simp)
  | identifier =>
    exact clean.add extended.takes.claims (by simp) (by simpa using available)
      (.of_no_role (by simp)) (by simp +contextual)
  | @association pattern id chosen member unfolded perm denotes =>
    have free := available (.association id) (by simp) (by simp)
    refine clean.add extended.takes.claims (association_nodup sound perm) ?_
      (.association sound perm) (by simp)
    intro c new
    exact ⟨held.fresh free.1 perm c new, clean.roles.fresh free.2 perm c new⟩

theorem matchTopic?_clean {t : Template} {id : TopicId} (sound : w.source.map.Sound)
    (held : w.source.RolesFollow (· ∈ w.written)) (found : w.matchTopic? t id = some m) :
    w.Clean (some id) m := by
  obtain ⟨_, search⟩ := matchTopic?_eq_some.mp found
  exact search_induction (fun extended clean => extended.clean sound held clean) search
    (.of_claims_nil rfl)

theorem matchAssociation?_clean {t : Template} {id : AssociationId} (sound : w.source.map.Sound)
    (held : w.source.RolesFollow (· ∈ w.written)) (found : w.matchAssociation? t id = some m) :
    w.Clean none m := by
  obtain ⟨pattern, _, _, isOpen, matched⟩ := matchAssociation?_spec found
  obtain ⟨chosen, perm, takes, _⟩ := association?_spec matched
  simp only [Matcher.isOpen, Bool.and_eq_true] at isOpen
  have free := available_iff.mp isOpen.1
  refine Clean.add (.of_claims_nil rfl) takes.claims (association_nodup sound perm) ?_
    (.association sound perm) (by simp)
  intro c new
  exact ⟨held.fresh free.1 perm c new, List.not_mem_nil⟩

end Matcher

namespace Emission

/-- The emission stands for roles with their associations, and for locators of its subject alone. -/
structure About (source : Source) (subject : Option TopicId) (e : Emission) : Prop where
  roles : source.RolesFollow (· ∈ e.constructs)
  locators : ∀ {topic kind iri}, .locator topic kind iri ∈ e.constructs → some topic = subject

end Emission

open Emission (About Once)

variable {source : Source} {subject : Option TopicId} {start stop : Written} {es : List Emission}

theorem Chain.rolesFollow (chain : Chain (About source subject) start es stop)
    (follow : source.RolesFollow (· ∈ start)) : source.RolesFollow (· ∈ stop) := by
  induction chain with
  | nil => exact follow
  | cons once good _ ih =>
    apply ih
    have both := good.roles.union follow
    simpa only [once.marked] using both

theorem Chain.locators {visited : List TopicId}
    (chain : Chain (About source subject) start es stop)
    (earlier : ∀ {topic kind iri}, .locator topic kind iri ∈ start → topic ∈ visited)
    {topic : TopicId} {kind : LocatorKind} {iri : String}
    (member : .locator topic kind iri ∈ stop) : topic ∈ visited ∨ some topic = subject := by
  rcases (chain.mem_iff _).mp member with old | new
  · exact .inl (earlier old)
  · obtain ⟨e, inside, held⟩ := List.mem_flatMap.mp new
    exact .inr ((chain.good e inside).locators held)

theorem plain_chain {α : Type} {construct : α → Construct}
    {encode : Progress → α → Progress × Option String} {Encodable : α → Prop}
    (encodes : Encodes Encodable (fun p item => p.mark (construct item)) encode)
    (plain : ∀ item role, construct item ≠ .role role)
    (own : ∀ item topic kind iri, construct item = .locator topic kind iri → some topic = subject)
    (items : List α) (p : Progress) :
    let run := emitUnwritten construct (fun _ item => [construct item]) encode items p
    Chain (About source subject) p.written run.2 run.1.written := by
  apply emitUnwritten_chain encodes
  · intro p item text fresh
    exact Emission.once_mark text fresh
  · intro p item text
    constructor
    · apply Source.RolesFollow.of_no_role
      intro role member
      exact plain item role (List.mem_singleton.mp member).symm
    · intro topic kind iri member
      exact own item topic kind iri (List.mem_singleton.mp member).symm

namespace Session

variable (s : Session)

theorem emitVariants_chain (ids : List VariantId) (p : Progress) :
    Chain (fun e => ∃ id, e.constructs = [.variant id]) p.written (s.emitVariants ids p).2
      (s.emitVariants ids p).1.written := by
  apply emitUnwritten_chain s.encodeVariant_spec
  · intro p id text fresh
    exact Emission.once_mark text fresh
  · intro p id text
    exact ⟨id, rfl⟩

theorem mem_nameConstructs {p : Progress} {id : NameId} {c : Construct}
    (member : c ∈ s.nameConstructs p id) : c = .name id ∨ ∃ v, c = .variant v := by
  rcases List.mem_cons.mp member with rfl | member
  · exact .inl rfl
  · obtain ⟨e, inside, held⟩ := List.mem_flatMap.mp member
    obtain ⟨v, same⟩ := (s.emitVariants_chain _ p).good e inside
    rw [same, List.mem_singleton] at held
    exact .inr ⟨v, held⟩

theorem name_once {p : Progress} {id : NameId} (text : String) (fresh : .name id ∉ p.written) :
    Once ⟨p.written, text, s.nameConstructs p id,
      ((s.encodeVariants (s.source.name id).variants p).1.mark (.name id)).written⟩ := by
  have chain := s.emitVariants_chain (s.source.name id).variants p
  have same := encodeUnwritten_eq_emitUnwritten .variant (fun _ id => [.variant id])
    s.encodeVariant (s.source.name id).variants p
  constructor
  · refine List.nodup_cons.mpr ⟨?_, chain.nodup⟩
    intro member
    obtain ⟨e, inside, held⟩ := List.mem_flatMap.mp member
    obtain ⟨v, only⟩ := chain.good e inside
    simp [only] at held
  · intro c member
    rcases List.mem_cons.mp member with rfl | member
    · exact fresh
    · exact chain.fresh member
  · intro c
    rw [encodeVariants, same]
    rw [nameConstructs, List.mem_cons, or_assoc, or_comm (a := c ∈ _), ← chain.mem_iff]
    exact Written.mem_insert

theorem traceTypes_chain (id : TopicId) (p : Progress) :
    Chain (About s.source (some id)) p.written (s.traceTypes id p).2
      (s.traceTypes id p).1.written := by
  exact (plain_chain (s.encodeRelation_spec "isa " (.typing id)) (by simp) (by simp) _ p).append
    (plain_chain (s.encodeRelation_spec "ako " (.subtyping id)) (by simp) (by simp) _ _)

theorem names_chain (names : List NameId) (p : Progress) :
    let run := emitUnwritten .name s.nameConstructs s.encodeName names p
    Chain (About s.source subject) p.written run.2 run.1.written := by
  apply emitUnwritten_chain s.encodeName_spec
  · intro p id text fresh
    exact s.name_once text fresh
  · intro p id text
    constructor
    · apply Source.RolesFollow.of_no_role
      intro role member
      rcases s.mem_nameConstructs member with same | ⟨v, same⟩ <;> cases same
    · intro topic kind iri member
      rcases s.mem_nameConstructs member with same | ⟨v, same⟩ <;> cases same

theorem emitLocators_chain (id : TopicId) (kind : LocatorKind) (p : Progress) :
    Chain (About s.source (some id)) p.written (s.emitLocators id kind p).2
      (s.emitLocators id kind p).1.written :=
  plain_chain (s.encodeLocator_spec id kind) (by simp) (by simp +contextual) _ p

theorem traceCharacteristics_chain (id : TopicId) (p : Progress) :
    Chain (About s.source (some id)) p.written (s.traceCharacteristics id p).2
      (s.traceCharacteristics id p).1.written := by
  exact ((((s.names_chain (s.source.topic id).names p).append
    (plain_chain s.encodeOccurrence_spec (by simp) (by simp) _ _)).append
    (s.emitLocators_chain id .subjectIdentifier _)).append
    (s.emitLocators_chain id .subjectLocator _)).append
    (s.emitLocators_chain id .itemIdentifier _)

variable {s}

theorem written_of_size_eq {p : Progress} {m : Match} (distinct : m.claims.Nodup)
    (fresh : ∀ c ∈ m.claims, c ∉ p.written)
    (same : (p.markAll m.claims).written.size = p.written.size) :
    (p.markAll m.claims).written = p.written := by
  have size : (p.markAll m.claims).written.size = p.written.size + m.claims.length :=
    Written.size_insertAll distinct fresh
  have none : m.claims = [] := List.eq_nil_of_length_eq_zero (by omega)
  rw [none]
  rfl

theorem traceRepeatedly_chain (sound : s.source.map.Sound) (t : Template) (id : TopicId)
    (rounds : Nat) (p : Progress) (follow : s.source.RolesFollow (· ∈ p.written)) :
    Chain (About s.source (some id)) p.written (s.traceRepeatedly t id rounds p).2
      (s.traceRepeatedly t id rounds p).1.written := by
  induction rounds generalizing p with
  | zero => exact .nil _
  | succ rounds ih =>
    rw [traceRepeatedly]
    cases found : (s.matcher p).matchTopic? t id with
    | none => exact .nil _
    | some m =>
      have clean := Matcher.matchTopic?_clean (w := s.matcher p) sound follow found
      obtain ⟨arguments, committed, _⟩ :=
        commit_ok p (.topic id) fun _ member => Matcher.matchTopic?_argued found member
      simp only [committed]
      split
      · rename_i same
        rw [written_of_size_eq clean.distinct clean.fresh same]
        exact .nil _
      · have once : Once ⟨p.written, t.invocation arguments, m.claims,
            (p.markAll m.claims).written⟩ :=
          Emission.once_markAll _ clean.distinct clean.fresh
        have about : About s.source (some id) ⟨p.written, t.invocation arguments, m.claims,
            (p.markAll m.claims).written⟩ :=
          ⟨clean.roles, clean.locators⟩
        have one : Chain (About s.source (some id)) p.written [_] (p.markAll m.claims).written :=
          .cons once about (.nil _)
        exact one.append (ih _ (one.rolesFollow follow))

theorem traceTemplates_chain (sound : s.source.map.Sound) (id : TopicId)
    (templates : List Template) (p : Progress) (follow : s.source.RolesFollow (· ∈ p.written)) :
    Chain (About s.source (some id)) p.written (s.traceTemplates id templates p).2
      (s.traceTemplates id templates p).1.written := by
  induction templates generalizing p with
  | nil => exact .nil _
  | cons t ts ih =>
    rw [traceTemplates]
    split
    · have first := traceRepeatedly_chain sound t id (s.claimable id + 1) p follow
      exact first.append (ih _ (first.rolesFollow follow))
    · exact ih p follow

theorem traceTopic_chain (sound : s.source.map.Sound) (p : Progress) (id : TopicId)
    (follow : s.source.RolesFollow (· ∈ p.written))
    (unvisited : ∀ kind iri, .locator id kind iri ∉ p.written) :
    Chain (About s.source (some id)) p.written (s.traceTopic p id).2.emissions
      (s.traceTopic p id).1.written := by
  rw [traceTopic]
  split
  · exact .nil _
  · cases s.identity? id with
    | none => exact .nil _
    | some identity =>
      have once : Once ⟨p.written, identity.display, [.locator id identity.kind identity.iri],
          (p.mark (.locator id identity.kind identity.iri)).written⟩ :=
        Emission.once_mark _ (unvisited _ _)
      have head : Chain (About s.source (some id)) p.written [_]
          (p.mark (.locator id identity.kind identity.iri)).written :=
        .cons once ⟨.of_no_role (by simp), by simp +contextual⟩ (.nil _)
      have invoked := traceTemplates_chain sound id s.templates _ (head.rolesFollow follow)
      exact head.append ((invoked.append (s.traceTypes_chain id _)).append
        (s.traceCharacteristics_chain id _))

theorem traceForAssociation_chain (sound : s.source.map.Sound) (id : AssociationId)
    (templates : List Template) (p : Progress) (follow : s.source.RolesFollow (· ∈ p.written)) :
    Chain (About s.source none) p.written (s.traceForAssociation id templates p).2
      (s.traceForAssociation id templates p).1.written := by
  induction templates generalizing p with
  | nil => exact .nil _
  | cons t ts ih =>
    rw [traceForAssociation]
    cases found : (s.matcher p).matchAssociation? t id with
    | none => exact ih p follow
    | some m =>
      have clean := Matcher.matchAssociation?_clean (w := s.matcher p) sound follow found
      obtain ⟨arguments, committed, _⟩ :=
        commit_ok p (.association id) fun _ member => Matcher.matchAssociation?_argued found member
      simp only [committed]
      have once : Once ⟨p.written, t.invocation arguments, m.claims,
          (p.markAll m.claims).written⟩ :=
        Emission.once_markAll _ clean.distinct clean.fresh
      have one : Chain (About s.source none) p.written [_] (p.markAll m.claims).written :=
        .cons once ⟨clean.roles, clean.locators⟩ (.nil _)
      exact one.append (ih _ (one.rolesFollow follow))

theorem association_once (sound : s.source.map.Sound) {p : Progress} {id : AssociationId}
    (text : String) (follow : s.source.RolesFollow (· ∈ p.written))
    (absent : .association id ∉ p.written) :
    Once ⟨p.written, text, s.associationConstructs id,
      ((p.mark (.association id)).markAll
        ((s.source.association id).roles.map .role)).written⟩ where
  distinct := association_nodup sound (.refl _)
  fresh := follow.fresh absent (.refl _)
  marked := by
    intro c
    simp only [associationConstructs, Progress.markAll, Progress.mark, Written.mem_insertAll,
      Written.mem_insert, List.mem_cons]
    exact ⟨by tauto, by tauto⟩

theorem traceAssociation_chain (sound : s.source.map.Sound) (p : Progress) (id : AssociationId)
    (follow : s.source.RolesFollow (· ∈ p.written)) :
    Chain (About s.source none) p.written (s.traceAssociation p id).2.emissions
      (s.traceAssociation p id).1.written := by
  rw [traceAssociation]
  split
  · exact .nil _
  · rename_i unwritten
    have absent : .association id ∉ p.written := by
      intro present
      simp [present] at unwritten
    have chain := traceForAssociation_chain sound id s.templates p follow
    cases invoked : s.traceForAssociation id s.templates p with
    | mk q lines =>
      rw [invoked] at chain
      cases lines with
      | cons line lines => exact chain
      | nil =>
        have same : q.written = p.written := chain.eq_of_nil
        rcases s.encodeAssociation_spec q id with ⟨_, text, encoded⟩ | ⟨_, encoded⟩
        · simp only [encoded]
          rw [← same] at follow absent ⊢
          have once := association_once sound text follow absent
          exact .cons once ⟨.association sound (.refl _), by simp [associationConstructs]⟩ (.nil _)
        · simp only [encoded]
          rw [← same]
          exact .nil _

/-- What holds when the topics of `visited` have been written. -/
structure Visited (s : Session) (visited : List TopicId) (p : Progress) : Prop where
  follow : s.source.RolesFollow (· ∈ p.written)
  locators : ∀ {topic kind iri}, .locator topic kind iri ∈ p.written → topic ∈ visited

theorem trace_chain (sound : s.source.map.Sound) {visited : List TopicId} {p : Progress}
    (before : s.Visited visited p) (call : WriteCall)
    (unvisited : ∀ id ∈ call.topic?, id ∉ visited) :
    Chain (fun _ => True) p.written (s.trace p call).2.emissions (s.trace p call).1.written ∧
      s.Visited (call.topic?.toList ++ visited) (s.trace p call).1 := by
  cases call with
  | topic id =>
    have fresh : ∀ kind iri, .locator id kind iri ∉ p.written := by
      intro kind iri member
      exact unvisited id rfl (before.locators member)
    have chain := traceTopic_chain sound p id before.follow fresh
    refine ⟨chain.imp fun _ _ => trivial, chain.rolesFollow before.follow, ?_⟩
    intro topic kind iri member
    rcases chain.locators before.locators member with old | same
    · exact List.mem_append_right _ old
    · simp [WriteCall.topic?, Option.some.inj same]
  | association id =>
    have chain := traceAssociation_chain sound p id before.follow
    refine ⟨chain.imp fun _ _ => trivial, chain.rolesFollow before.follow, ?_⟩
    intro topic kind iri member
    rcases chain.locators before.locators member with old | impossible
    · exact List.mem_append_right _ old
    · cases impossible

theorem traceEach_chain (sound : s.source.map.Sound) {visited : List TopicId} {p : Progress}
    (before : s.Visited visited p) (calls : List WriteCall)
    (distinct : (calls.filterMap WriteCall.topic?).Nodup)
    (unvisited : ∀ id ∈ calls.filterMap WriteCall.topic?, id ∉ visited) :
    Chain (fun _ => True) p.written ((s.traceEach calls p).2.flatMap Trace.emissions)
      (s.traceEach calls p).1.written := by
  induction calls generalizing visited p with
  | nil => exact .nil _
  | cons call calls ih =>
    have split : (call :: calls).filterMap WriteCall.topic? =
        call.topic?.toList ++ calls.filterMap WriteCall.topic? := by
      cases call <;> rfl
    rw [split] at distinct unvisited
    have apart := List.nodup_append.mp distinct
    have first := trace_chain sound before call fun id own =>
      unvisited id (List.mem_append_left _ (Option.mem_toList.mpr own))
    refine first.1.append (ih first.2 apart.2.1 ?_)
    intro id later member
    rcases List.mem_append.mp member with own | old
    · exact apart.2.2 id own id later rfl
    · exact unvisited id (List.mem_append_right _ later) old

/-- In every order of calls, in which a topic is written at most once, each piece of text stands for
constructs that were not written before it and are written after it. -/
theorem emitted_at_most_once (s : Session) (built : s.source.map.Built) (calls : List WriteCall)
    (distinct : (calls.filterMap WriteCall.topic?).Nodup) (skipped : Nat) :
    let run := s.traceEach calls { skipped }
    let emissions := run.2.flatMap Trace.emissions
    writeEach s.perform calls { skipped } = ⟨run.1, run.2.filterMap Trace.piece, none⟩ ∧
      (∀ e ∈ emissions, e.Once) ∧
      (emissions.Pairwise fun e later => ∀ c, c ∈ e.after → c ∈ later.before) ∧
      (emissions.flatMap Emission.constructs).Nodup ∧
      ∀ c, c ∈ run.1.written ↔ c ∈ emissions.flatMap Emission.constructs := by
  intro run emissions
  have start : s.Visited [] { skipped } := by
    constructor
    · apply Source.RolesFollow.of_no_role
      intro role member
      exact Written.not_mem_empty _ member
    · intro topic kind iri member
      exact absurd member (Written.not_mem_empty _)
  have chain : Chain (fun _ => True) .empty emissions run.1.written :=
    traceEach_chain built.sound start calls distinct (by simp)
  refine ⟨s.writeEach_eq_trace calls _, chain.once, chain.pairwise, chain.nodup, ?_⟩
  intro c
  rw [chain.mem_iff c]
  constructor
  · rintro (old | new)
    · exact absurd old (Written.not_mem_empty c)
    · exact new
  · exact .inr

def loopTemplate : Template :=
  ⟨"loop", .topic, [.statement (.association {
    type := .var "$type"
    roles := [{ type := .var "$type", player := .var subjectToken }] })]⟩

def villageSession : Session where
  source := village.source
  settings := {}
  table := .empty
  typing := {}
  templates := [loopTemplate]

def villageWrites : List WriteCall := [.topic ⟨1⟩, .topic ⟨0⟩, .association ⟨0⟩]

theorem village_emitted :
    let emissions := (villageSession.traceEach villageWrites {}).2.flatMap Trace.emissions
    emissions.map Emission.constructs = [
        [.locator ⟨0⟩ .subjectIdentifier "http://t.example/village"],
        [.association ⟨0⟩, .role ⟨0⟩], [.name ⟨0⟩, .variant ⟨0⟩]] ∧
      (emissions.flatMap Emission.constructs).Nodup := by
  refine ⟨by rfl, ?_⟩
  exact (emitted_at_most_once villageSession village_built villageWrites (by decide) 0).2.2.2.1

end Session
end CompactTopicMap
