import CompactTopicMap.Proofs.Matching.Claims
import Mathlib.Data.List.Nodup
import Mathlib.Data.List.Perm.Basic

/-!
The search finds a match if there is one. Roles are claimed without a test, so associations are left
out.
-/

namespace CompactTopicMap

def Statement.isAssociation : Statement → Bool
  | association _ => true
  | _ => false

variable {source : Source} {m m' goal : Match}

/-- The match says no more than the goal, which binds to further topics only such as have a locator.
The goal may have got a literal with another datatype. -/
structure Match.Agrees (source : Source) (m goal : Match) : Prop where
  topics : ∀ {token id}, m.find? token = some (.topic id) → goal.find? token = some (.topic id)
  literals : ∀ {token value datatype}, m.find? token = some (.literal value datatype) →
    ∃ datatype, goal.find? token = some (.literal value datatype)
  named : ∀ {token id}, goal.find? token = some (.topic id) →
    m.find? token = some (.topic id) ∨ (source.topic id).isAnonymous = false

namespace Match

theorem Grows.agrees (grows : m.Grows source goal) : m.Agrees source goal :=
  ⟨grows.keeps, fun found => ⟨_, grows.keeps found⟩, grows.named⟩

theorem Agrees.claim (agrees : m.Agrees source goal) (c : Construct) :
    (m.claim c).Agrees source goal :=
  ⟨agrees.topics, agrees.literals, agrees.named⟩

theorem Agrees.bindTopic {token : String} {id : TopicId} (agrees : m.Agrees source goal)
    (wanted : goal.find? token = some (.topic id)) :
    (m.bind token (.topic id)).Agrees source goal := by
  constructor
  · intro other actual found
    rw [find?_bind] at found
    split at found
    · rename_i same
      rw [same, wanted, found]
    · exact agrees.topics found
  · intro other value datatype found
    rw [find?_bind] at found
    split at found
    · cases found
    · exact agrees.literals found
  · intro other actual found
    rw [find?_bind]
    split
    · rename_i same
      rw [← found, same, wanted]
      exact .inl rfl
    · exact agrees.named found

theorem Agrees.bindLiteral {token value datatype datatype' : String} (agrees : m.Agrees source goal)
    (wanted : goal.find? token = some (.literal value datatype')) :
    (m.bind token (.literal value datatype)).Agrees source goal := by
  constructor
  · intro other actual found
    rw [find?_bind] at found
    split at found
    · cases found
    · exact agrees.topics found
  · intro other bound kind found
    rw [find?_bind] at found
    split at found
    · rename_i same
      obtain ⟨rfl, rfl⟩ := Bound.literal.inj (Option.some.inj found)
      exact ⟨datatype', same ▸ wanted⟩
    · exact agrees.literals found
  · intro other actual found
    rw [find?_bind]
    split
    · rename_i same
      rw [same, wanted] at found
      cases found
    · exact agrees.named found

theorem topic?_complete {pattern : TopicRef} {actual : TopicId} (agrees : m.Agrees source goal)
    (denotes : pattern.Denotes goal actual) :
    ∃ m', m.topic? source pattern actual = some m' ∧ m'.Agrees source goal := by
  cases pattern with
  | fixed id => exact ⟨m, if_pos denotes, agrees⟩
  | var token =>
    have wanted : goal.find? token = some (.topic actual) := denotes
    cases found : m.find? token with
    | none =>
      have locator : (source.topic actual).isAnonymous = false := by
        rcases agrees.named wanted with earlier | locator
        · rw [found] at earlier
          cases earlier
        · exact locator
      refine ⟨m.bind token (.topic actual), ?_, agrees.bindTopic wanted⟩
      simp [topic?, found, locator]
    | some bound =>
      cases bound with
      | topic id =>
        have same : Bound.topic id = .topic actual :=
          Option.some.inj ((agrees.topics found).symm.trans wanted)
        refine ⟨m, ?_, agrees⟩
        simp [topic?, found, Bound.topic.inj same]
      | literal value datatype =>
        obtain ⟨other, expected⟩ := agrees.literals found
        rw [wanted] at expected
        cases expected

theorem themes?_complete {patterns : List TopicRef} {themes : List TopicId}
    (agrees : m.Agrees source goal) (denote : List.Forall₂ (TopicRef.Denotes goal) patterns themes) :
    ∃ m', m.themes? source patterns themes = some m' ∧ m'.Agrees source goal := by
  induction denote generalizing m with
  | nil => exact ⟨m, rfl, agrees⟩
  | cons head _ ih =>
    obtain ⟨middle, first, closer⟩ := topic?_complete agrees head
    obtain ⟨last, rest, reached⟩ := ih closer
    exact ⟨last, by rw [themes?, first, Option.bind_some, rest], reached⟩

theorem scope?_complete {pattern : ScopePattern} {scope : List TopicId}
    (agrees : m.Agrees source goal) (denotes : pattern.Denotes goal scope) :
    ∃ m', m.scope? source pattern scope = some m' ∧ m'.Agrees source goal :=
  themes?_complete agrees denotes

theorem reifier?_complete {pattern : ReifierPattern} {reifier : Option TopicId}
    (agrees : m.Agrees source goal) (denotes : pattern.Denotes goal reifier) :
    ∃ m', m.reifier? source pattern reifier = some m' ∧ m'.Agrees source goal := by
  cases denotes with
  | some topic => exact topic?_complete agrees topic
  | none => exact ⟨m, rfl, agrees⟩

theorem value?_complete {pattern value : String} (datatype : String)
    (agrees : m.Agrees source goal) (denotes : ValueDenotes goal pattern value) :
    ∃ m', m.value? pattern datatype value datatype = some m' ∧ m'.Agrees source goal := by
  unfold ValueDenotes at denotes
  by_cases free : isVariable pattern
  · rw [if_pos free] at denotes
    obtain ⟨other, wanted⟩ := denotes
    cases found : m.find? pattern with
    | none =>
      refine ⟨m.bind pattern (.literal value datatype), ?_, agrees.bindLiteral wanted⟩
      simp [value?, free, found]
    | some bound =>
      cases bound with
      | topic id =>
        have expected := agrees.topics found
        rw [wanted] at expected
        cases expected
      | literal earlier kind =>
        obtain ⟨_, expected⟩ := agrees.literals found
        rw [wanted] at expected
        have same := (Bound.literal.inj (Option.some.inj expected)).1
        exact ⟨m, by simp [value?, free, found, same], agrees⟩
  · rw [if_neg free] at denotes
    subst denotes
    exact ⟨m, by simp [value?, free], agrees⟩

end Match

namespace Matcher

variable {w : Matcher} {subject : TopicId}

section Complete

theorem relation?_complete {c : Construct} {pattern : TopicRef} {actual : TopicId}
    (agrees : m.Agrees w.source goal) (available : w.available m c)
    (denotes : pattern.Denotes goal actual) :
    ∃ m', w.relation? m c pattern actual = some m' ∧ m'.Agrees w.source goal := by
  obtain ⟨bound, topic, reached⟩ := Match.topic?_complete agrees denotes
  exact ⟨bound.claim c, by simp [relation?, available, topic], reached.claim c⟩

theorem variant?_complete {pattern : VariantPattern} {id : VariantId}
    (agrees : m.Agrees w.source goal) (available : w.available m (.variant id))
    (denotes : pattern.Denotes goal (w.source.variant id)) :
    ∃ m', w.variant? pattern id m = some m' ∧ m'.Agrees w.source goal := by
  obtain ⟨valued, value, agrees⟩ :=
    Match.value?_complete (w.source.variant id).datatype agrees denotes.value
  obtain ⟨themed, scope, agrees⟩ := Match.scope?_complete agrees denotes.scope
  obtain ⟨reified, reifier, agrees⟩ := Match.reifier?_complete agrees denotes.reifier
  refine ⟨reified.claim (.variant id), ?_, agrees.claim _⟩
  simp [variant?, available, denotes.datatype, value, scope, reifier]

theorem available_of_claims {taken : List Construct} {c : Construct}
    (claims : m'.claims = taken ++ m.claims) (available : w.available m c) (free : c ∉ taken) :
    w.available m' c := by
  rw [available_iff] at *
  rw [claims, List.mem_append, not_or]
  exact ⟨available.1, free, available.2⟩

theorem variants?_complete {patterns : List VariantPattern} {ids : List VariantId}
    (agrees : m.Agrees w.source goal) (distinct : ids.Nodup)
    (available : ∀ id ∈ ids, w.available m (.variant id))
    (denote : List.Forall₂ (fun p id => p.Denotes goal (w.source.variant id)) patterns ids) :
    ∃ m', w.variants? patterns ids m = some m' ∧ m'.Agrees w.source goal := by
  induction denote generalizing m with
  | nil => exact ⟨m, rfl, agrees⟩
  | @cons pattern id patterns ids head _ ih =>
    obtain ⟨fresh, distinct⟩ := List.nodup_cons.mp distinct
    obtain ⟨middle, first, closer⟩ := variant?_complete agrees (available id (by simp)) head
    have claims := (variant?_spec first).2.1.claims
    -- The variant is claimed from now on, so that the others have to differ from it.
    have later : ∀ other ∈ ids, w.available middle (.variant other) := by
      intro other member
      apply available_of_claims claims (available other (List.mem_cons_of_mem id member))
      rintro same
      obtain rfl := Construct.variant.inj (List.mem_singleton.mp same)
      exact fresh member
    obtain ⟨last, rest, reached⟩ := ih closer distinct later
    exact ⟨last, by rw [variants?, first, Option.bind_some, rest], reached⟩

theorem name?_complete {pattern : NamePattern} {id : NameId} (agrees : m.Agrees w.source goal)
    (distinct : (w.source.name id).variants.Nodup)
    (available : ∀ v ∈ (w.source.name id).variants, w.available m (.variant v))
    (denotes : pattern.Denotes w.source goal (w.source.name id)) :
    ∃ m', w.name? pattern id m = some m' ∧ m'.Agrees w.source goal := by
  obtain ⟨typed, type, agrees⟩ := Match.topic?_complete agrees denotes.type
  obtain ⟨valued, value, agrees⟩ := Match.value?_complete Iri.string agrees denotes.value
  obtain ⟨themed, scope, agrees⟩ := Match.scope?_complete agrees denotes.scope
  obtain ⟨reified, reifier, agrees⟩ := Match.reifier?_complete agrees denotes.reifier
  have bound := (((Match.topic?_spec type).1.trans (Match.value?_spec w.source value).1).trans
    (Match.scope?_spec scope).1).trans (Match.reifier?_spec reifier).1
  have still : ∀ v ∈ (w.source.name id).variants, w.available reified (.variant v) := by
    intro v member
    rw [available_iff, bound.claims, ← available_iff]
    exact available v member
  obtain ⟨full, variants, agrees⟩ := variants?_complete agrees distinct still denotes.variants
  exact ⟨full.claim (.name id), by simp [name?, type, value, scope, reifier, variants],
    agrees.claim _⟩

theorem occurrence?_complete {pattern : OccurrencePattern} {id : OccurrenceId}
    (agrees : m.Agrees w.source goal) (denotes : pattern.Denotes goal (w.source.occurrence id)) :
    ∃ m', w.occurrence? pattern id m = some m' ∧ m'.Agrees w.source goal := by
  obtain ⟨typed, type, agrees⟩ := Match.topic?_complete agrees denotes.type
  obtain ⟨valued, value, agrees⟩ :=
    Match.value?_complete (w.source.occurrence id).datatype agrees denotes.value
  obtain ⟨themed, scope, agrees⟩ := Match.scope?_complete agrees denotes.scope
  obtain ⟨reified, reifier, agrees⟩ := Match.reifier?_complete agrees denotes.reifier
  refine ⟨reified.claim (.occurrence id), ?_, agrees.claim _⟩
  simp [occurrence?, denotes.datatype, type, value, scope, reifier]

theorem extend_complete {statement : Statement} {taken : List Construct}
    (agrees : m.Agrees w.source goal) (stands : w.Stands subject goal statement taken)
    (plain : statement.isAssociation = false) (distinct : taken.Nodup)
    (available : ∀ c ∈ taken, w.available m c) :
    ∃ next ∈ w.extend subject statement m,
      next.Agrees w.source goal ∧ next.claims = taken ++ m.claims := by
  cases stands with
  | isa member denotes =>
    obtain ⟨next, found, reached⟩ :=
      relation?_complete agrees (available _ (List.mem_singleton_self _)) denotes
    exact ⟨next, List.mem_filterMap.mpr ⟨_, member, found⟩, reached,
      (relation?_spec found).2.1.claims⟩
  | ako member denotes =>
    obtain ⟨next, found, reached⟩ :=
      relation?_complete agrees (available _ (List.mem_singleton_self _)) denotes
    exact ⟨next, List.mem_filterMap.mpr ⟨_, member, found⟩, reached,
      (relation?_spec found).2.1.claims⟩
  | @name pattern id member denotes =>
    have own : (w.source.name id).variants.Nodup :=
      List.nodup_reverse.mp (List.Nodup.of_map _ (List.nodup_cons.mp distinct).2)
    have parts : ∀ v ∈ (w.source.name id).variants, w.available m (.variant v) :=
      fun v inside => available _ (by simp [inside])
    obtain ⟨next, found, reached⟩ := name?_complete agrees own parts denotes
    refine ⟨next, List.mem_filterMap.mpr ⟨id, member, ?_⟩, reached, (name?_spec found).2.1.claims⟩
    rw [if_pos (available _ (by simp)), found]
  | @occurrence pattern id member denotes =>
    obtain ⟨next, found, reached⟩ := occurrence?_complete agrees denotes
    refine ⟨next, List.mem_filterMap.mpr ⟨id, member, ?_⟩, reached,
      (occurrence?_spec found).1.claims⟩
    rw [if_pos (available _ (by simp)), found]
  | @identifier kind pattern iri member denotes =>
    obtain ⟨bound, found, reached⟩ := Match.value?_complete Iri.anyUri agrees denotes
    refine ⟨bound.claim (.locator subject kind iri),
      List.mem_filterMap.mpr ⟨iri, member, ?_⟩, reached.claim _,
      congrArg (_ :: ·) (Match.value?_spec w.source found).1.claims⟩
    simp [available _ (List.mem_singleton_self _), found]
  | association => cases plain

theorem search_complete {statements : List Statement} {groups : List (List Construct)}
    (agrees : m.Agrees w.source goal)
    (stand : List.Forall₂ (w.Stands subject goal) statements groups)
    (plain : ∀ statement ∈ statements, statement.isAssociation = false)
    (distinct : groups.flatten.Nodup) (available : ∀ c ∈ groups.flatten, w.available m c) :
    (w.search subject statements m).isSome := by
  -- On the statements, for each match that agrees with the goal and has claimed nothing to come.
  induction stand generalizing m with
  | nil => rfl
  | @cons statement taken rest groups head _ ih =>
    rw [List.flatten_cons] at distinct available
    obtain ⟨here, later, apart⟩ := List.nodup_append'.mp distinct
    obtain ⟨next, member, reached, claims⟩ := extend_complete agrees head (plain _ (by simp)) here
      fun c inside => available c (List.mem_append_left _ inside)
    have still : ∀ c ∈ groups.flatten, w.available next c := fun c inside =>
      available_of_claims claims (available c (List.mem_append_right taken inside))
        fun early => apart early inside
    have others := fun s inside => plain s (List.mem_cons_of_mem statement inside)
    exact List.findSome?_isSome_iff.mpr ⟨next, member, ih reached others later still⟩

end Complete

structure Fresh (w : Matcher) (m : Match) : Prop where
  distinct : m.claims.Nodup
  unwritten : ∀ c ∈ m.claims, c ∉ w.written

namespace Fresh

theorem ofSubject (id : TopicId) : w.Fresh (.ofSubject id) :=
  ⟨List.nodup_nil, by simp [Match.ofSubject]⟩

theorem claim {c : Construct} (fresh : w.Fresh m) (available : w.available m c) :
    w.Fresh (m.claim c) := by
  obtain ⟨unwritten, unclaimed⟩ := available_iff.mp available
  refine ⟨List.nodup_cons.mpr ⟨unclaimed, fresh.distinct⟩, fun d member => ?_⟩
  rcases List.mem_cons.mp member with rfl | earlier
  · exact unwritten
  · exact fresh.unwritten d earlier

theorem of_claims (fresh : w.Fresh m) (claims : m'.claims = m.claims) : w.Fresh m' :=
  ⟨claims ▸ fresh.distinct, claims ▸ fresh.unwritten⟩

theorem takes {c : Construct} (fresh : w.Fresh m) (available : w.available m c)
    (takes : m.Takes w.source [c] m') : w.Fresh m' :=
  (fresh.claim available).of_claims takes.claims

theorem variants? {patterns : List VariantPattern} {ids : List VariantId} (fresh : w.Fresh m)
    (found : w.variants? patterns ids m = some m') : w.Fresh m' := by
  induction patterns generalizing ids m with
  | nil =>
    cases ids with
    | nil =>
      obtain rfl := Option.some.inj found
      exact fresh
    | cons id ids => cases found
  | cons pattern patterns ih =>
    cases ids with
    | nil => cases found
    | cons id ids =>
      obtain ⟨middle, first, rest⟩ := Option.bind_eq_some_iff.mp found
      obtain ⟨available, takes, _⟩ := variant?_spec first
      exact ih (fresh.takes available takes) rest

theorem name? {pattern : NamePattern} {id : NameId} (fresh : w.Fresh m)
    (available : w.available m (.name id)) (found : w.name? pattern id m = some m') :
    w.Fresh m' := by
  simp only [Matcher.name?, Option.bind_eq_bind, Option.bind_eq_some_iff, Option.some.injEq] at found
  obtain ⟨typed, htype, valued, hvalue, themed, hscope, reified, hreifier, full, hvariants, rfl⟩ :=
    found
  have bound := (((Match.topic?_spec htype).1.trans (Match.value?_spec w.source hvalue).1).trans
    (Match.scope?_spec hscope).1).trans (Match.reifier?_spec hreifier).1
  have parts := (variants?_spec hvariants).2.1.claims
  rw [bound.claims] at parts
  refine ((fresh.of_claims bound.claims).variants? hvariants).claim ?_
  exact available_of_claims parts available (by simp)

end Fresh

theorem extend_fresh {statement : Statement} {next : Match} (fresh : w.Fresh m)
    (plain : statement.isAssociation = false) (member : next ∈ w.extend subject statement m) :
    w.Fresh next := by
  cases statement with
  | isa pattern =>
    obtain ⟨type, _, found⟩ := List.mem_filterMap.mp member
    obtain ⟨available, takes, _⟩ := relation?_spec found
    exact fresh.takes available takes
  | ako pattern =>
    obtain ⟨supertype, _, found⟩ := List.mem_filterMap.mp member
    obtain ⟨available, takes, _⟩ := relation?_spec found
    exact fresh.takes available takes
  | name pattern =>
    obtain ⟨id, _, found⟩ := List.mem_filterMap.mp member
    obtain ⟨available, found⟩ := Option.ite_none_right_eq_some.mp found
    exact fresh.name? available found
  | occurrence pattern =>
    obtain ⟨id, _, found⟩ := List.mem_filterMap.mp member
    obtain ⟨available, found⟩ := Option.ite_none_right_eq_some.mp found
    exact fresh.takes available (occurrence?_spec found).1
  | identifier kind pattern =>
    obtain ⟨iri, _, found⟩ := List.mem_filterMap.mp member
    obtain ⟨available, found⟩ := Option.ite_none_right_eq_some.mp found
    obtain ⟨bound, value, rfl⟩ := Option.map_eq_some_iff.mp found
    exact fresh.takes available ((Match.value?_spec w.source value).1.claim _)
  | association => cases plain
  | variant _ | role _ | reifier _ | scope _ => cases member

theorem search_fresh {statements : List Statement} (fresh : w.Fresh m)
    (plain : ∀ statement ∈ statements, statement.isAssociation = false)
    (found : w.search subject statements m = some m') : w.Fresh m' := by
  induction statements generalizing m with
  | nil =>
    obtain rfl := Option.some.inj found
    exact fresh
  | cons statement rest ih =>
    obtain ⟨next, member, later⟩ := List.exists_of_findSome?_eq_some found
    exact ih (extend_fresh fresh (plain _ (by simp)) member)
      (fun s inside => plain s (List.mem_cons_of_mem statement inside)) later

/-- Under the goal the statements about the subject stand for groups of constructs that can all be
claimed. -/
structure Solves (w : Matcher) (subject : TopicId) (statements : List Statement) (goal : Match)
    (groups : List (List Construct)) : Prop where
  agrees : (Match.ofSubject subject).Agrees w.source goal
  stand : List.Forall₂ (w.Stands subject goal) statements groups
  distinct : groups.flatten.Nodup
  unwritten : ∀ c ∈ groups.flatten, c ∉ w.written

/-- There is a match if there is a solution, whichever the search would find first. -/
theorem search_isSome_iff {statements : List Statement}
    (plain : ∀ statement ∈ statements, statement.isAssociation = false) :
    (w.search subject statements (.ofSubject subject)).isSome ↔
      ∃ goal groups, w.Solves subject statements goal groups := by
  constructor
  · intro some_match
    -- The match that was found is a goal of its own.
    obtain ⟨goal, found⟩ := Option.isSome_iff_exists.mp some_match
    obtain ⟨groups, stand, takes⟩ := search_spec found
    have fresh := search_fresh (.ofSubject subject) plain found
    have claims : goal.claims = groups.reverse.flatten := by
      rw [takes.claims]
      exact List.append_nil _
    have all : groups.flatten.Perm goal.claims :=
      claims ▸ (List.reverse_perm groups).symm.flatten
    exact ⟨goal, groups, takes.grows.agrees, stand, all.nodup_iff.mpr fresh.distinct,
      fun c member => fresh.unwritten c (all.mem_iff.mp member)⟩
  · rintro ⟨goal, groups, solves⟩
    apply search_complete solves.agrees solves.stand plain solves.distinct
    intro c member
    exact available_iff.mpr ⟨solves.unwritten c member, List.not_mem_nil⟩

theorem Solves.perm {statements statements' : List Statement} {groups : List (List Construct)}
    (solves : w.Solves subject statements goal groups) (perm : statements'.Perm statements) :
    ∃ groups', w.Solves subject statements' goal groups' := by
  obtain ⟨groups', stand, same⟩ := List.perm_comp_forall₂ perm solves.stand
  have all := same.flatten
  exact ⟨groups', solves.agrees, stand, all.nodup_iff.mpr solves.distinct,
    fun c member => solves.unwritten c (all.mem_iff.mp member)⟩

theorem matchTopic?_isSome_of_perm {t t' : Template} (kind : t'.kind = t.kind)
    (perm : t'.flattened.Perm t.flattened)
    (plain : ∀ statement ∈ t.flattened, statement.isAssociation = false) :
    (w.matchTopic? t' subject).isSome = (w.matchTopic? t subject).isSome := by
  have plain' : ∀ statement ∈ t'.flattened, statement.isAssociation = false :=
    fun statement member => plain statement (perm.mem_iff.mp member)
  unfold matchTopic?
  rw [kind]
  split
  · rw [Bool.eq_iff_iff, search_isSome_iff plain, search_isSome_iff plain']
    constructor
    · rintro ⟨goal, groups, solves⟩
      exact ⟨goal, solves.perm perm.symm⟩
    · rintro ⟨goal, groups, solves⟩
      exact ⟨goal, solves.perm perm⟩
  · rfl

end Matcher
end CompactTopicMap
