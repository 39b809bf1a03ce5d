import CompactTopicMap.Proofs.Matching.Associations
import CompactTopicMap.Proofs.Matching.Places

/-!
The search takes the first order of the roles of an association that fits, and does not come back
to it.
-/

namespace CompactTopicMap

variable {source : Source} {m m' goal : Match}

section Roles

theorem TopicRef.Denotes.find?_eq {pattern : TopicRef} {actual : TopicId} {token : String}
    (here : pattern.Denotes m actual) (there : pattern.Denotes goal actual)
    (member : token ∈ pattern.tokens) : m.find? token = goal.find? token := by
  cases pattern with
  | fixed id => cases member
  | var name =>
    obtain rfl := List.mem_singleton.mp member
    exact Eq.trans here (Eq.symm there)

theorem ReifierPattern.Denotes.find?_eq {pattern : ReifierPattern} {reifier : Option TopicId}
    {token : String} (here : pattern.Denotes m reifier) (there : pattern.Denotes goal reifier)
    (member : token ∈ pattern.tokens) : m.find? token = goal.find? token := by
  cases here with
  | none => cases member
  | some topic =>
    cases there with
    | some topic' => exact topic.find?_eq topic' member

theorem RolePattern.Denotes.find?_eq {pattern : RolePattern} {r : Role} {token : String}
    (here : pattern.Denotes m r) (there : pattern.Denotes goal r)
    (member : token ∈ pattern.tokens) : m.find? token = goal.find? token := by
  simp only [RolePattern.tokens, List.mem_append] at member
  rcases member with (type | player) | reifier
  · exact here.type.find?_eq there.type type
  · exact here.player.find?_eq there.player player
  · exact here.reifier.find?_eq there.reifier reifier

/-- The roles have fixed types, no two of them alike, so that they fit in one order at most. -/
def AssociationPattern.IsRigid (pattern : AssociationPattern) : Prop :=
  ∃ types : List TopicId, types.Nodup ∧ pattern.roles.map RolePattern.type = types.map .fixed

theorem map_type_of_fixed {patterns : List RolePattern} {chosen : List RoleId}
    {types : List TopicId} (fixed : patterns.map RolePattern.type = types.map .fixed)
    (denote : List.Forall₂ (fun p id => p.Denotes m (source.role id)) patterns chosen) :
    chosen.map (fun id => (source.role id).type) = types := by
  induction denote generalizing types with
  | nil => simpa using fixed.symm
  | cons head _ ih =>
    cases types with
    | nil => cases fixed
    | cons type types =>
      obtain ⟨here, rest⟩ := List.cons.inj fixed
      have same := head.type
      rw [here] at same
      rw [List.map_cons, ih rest, ← same]

theorem AssociationPattern.IsRigid.find?_eq {pattern : AssociationPattern} {a : Association}
    (rigid : pattern.IsRigid) (here : pattern.Denotes source m a)
    (there : pattern.Denotes source goal a) {token : String}
    (member : token ∈ pattern.roles.flatMap RolePattern.tokens) :
    m.find? token = goal.find? token := by
  obtain ⟨types, distinct, fixed⟩ := rigid
  obtain ⟨chosen, perm, denote⟩ := here.roles
  obtain ⟨chosen', perm', denote'⟩ := there.roles
  have typed := map_type_of_fixed fixed denote
  have typed' := map_type_of_fixed fixed denote'
  have apart : (a.roles.map fun id => (source.role id).type).Nodup :=
    (perm.map _).nodup_iff.mp (typed ▸ distinct)
  have same : chosen = chosen' := by
    apply List.ext_getElem (denote.length_eq.symm.trans denote'.length_eq)
    intro i bound bound'
    apply List.inj_on_of_nodup_map apart
    · exact perm.subset (List.getElem_mem bound)
    · exact perm'.subset (List.getElem_mem bound')
    · have both := typed.trans typed'.symm
      simpa [List.getElem?_eq_getElem bound, List.getElem?_eq_getElem bound'] using
        congrArg (·[i]?) both
  subst same
  obtain ⟨role, inside, used⟩ := List.mem_flatMap.mp member
  obtain ⟨i, bound, rfl⟩ := List.mem_iff_getElem.mp inside
  have bound' : i < chosen.length := denote.length_eq ▸ bound
  exact (denote.get bound bound').find?_eq (denote'.get bound bound') used

end Roles

def Match.over (m goal : Match) : Match where
  bindings := m.bindings ++ goal.bindings

theorem Match.find?_over (m goal : Match) (token : String) :
    (m.over goal).find? token = (m.find? token).or (goal.find? token) :=
  List.lookup_append

theorem Match.Agrees.over {next : Match} (agrees : m.Agrees source goal)
    (grows : m.Grows source next) : next.Agrees source (next.over goal) := by
  have keeps : ∀ {token bound}, next.find? token = some bound →
      (next.over goal).find? token = some bound := by
    intro token bound found
    rw [find?_over, found, Option.some_or]
  refine ⟨keeps, fun found => ⟨_, keeps found⟩, fun {token id} found => ?_⟩
  cases here : next.find? token with
  | some bound => exact .inl ((keeps here).symm.trans found)
  | none =>
    rw [find?_over, here, Option.none_or] at found
    rcases agrees.named found with earlier | named
    · rw [grows.keeps earlier] at here
      cases here
    · exact .inr named

theorem Match.keepsAt_over {next framed : Match} {token : String}
    (agrees : framed.Agrees source goal)
    (bindings : ∀ {bound}, next.find? token = some bound →
      framed.find? token = some bound ∨ goal.find? token = some bound) :
    goal.KeepsAt (next.over goal) token := by
  cases here : next.find? token with
  | none => exact .of_eq (by rw [find?_over, here, Option.none_or])
  | some bound =>
    have after : (next.over goal).find? token = some bound := by
      rw [find?_over, here, Option.some_or]
    rcases bindings here with early | own
    · cases bound with
      | topic id => exact .of_eq (after.trans (agrees.topics early).symm)
      | literal value datatype =>
        obtain ⟨other, wanted⟩ := agrees.literals early
        refine ⟨fun found => ?_, fun found => ?_⟩
        · rw [wanted] at found
          cases found
        · rw [wanted] at found
          cases found
          exact ⟨_, after⟩
    · exact .of_eq (after.trans own.symm)

def AssociationPattern.outerTokens (pattern : AssociationPattern) : List String :=
  pattern.type.tokens ++ pattern.scope.tokens ++ pattern.reifier.tokens

theorem AssociationPattern.Frames.bound {pattern : AssociationPattern} {a : Association}
    {framed : Match} {token : String} (frames : pattern.Frames source a m framed)
    (member : token ∈ pattern.outerTokens) : framed.IsBound token := by
  simp only [outerTokens, List.mem_append] at member
  rcases member with (type | scope) | reifier
  · exact frames.type.bound type
  · exact frames.scope.bound scope
  · exact frames.reifier.bound reifier

/-- It does not matter for later statements in which order the roles of an association are taken: only
one order can fit, or the later statements ask for no variable that the order decides. -/
def Statement.Settles (known : List String) (later : List Statement) : Statement → Prop
  | .association pattern =>
    pattern.IsRigid ∨ ∀ token ∈ pattern.roles.flatMap RolePattern.tokens,
      token ∈ later.flatMap Statement.tokens → token ∈ known ++ pattern.outerTokens
  | _ => True

/-- Each statement is settled when the variables of `known` and of the statements before are bound. -/
def SettledFrom : List String → List Statement → Prop
  | _, [] => True
  | known, statement :: later =>
    statement.Settles known later ∧ SettledFrom (known ++ statement.tokens) later

def Template.Settled (t : Template) : Prop := SettledFrom [subjectToken] t.flattened

def Construct.isRole : Construct → Bool
  | .role _ => true
  | _ => false

namespace Matcher

variable {w : Matcher} {subject : TopicId}

/-- The match of an association need not be the one that leads to the goal, but it can be completed
to a goal that says the same of the variables that later statements ask for. -/
theorem association?_settled {pattern : AssociationPattern} {id : AssociationId}
    {known : List String} {later : List Statement} (agrees : m.Agrees w.source goal)
    (denotes : pattern.Denotes w.source goal (w.source.association id))
    (settles : Statement.Settles known later (.association pattern))
    (bound : ∀ token ∈ known, m.IsBound token) :
    ∃ next goal', w.association? pattern id m = some next ∧ next.Agrees w.source goal' ∧
      ∀ token ∈ later.flatMap Statement.tokens, goal.KeepsAt goal' token := by
  obtain ⟨framed, full, frames, agrees', roles, found⟩ := association?_complete agrees denotes
  obtain ⟨_, _, takes, reached⟩ := association?_spec found
  obtain ⟨_, _, _, given, _⟩ := roles?_spec roles
  refine ⟨_, (full.claim (.association id)).over goal, found, agrees.over takes.grows, ?_⟩
  intro token asked
  apply Match.keepsAt_over agrees'
  intro value here
  cases early : framed.find? token with
  | some first => exact .inl ((given.grows.keeps early).symm.trans here)
  | none =>
    have own : token ∈ pattern.roles.flatMap RolePattern.tokens := by
      by_contra other
      have left : full.find? token = framed.find? token := roles?_leaves roles token other
      rw [early] at left
      cases left.symm.trans here
    rcases settles with rigid | settled
    · exact .inr ((rigid.find?_eq reached denotes own).symm.trans here)
    · have framed_bound : framed.IsBound token := by
        rcases List.mem_append.mp (settled token own asked) with earlier | outer
        · exact (bound token earlier).grow frames.grows
        · exact frames.bound outer
      rw [Match.IsBound, early] at framed_bound
      cases framed_bound

theorem Stands.plain {statement : Statement} {taken : List Construct}
    (stands : w.Stands subject goal statement taken) (plain : statement.isAssociation = false) :
    ∀ c ∈ taken, c.isRole = false := by
  cases stands with
  | name => simp [Construct.isRole]
  | isa | ako | occurrence | identifier => simp [Construct.isRole]
  | association => cases plain

theorem extend_settled {statement : Statement} {taken : List Construct} {known : List String}
    {later : List Statement} (agrees : m.Agrees w.source goal)
    (stands : w.Stands subject goal statement taken) (settles : statement.Settles known later)
    (bound : ∀ token ∈ known, m.IsBound token) (distinct : (taken.filter (!·.isRole)).Nodup)
    (available : ∀ c ∈ taken, c.isRole = false → w.available m c) :
    ∃ next ∈ w.extend subject statement m, ∃ goal', next.Agrees w.source goal' ∧
      (∀ token ∈ later.flatMap Statement.tokens, goal.KeepsAt goal' token) ∧
      ∀ c, c.isRole = false → c ∉ taken → w.available m c → w.available next c := by
  cases plain : statement.isAssociation with
  | false =>
    have none := stands.plain plain
    have all : taken.filter (!·.isRole) = taken := by
      rw [List.filter_eq_self]
      intro c member
      simp [none c member]
    rw [all] at distinct
    obtain ⟨next, member, reached, claims⟩ :=
      extend_complete agrees stands plain distinct fun c member => available c member (none c member)
    exact ⟨next, member, goal, reached, fun _ _ => .of_eq rfl,
      fun c _ free still => available_of_claims claims still free⟩
  | true =>
    cases stands with
    | @association pattern id chosen member unfolded perm denotes =>
      obtain ⟨next, goal', found, reached, keeps⟩ :=
        association?_settled agrees denotes settles bound
      obtain ⟨chosen', _, takes, _⟩ := association?_spec found
      refine ⟨next, ?_, goal', reached, keeps, ?_⟩
      · refine List.mem_filterMap.mpr ⟨id, member, ?_⟩
        have free := available (.association id) List.mem_cons_self rfl
        rw [isOpen, free, unfolded]
        exact found
      · intro c nonrole free still
        apply available_of_claims takes.claims still
        intro claimed
        rcases List.mem_cons.mp claimed with rfl | role
        · exact free List.mem_cons_self
        · obtain ⟨_, _, rfl⟩ := List.mem_map.mp role
          cases nonrole
    | isa | ako | name | occurrence | identifier => cases plain

theorem search_settled {statements : List Statement} {groups : List (List Construct)}
    {known : List String} (agrees : m.Agrees w.source goal)
    (stand : List.Forall₂ (w.Stands subject goal) statements groups)
    (settled : SettledFrom known statements) (bound : ∀ token ∈ known, m.IsBound token)
    (distinct : (groups.flatten.filter (!·.isRole)).Nodup)
    (available : ∀ c ∈ groups.flatten, c.isRole = false → w.available m c) :
    (w.search subject statements m).isSome := by
  -- The goal changes from statement to statement, as the orders of roles are not those of the first.
  induction statements generalizing m goal known groups with
  | nil => rfl
  | cons statement rest ih =>
    cases stand with
    | @cons _ taken _ groups head tail =>
      rw [List.flatten_cons, List.filter_append] at distinct
      rw [List.flatten_cons, List.forall_mem_append] at available
      obtain ⟨here, later, apart⟩ := List.nodup_append'.mp distinct
      obtain ⟨next, member, goal', reached, keeps, free⟩ :=
        extend_settled agrees head settled.1 bound here available.1
      obtain ⟨_, extended⟩ := extend_spec member
      refine List.findSome?_isSome_iff.mpr ⟨next, member, ih reached ?_ settled.2 ?_ later ?_⟩
      · exact denote_congr tail keeps Stands.congr
      · intro token inside
        rcases List.mem_append.mp inside with earlier | own
        · exact (bound token earlier).grow extended.takes.grows
        · exact extended.stands.bound own
      · intro c inside nonrole
        apply free c nonrole _ (available.2 c inside nonrole)
        intro early
        exact apart (List.mem_filter.mpr ⟨early, by simp [nonrole]⟩)
          (List.mem_filter.mpr ⟨inside, by simp [nonrole]⟩)

structure Apart (w : Matcher) (m : Match) : Prop where
  distinct : (m.claims.filter (!·.isRole)).Nodup
  unwritten : ∀ c ∈ m.claims, c.isRole = false → c ∉ w.written

theorem variants?_nodup {patterns : List VariantPattern} {ids : List VariantId}
    (found : w.variants? patterns ids m = some m') : ids.Nodup := by
  induction patterns generalizing ids m with
  | nil =>
    cases ids with
    | nil => exact List.nodup_nil
    | cons id ids => cases found
  | cons pattern patterns ih =>
    cases ids with
    | nil => cases found
    | cons id ids =>
      obtain ⟨middle, first, rest⟩ := Option.bind_eq_some_iff.mp found
      refine List.nodup_cons.mpr ⟨fun again => ?_, ih rest⟩
      have claims := (variant?_spec first).2.1.claims
      have free := (available_iff.mp ((variants?_spec rest).1 id again)).2
      exact free (claims ▸ List.mem_cons_self)

theorem name?_nodup {pattern : NamePattern} {id : NameId} (found : w.name? pattern id m = some m') :
    (w.source.name id).variants.Nodup := by
  simp only [name?, Option.bind_eq_bind, Option.bind_eq_some_iff, Option.some.injEq] at found
  obtain ⟨_, _, _, _, _, _, _, _, _, variants, _⟩ := found
  exact variants?_nodup variants

theorem extend_nodup {statement : Statement} {next : Match} {taken : List Construct}
    (member : next ∈ w.extend subject statement m)
    (extended : w.Extends subject statement m next taken) :
    (taken.filter (!·.isRole)).Nodup := by
  cases extended.stands with
  | isa | ako | occurrence | identifier => exact (List.nodup_singleton _).filter _
  | association =>
    rw [List.filter_cons_of_pos rfl, List.filter_eq_nil_iff.mpr (by simp [Construct.isRole])]
    exact List.nodup_singleton _
  | @name pattern id =>
    apply List.Nodup.filter
    obtain ⟨other, _, step⟩ := List.mem_filterMap.mp member
    obtain ⟨_, found⟩ := Option.ite_none_right_eq_some.mp step
    -- The claims tell which of the names was taken.
    have claims := extended.takes.claims.symm.trans (name?_spec found).2.1.claims
    obtain ⟨same, _⟩ := List.cons.inj (List.append_cancel_right claims)
    obtain rfl := Construct.name.inj same
    have distinct := List.nodup_reverse.mpr (name?_nodup found)
    refine List.nodup_cons.mpr ⟨by simp, distinct.map ?_⟩
    exact fun _ _ => Construct.variant.inj

theorem extend_apart {statement : Statement} {next : Match} (apart : w.Apart m)
    (member : next ∈ w.extend subject statement m) : w.Apart next := by
  obtain ⟨taken, extended⟩ := extend_spec member
  have free : ∀ c ∈ taken, c.isRole = false → c ∉ w.written ∧ c ∉ m.claims := by
    intro c inside nonrole
    rcases extended.available c inside with available | ⟨role, rfl⟩
    · exact available_iff.mp available
    · cases nonrole
  constructor
  · rw [extended.takes.claims, List.filter_append]
    refine (extend_nodup member extended).append apart.distinct fun c late early => ?_
    obtain ⟨inside, nonrole⟩ := List.mem_filter.mp late
    exact (free c inside (by simpa using nonrole)).2 (List.mem_filter.mp early).1
  · rw [extended.takes.claims]
    intro c claimed nonrole
    rcases List.mem_append.mp claimed with late | early
    · exact (free c late nonrole).1
    · exact apart.unwritten c early nonrole

theorem search_apart {statements : List Statement} (apart : w.Apart m)
    (found : w.search subject statements m = some m') : w.Apart m' := by
  induction statements generalizing m with
  | nil => exact Option.some.inj found ▸ apart
  | cons statement rest ih =>
    obtain ⟨next, member, later⟩ := List.exists_of_findSome?_eq_some found
    exact ih (extend_apart apart member) later

end Matcher

namespace Session

variable {s : Session} {p : Progress} {t : Template} {subject : TopicId}

/-- Under one assignment of the variables, which takes the topic variables other than the subject to
topics with a locator, the statements assert constructs that can all be claimed: with their parts
they are distinct, and none of them is written. This is not asked of roles. -/
structure Solution (s : Session) (p : Progress) (subject : TopicId) (statements : List Statement)
    (goal : Match) (constructs : List Construct) : Prop where
  about : goal.find? subjectToken = some (.topic subject)
  named : ∀ {token id}, token ≠ subjectToken → goal.find? token = some (.topic id) → s.IsNamed id
  asserts : List.Forall₂ (s.Asserts subject goal) statements constructs
  distinct : ((constructs.flatMap s.source.whole).filter (!·.isRole)).Nodup
  unwritten : ∀ c ∈ constructs.flatMap s.source.whole, c.isRole = false → c ∉ p.written

theorem Asserts.stands {statement : Statement} {c : Construct} (p : Progress)
    (asserts : s.Asserts subject m statement c) :
    ∃ taken, (s.matcher p).Stands subject m statement taken ∧ taken.Perm (s.source.whole c) := by
  cases asserts with
  | isa own denotes => exact ⟨_, .isa own denotes, .refl _⟩
  | ako own denotes => exact ⟨_, .ako own denotes, .refl _⟩
  | name own denotes =>
    refine ⟨_, .name own denotes, ?_⟩
    exact ((List.reverse_perm _).map Construct.variant).cons _
  | occurrence own denotes => exact ⟨_, .occurrence own denotes, .refl _⟩
  | identifier own denotes => exact ⟨_, .identifier own denotes, .refl _⟩
  | association listed unfolded denotes =>
    exact ⟨_, .association listed unfolded (.refl _) denotes, .refl _⟩

theorem stand_of_assert (p : Progress) {statements : List Statement} {constructs : List Construct}
    (asserted : List.Forall₂ (s.Asserts subject m) statements constructs) :
    ∃ groups, List.Forall₂ ((s.matcher p).Stands subject m) statements groups ∧
      groups.flatten.Perm (constructs.flatMap s.source.whole) := by
  induction asserted with
  | nil => exact ⟨[], .nil, .refl _⟩
  | cons here _ ih =>
    obtain ⟨taken, stands, perm⟩ := here.stands p
    obtain ⟨groups, others, perms⟩ := ih
    exact ⟨taken :: groups, .cons stands others, by simpa using perm.append perms⟩

theorem Solution.agrees {statements : List Statement} {constructs : List Construct}
    (solution : s.Solution p subject statements goal constructs) :
    (Match.ofSubject subject).Agrees s.source goal := by
  constructor
  · intro token id found
    rw [Match.find?_ofSubject, Option.ite_none_right_eq_some] at found
    exact found.1 ▸ solution.about.trans found.2
  · intro token value datatype found
    rw [Match.find?_ofSubject, Option.ite_none_right_eq_some] at found
    cases found.2
  · intro token id wanted
    by_cases same : token = subjectToken
    · subst same
      rw [Match.find?_ofSubject, if_pos rfl, ← solution.about]
      exact .inl wanted
    · exact .inr (solution.named same wanted)

theorem isAdaptiveForTopic_of_solution {constructs : List Construct} (kind : t.kind = .topic)
    (settled : t.Settled) (solution : s.Solution p subject t.flattened goal constructs) :
    s.isAdaptiveForTopic p t subject = true := by
  obtain ⟨groups, stand, perm⟩ := stand_of_assert p solution.asserts
  rw [isAdaptiveForTopic, Matcher.matchTopic?, if_pos kind]
  refine Matcher.search_settled (w := s.matcher p) solution.agrees stand settled ?_ ?_ ?_
  · intro token known
    rw [List.mem_singleton.mp known, Match.IsBound, Match.find?_ofSubject, if_pos rfl]
    rfl
  · exact ((perm.filter _).nodup_iff).mpr solution.distinct
  · intro c inside nonrole
    have unwritten := solution.unwritten c (perm.mem_iff.mp inside) nonrole
    exact Matcher.available_iff.mpr ⟨unwritten, List.not_mem_nil⟩

theorem solution_of_matchTopic? (found : (s.matcher p).matchTopic? t subject = some m) :
    ∃ constructs, s.Solution p subject t.flattened m constructs := by
  obtain ⟨constructs, asserted, claims⟩ := matchTopic?_asserts found
  obtain ⟨_, search⟩ := Matcher.matchTopic?_eq_some.mp found
  obtain ⟨_, _, takes⟩ := Matcher.search_spec search
  have start : (s.matcher p).Apart (.ofSubject subject) :=
    ⟨List.nodup_nil, fun _ claimed => absurd claimed List.not_mem_nil⟩
  have apart := Matcher.search_apart start search
  refine ⟨constructs, ?_⟩
  exact {
    about := takes.grows.keeps (by rw [Match.find?_ofSubject, if_pos rfl])
    named := by
      intro token id other bound
      rcases takes.grows.named bound with given | named
      · rw [Match.find?_ofSubject, if_neg other] at given
        cases given
      · exact named
    asserts := asserted
    distinct := ((claims.filter _).nodup_iff).mp apart.distinct
    unwritten := fun c inside => apart.unwritten c (claims.mem_iff.mpr inside) }

/-- A topic template in which the order of roles is settled applies to a topic exactly if there is a
solution. -/
theorem isAdaptiveForTopic_iff_solution (s : Session) (p : Progress) {t : Template}
    (kind : t.kind = .topic) (settled : t.Settled) (subject : TopicId) :
    s.isAdaptiveForTopic p t subject = true ↔
      ∃ goal constructs, s.Solution p subject t.flattened goal constructs := by
  constructor
  · intro adaptive
    obtain ⟨m, found⟩ := Option.isSome_iff_exists.mp adaptive
    exact ⟨m, solution_of_matchTopic? found⟩
  · rintro ⟨goal, constructs, solution⟩
    exact isAdaptiveForTopic_of_solution kind settled solution

/-- Two persons who know each other, and a place that one of them names for the meeting with the
other. -/
def meetingCalls : List BuildCall :=
  [.topicAt .subjectIdentifier "http://t.example/knows",
    .topicAt .subjectIdentifier "http://t.example/person",
    .topicAt .subjectIdentifier "http://t.example/alice",
    .topicAt .subjectIdentifier "http://t.example/bob",
    .topicAt .subjectIdentifier "http://t.example/met", .createAssociation ⟨0⟩ [],
    .createRole ⟨0⟩ ⟨1⟩ ⟨2⟩, .createRole ⟨0⟩ ⟨1⟩ ⟨3⟩,
    .createOccurrence ⟨2⟩ ⟨4⟩ "Paris" Iri.string [⟨3⟩]]

def meeting : TopicMap := meetingCalls.foldl BuildCall.apply {}

def meetingSession : Session where
  source := meeting.source
  settings := {}
  table := .empty
  typing := {}

def knows : AssociationPattern where
  type := .fixed ⟨0⟩
  roles := [⟨.fixed ⟨1⟩, .var "$one", none⟩, ⟨.fixed ⟨1⟩, .var "$other", none⟩]

def met : OccurrencePattern where
  type := .fixed ⟨4⟩
  value := "$place"
  datatype := Iri.string
  scope := some [.var "$one"]

def meetingGoal : Match where
  bindings := [("$one", .topic ⟨3⟩), ("$other", .topic ⟨2⟩), ("$place", .literal "Paris" Iri.string),
    (subjectToken, .topic ⟨2⟩)]

theorem knows_asserted :
    meetingSession.Asserts ⟨2⟩ meetingGoal (.association knows) (.association ⟨0⟩) := by
  refine .association (by decide) rfl ⟨rfl, .nil, .none, [⟨1⟩, ⟨0⟩], .swap _ _ _, ?_⟩
  exact .cons ⟨rfl, rfl, .none⟩ (.cons ⟨rfl, rfl, .none⟩ .nil)

theorem met_asserted :
    meetingSession.Asserts ⟨2⟩ meetingGoal (.occurrence met) (.occurrence ⟨0⟩) :=
  .occurrence (by decide) ⟨rfl, ⟨_, rfl⟩, rfl, .cons rfl .nil, .none⟩

theorem meeting_solution {statements : List Statement} {constructs : List Construct}
    (asserts : List.Forall₂ (meetingSession.Asserts ⟨2⟩ meetingGoal) statements constructs)
    (distinct : ((constructs.flatMap meetingSession.source.whole).filter (!·.isRole)).Nodup) :
    meetingSession.Solution {} ⟨2⟩ statements meetingGoal constructs where
  about := by rfl
  named := by
    intro token id _ found
    obtain ⟨_, _, split, _⟩ := List.lookup_eq_some_iff.mp found
    have member : (token, Bound.topic id) ∈ meetingGoal.bindings := split ▸ by simp
    have named : ∀ binding ∈ meetingGoal.bindings, ∀ topic, binding.2 = .topic topic →
        (meetingSession.source.topic topic).isAnonymous = false := by
      simp [meetingGoal]
      decide
    exact named _ member id rfl
  asserts := asserts
  distinct := distinct
  unwritten := fun c _ _ => Written.not_mem_empty c

def placedTemplate : Template :=
  ⟨"placed", .topic, [.statement (.occurrence met), .statement (.association knows)]⟩

theorem meeting_placed :
    placedTemplate.kind = .topic ∧ placedTemplate.Settled ∧
      meetingSession.isAdaptiveForTopic {} placedTemplate ⟨2⟩ = true := by
  have settled : placedTemplate.Settled := ⟨trivial, .inr nofun, trivial⟩
  refine ⟨rfl, settled, ?_⟩
  apply (isAdaptiveForTopic_iff_solution meetingSession {} rfl settled ⟨2⟩).mpr
  refine ⟨meetingGoal, [.occurrence ⟨0⟩, .association ⟨0⟩], meeting_solution ?_ (by decide)⟩
  exact .cons met_asserted (.cons knows_asserted .nil)

def acquaintedTemplate : Template :=
  ⟨"acquainted", .topic, [.statement (.association knows), .statement (.occurrence met)]⟩

/-- A valid template that has a solution does not match, as the second order of the roles is never
tried. -/
theorem second_order_missed :
    meeting.Built ∧ acquaintedTemplate.validate = .ok () ∧ acquaintedTemplate.kind = .topic ∧
      (∃ goal constructs,
        meetingSession.Solution {} ⟨2⟩ acquaintedTemplate.flattened goal constructs) ∧
      meetingSession.isAdaptiveForTopic {} acquaintedTemplate ⟨2⟩ = false := by
  refine ⟨?_, by rfl, rfl, ?_, by rfl⟩
  · apply TopicMap.Built.calls .empty
    simp [meetingCalls, BuildCall.AllValid, BuildCall.Valid, BuildCall.apply]
    decide
  · refine ⟨meetingGoal, [.association ⟨0⟩, .occurrence ⟨0⟩], meeting_solution ?_ (by decide)⟩
    exact .cons knows_asserted (.cons met_asserted .nil)

end Session
end CompactTopicMap
