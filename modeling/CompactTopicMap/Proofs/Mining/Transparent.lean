import CompactTopicMap.Proofs.Completeness
import CompactTopicMap.Proofs.Mining.Merged
import CompactTopicMap.Proofs.Mining.Mined
import CompactTopicMap.Proofs.Rejection

/-! The run with templates is ahead of the one without them only while a block is written. -/

namespace CompactTopicMap

theorem TopicRef.Explicit.isNamed {s : Session} {pattern : TopicRef} {m : Match} {id : TopicId}
    (explicit : pattern.Explicit s.source) (denotes : pattern.Denotes m id) : s.IsNamed id := by
  cases pattern with
  | fixed other => exact denotes ▸ explicit
  | var token => exact explicit.elim

theorem TopicRef.Explicit.areNamed {s : Session} {patterns : List TopicRef} {m : Match}
    {themes : List TopicId} (explicit : ∀ pattern ∈ patterns, pattern.Explicit s.source)
    (denote : List.Forall₂ (TopicRef.Denotes m) patterns themes) :
    ∀ theme ∈ themes, s.IsNamed theme := by
  induction denote with
  | nil => simp
  | cons head _ ih =>
    intro theme member
    rcases List.mem_cons.mp member with rfl | later
    · exact (explicit _ List.mem_cons_self).isNamed head
    · exact ih (fun pattern inside => explicit pattern (List.mem_cons_of_mem _ inside)) theme later

namespace Session

variable {s : Session} {p q : Progress} {id : TopicId}

/-- The constructs of a topic that a literal statement marks alone. -/
inductive Literal (s : Session) (id : TopicId) : Construct → Prop where
  | typing {type : TopicId} (member : type ∈ s.typesOf id) (named : s.IsNamed type) :
    Literal s id (.typing id type)
  | name {name : NameId} (member : name ∈ (s.source.topic id).names)
    (encodable : s.NameEncodable name) (plain : (s.source.name name).variants = []) :
    Literal s id (.name name)
  | occurrence {o : OccurrenceId} (member : o ∈ (s.source.topic id).occurrences)
    (encodable : s.OccurrenceEncodable o) : Literal s id (.occurrence o)

theorem stands_literal {statement : Statement} {taken : List Construct} {m : Match}
    (explicit : statement.Explicit s.source) (stands : (s.matcher p).Stands id m statement taken) :
    ∀ c ∈ taken, s.Literal id c := by
  cases stands with
  | isa member denotes =>
    intro c claimed
    rw [List.mem_singleton.mp claimed]
    exact .typing member (TopicRef.Explicit.isNamed explicit denotes)
  | @name pattern name member denotes =>
    have explicit : pattern.Explicit s.source := explicit
    have plain : (s.source.name name).variants = [] := by
      have variants := denotes.variants
      rw [explicit.variants] at variants
      exact List.forall₂_nil_left_iff.mp variants
    have plain' : ((s.matcher p).source.name name).variants = [] := plain
    intro c claimed
    rw [plain', List.reverse_nil, List.map_nil] at claimed
    rw [List.mem_singleton.mp claimed]
    refine .name member ⟨.inr (explicit.type.isNamed denotes.type), ?_⟩ plain
    exact TopicRef.Explicit.areNamed explicit.themes denotes.scope
  | @occurrence pattern o member denotes =>
    have explicit : pattern.Explicit s.source := explicit
    intro c claimed
    rw [List.mem_singleton.mp claimed]
    refine .occurrence member ⟨explicit.type.isNamed denotes.type, ?_⟩
    exact TopicRef.Explicit.areNamed explicit.themes denotes.scope
  | ako | identifier | association => exact explicit.elim

theorem matchTopic?_literal {t : Template} {m : Match} (explicit : t.Explicit s.source)
    (found : (s.matcher p).matchTopic? t id = some m) : ∀ c ∈ m.claims, s.Literal id c := by
  have topic := (Matcher.matchTopic?_eq_some.mp found).1
  have statements : ∀ statement ∈ t.flattened, statement.Explicit s.source := by
    cases explicit with
    | association => cases topic
    | @topic name entries identifier nonempty each =>
      intro statement member
      rw [Template.flattened, Entry.flattenAll_eq_flatMap] at member
      obtain ⟨entry, inside, here⟩ := List.mem_flatMap.mp member
      exact (each entry inside).flatten statement here
  intro c claimed
  obtain ⟨statement, listed, taken, stands, inside⟩ := Matcher.matchTopic?_claims found claimed
  exact stands_literal (statements statement listed) stands c inside

theorem matchAssociation?_encodable {t : Template} {association : AssociationId} {m : Match}
    (explicit : t.Explicit s.source)
    (found : (s.matcher p).matchAssociation? t association = some m) :
    s.AssociationEncodable association := by
  obtain ⟨pattern, kind, entries, _, matched⟩ := Matcher.matchAssociation?_spec found
  obtain ⟨_, _, takes, denotes⟩ := Matcher.association?_spec matched
  cases explicit with
  | topic => cases kind
  | @association name other identifier explicit =>
    obtain rfl : other = pattern := by simpa using entries
    have bound : ∀ {token player}, m.find? token = some (.topic player) → s.IsNamed player := by
      intro token player found
      exact (takes.grows.named found).resolve_left nofun
    refine ⟨explicit.type.isNamed denotes.type, ?_, ?_⟩
    · obtain ⟨chosen, perm, roles⟩ := denotes.roles
      intro role member
      obtain ⟨rolePattern, inside, denotes⟩ :=
        exists_of_mem_forall₂ roles (perm.mem_iff.mpr member)
      have role := explicit.roles rolePattern inside
      obtain ⟨token, player⟩ := role.player
      have played := denotes.player
      rw [player] at played
      exact ⟨role.type.isNamed denotes.type, bound played⟩
    · have scope := denotes.scope
      rw [explicit.scope] at scope
      have none : (s.source.association association).scope = [] :=
        List.forall₂_nil_left_iff.mp scope
      simp [none]

def bare (s : Session) : Session :=
  { s with settings := { s.settings with mineTemplates := false }, templates := [] }

/-- The same is written and as much is skipped. -/
structure Level (p q : Progress) : Prop where
  written : ∀ c, c ∈ p.written ↔ c ∈ q.written
  skipped : p.skipped = q.skipped

/-- The first progress is level with the second, apart from constructs of the topic that can be said
literally. -/
structure Ahead (s : Session) (id : TopicId) (p q : Progress) : Prop where
  behind : ∀ c, c ∈ q.written → c ∈ p.written
  extra : ∀ c, c ∈ p.written → c ∈ q.written ∨ s.Literal id c
  skipped : p.skipped = q.skipped

/-- Two writes that succeed, with both a piece or neither, and end level. -/
def Abreast (result result' : Progress × Except Error (Option Piece)) : Prop :=
  ∃ p q x y, result = (p, .ok x) ∧ result' = (q, .ok y) ∧ Level p q ∧ x.isSome = y.isSome

theorem Level.mark (level : Level p q) (c : Construct) : Level (p.mark c) (q.mark c) := by
  refine ⟨?_, level.skipped⟩
  intro d
  rw [Progress.mem_mark, Progress.mem_mark, level.written]

theorem Level.skip (level : Level p q) : Level p.skip q.skip :=
  ⟨level.written, congrArg (· + 1) level.skipped⟩

theorem Level.ahead (level : Level p q) : s.Ahead id p q :=
  ⟨fun c => (level.written c).mpr, fun c old => .inl ((level.written c).mp old), level.skipped⟩

theorem Ahead.markAll (ahead : s.Ahead id p q) {claims : List Construct}
    (literal : ∀ c ∈ claims, s.Literal id c) : s.Ahead id (p.markAll claims) q := by
  refine ⟨?_, ?_, ahead.skipped⟩
  · intro c old
    exact Written.mem_insertAll.mpr (.inr (ahead.behind c old))
  · intro c member
    rcases Written.mem_insertAll.mp member with new | old
    · exact .inr (literal c new)
    · exact ahead.extra c old

theorem afterInvocations_ahead (explicit : ∀ t ∈ s.templates, t.Explicit s.source)
    (level : Level p q) :
    s.Ahead id (s.afterInvocations p id) (s.bare.afterInvocations q id) := by
  have identity : s.bare.identity? id = s.identity? id := rfl
  unfold afterInvocations
  rw [identity]
  cases s.identity? id with
  | none => exact level.ahead
  | some identity =>
    have step : ∀ t ∈ s.templates, ∀ r m, (s.matcher r).matchTopic? t id = some m →
        s.Ahead id r (q.mark (.locator id identity.kind identity.iri)) →
        s.Ahead id (r.markAll m.claims) (q.mark (.locator id identity.kind identity.iri)) :=
      fun t member r m found ahead => ahead.markAll (matchTopic?_literal (explicit t member) found)
    obtain ⟨r, texts, invoked, ahead⟩ := invokeTemplates_induction step
      (p.mark (.locator id identity.kind identity.iri)) (level.mark _).ahead
    simp only [invoked]
    exact ahead

theorem Ahead.added (ahead : s.Ahead id p q) (c : Construct) :
    (c ∈ p.written ∨ s.TypesAdd id c ∨ s.CharacteristicsAdd p id c) ↔
      (c ∈ q.written ∨ s.TypesAdd id c ∨ s.CharacteristicsAdd q id c) := by
  constructor
  · rintro (old | types | ⟨name, member, fresh, adds⟩ | others)
    · rcases ahead.extra c old with old | literal
      · exact .inl old
      · cases literal with
        | @typing type member named => exact .inr (.inl (.inl ⟨type, member, named, rfl⟩))
        | @name name member encodable plain =>
          by_cases earlier : .name name ∈ q.written
          · exact .inl earlier
          · exact .inr (.inr (.inl ⟨name, member, earlier, encodable, .inl rfl⟩))
        | @occurrence o member encodable =>
          exact .inr (.inr (.inr (.inl ⟨o, member, encodable, rfl⟩)))
    · exact .inr (.inl types)
    · exact .inr (.inr (.inl ⟨name, member, fun old => fresh (ahead.behind _ old), adds⟩))
    · exact .inr (.inr (.inr others))
  · rintro (old | types | ⟨name, member, fresh, encodable, adds⟩ | others)
    · exact .inl (ahead.behind c old)
    · exact .inr (.inl types)
    · by_cases earlier : .name name ∈ p.written
      · have literal := (ahead.extra _ earlier).resolve_left fresh
        have plain : (s.source.name name).variants = [] := by
          cases literal
          assumption
        rcases adds with rfl | ⟨v, inside, _⟩
        · exact .inl earlier
        · rw [plain] at inside
          cases inside
      · exact .inr (.inr (.inl ⟨name, member, earlier, encodable, adds⟩))
    · exact .inr (.inr (.inr others))

theorem Ahead.characteristicsDropped (ahead : s.Ahead id p q) {p' q' : Progress}
    (written : ∀ c, c ∈ p'.written ↔ c ∈ q'.written) :
    s.characteristicsDropped p p' id = s.characteristicsDropped q q' id := by
  have missing : s.missingVariants p' = s.missingVariants q' := by
    funext name
    simp only [missingVariants, written]
  have sums : ∑ name ∈ writtenNames p p' (s.source.topic id).names, s.missingVariants q' name =
      ∑ name ∈ writtenNames q q' (s.source.topic id).names, s.missingVariants q' name := by
    apply Finset.sum_subset
    · intro name member
      obtain ⟨listed, fresh, marked⟩ := mem_writtenNames.mp member
      exact mem_writtenNames.mpr
        ⟨listed, fun old => fresh (ahead.behind _ old), (written _).mp marked⟩
    · intro name member absent
      obtain ⟨listed, fresh, marked⟩ := mem_writtenNames.mp member
      have earlier : .name name ∈ p.written := by
        by_contra unwritten
        exact absent (mem_writtenNames.mpr ⟨listed, unwritten, (written _).mpr marked⟩)
      have plain : (s.source.name name).variants = [] := by
        cases (ahead.extra _ earlier).resolve_left fresh
        assumption
      rw [missingVariants, plain, List.countP_nil]
  simp only [Session.characteristicsDropped, namesDropped, written, missing, sums]

theorem writeTopic_level (explicit : ∀ t ∈ s.templates, t.Explicit s.source) (level : Level p q)
    (id : TopicId) : Abreast (s.writeTopic p id) (s.bare.writeTopic q id) := by
  by_cases reserved : s.isReserved id = true
  · exact ⟨p, q, none, none, s.writeTopic_of_reserved p reserved,
      s.bare.writeTopic_of_reserved q reserved, level, rfl⟩
  · have unreserved : s.isReserved id = false := by simpa using reserved
    have unreserved' : s.bare.isReserved id = false := unreserved
    by_cases named : s.IsNamed id
    · have named' : s.bare.IsNamed id := named
      obtain ⟨p', x, written, gains⟩ := s.writeTopic_gains p unreserved named
      obtain ⟨q', y, written', gains'⟩ := s.bare.writeTopic_gains q unreserved' named'
      have ahead : s.Ahead id (s.afterInvocations p id) (s.bare.afterInvocations q id) :=
        afterInvocations_ahead explicit level
      have same : ∀ c, c ∈ p'.written ↔ c ∈ q'.written := by
        intro c
        rw [gains.mem, gains'.mem]
        exact ahead.added c
      have types : s.typesDropped id p' = s.bare.typesDropped id q' := by
        simp only [typesDropped, same]
        rfl
      have characteristics : s.characteristicsDropped (s.afterInvocations p id) p' id =
          s.bare.characteristicsDropped (s.bare.afterInvocations q id) q' id :=
        ahead.characteristicsDropped same
      have skipped : p'.skipped = q'.skipped := by
        rw [gains.skipped, gains'.skipped, types, characteristics, ahead.skipped]
      exact ⟨p', q', some x, some y, written, written', ⟨same, skipped⟩, rfl⟩
    · exact ⟨p.skip, q.skip, none, none, s.writeTopic_of_anonymous p unreserved named,
        s.bare.writeTopic_of_anonymous q unreserved' named, level.skip, rfl⟩

theorem writeAssociation_level (explicit : ∀ t ∈ s.templates, t.Explicit s.source)
    (level : Level p q) (association : AssociationId) :
    Abreast (s.writeAssociation p association) (s.bare.writeAssociation q association) := by
  by_cases closed : .association association ∈ q.written ∨ s.typing.isFolded association = true
  · have closed' : .association association ∈ p.written ∨ s.typing.isFolded association = true := by
      rwa [level.written]
    exact ⟨p, q, none, none, s.writeAssociation_of_closed closed',
      s.bare.writeAssociation_of_closed closed, level, rfl⟩
  · obtain ⟨absent, unfolded⟩ := not_or.mp closed
    have absent' : .association association ∉ p.written := by rwa [level.written]
    have unfolded : s.typing.isFolded association = false := by simpa using unfolded
    have unfolded' : s.bare.typing.isFolded association = false := unfolded
    rcases s.writeAssociation_gains absent' unfolded with
      ⟨p', x, written, gains, applies⟩ | ⟨cannot, skipped⟩
    · have can : s.AssociationEncodable association := by
        rcases applies with can | ⟨t, member, adaptive⟩
        · exact can
        · obtain ⟨m, found⟩ := isAdaptiveForAssociation_iff.mp adaptive
          exact matchAssociation?_encodable (explicit t member) found
      rcases s.bare.writeAssociation_gains absent unfolded' with
        ⟨q', y, written', gains', _⟩ | ⟨cannot, _⟩
      · refine ⟨p', q', some x, some y, written, written', ⟨?_, ?_⟩, rfl⟩
        · intro c
          rw [gains.mem, gains'.mem, level.written]
          rfl
        · rw [gains.skipped, gains'.skipped, level.skipped]
      · exact absurd can cannot
    · rcases s.bare.writeAssociation_gains absent unfolded' with
        ⟨_, _, _, _, can | ⟨t, impossible, _⟩⟩ | ⟨_, skipped'⟩
      · exact absurd can cannot
      · cases impossible
      · exact ⟨p.skip, q.skip, none, none, skipped, skipped', level.skip, rfl⟩

end Session

open Session (Level Abreast)

theorem writeEach_level {α : Type}
    {write write' : Progress → α → Progress × Except Error (Option Piece)}
    (step : ∀ p q item, Level p q → Abreast (write p item) (write' q item))
    (items : List α) {p q : Progress} (level : Level p q) :
    Level (writeEach write items p).progress (writeEach write' items q).progress ∧
      (writeEach write items p).pieces.length = (writeEach write' items q).pieces.length := by
  induction items generalizing p q with
  | nil => exact ⟨level, rfl⟩
  | cons item items ih =>
    obtain ⟨p', q', x, y, written, written', next, same⟩ := step p q item level
    have rest := ih next
    unfold writeEach
    rw [written, written']
    cases x with
    | none =>
      cases y with
      | none => exact rest
      | some => cases same
    | some =>
      cases y with
      | none => cases same
      | some => exact ⟨rest.1, congrArg (· + 1) rest.2⟩

namespace Writer

theorem topicPieces_level {s : Session} (explicit : ∀ t ∈ s.templates, t.Explicit s.source) :
    Level (topicPieces s).progress (topicPieces s.bare).progress ∧
      (topicPieces s).pieces.length = (topicPieces s.bare).pieces.length := by
  have header : Level (header s).1 (header s.bare).1 := ⟨fun _ => Iff.rfl, rfl⟩
  exact writeEach_level (fun _ _ id level => Session.writeTopic_level explicit level id)
    s.source.topicIds header

theorem associationPieces_level {s : Session} (explicit : ∀ t ∈ s.templates, t.Explicit s.source) :
    Level (associationPieces s).progress (associationPieces s.bare).progress ∧
      (associationPieces s).pieces.length = (associationPieces s.bare).pieces.length :=
  writeEach_level (fun _ _ id level => Session.writeAssociation_level explicit level id)
    s.source.associationIds (topicPieces_level explicit).1

theorem prepareTemplates_explicit {w : Writer} (unregistered : w.templates = []) (s : Session) :
    ∀ t ∈ w.prepareTemplates s, t.Explicit s.source := by
  have explicit : ∀ t ∈ w.templates ++
      (if w.settings.mineTemplates then s.mineAll (w.templates.map Template.name) else []),
      t.Explicit s.source := by
    intro t member
    rw [unregistered, List.nil_append] at member
    split at member
    · exact s.mineAll_explicit _ t member
    · cases member
  simp only [prepareTemplates]
  generalize w.templates ++ _ = templates at explicit ⊢
  split
  · exact Merger.merge_explicit _ explicit
  · exact explicit

theorem prepareTemplates_eq_nil {w : Writer} (unregistered : w.templates = [])
    (unmined : w.settings.mineTemplates = false) (s : Session) : w.prepareTemplates s = [] := by
  have merged (merger : Merger) : (merger.merge []).2 = [] := by
    simp [Merger.merge, Merger.candidates]
  simp [prepareTemplates, unregistered, unmined, merged]

def plainSession (w : Writer) (source : Source) (typing : Typing) : Session where
  source := source
  settings := w.settings
  table := if w.settings.detectNamespaces then (w.table.detect w.labelling source).1 else w.table
  typing := typing

theorem open?_of_explicit {w : Writer} {source : Source} {typing : Typing}
    (indexed : Typing.build source = .ok typing)
    (explicit : ∀ t ∈ w.prepareTemplates (w.plainSession source typing),
      t.Explicit (w.plainSession source typing).source) :
    ∃ definitions, w.open? source = .ok
      ({ w.plainSession source typing with
          templates := invocationOrder (w.prepareTemplates (w.plainSession source typing)) },
        definitions) := by
  obtain ⟨definitions, defined⟩ := w.definitions_succeeds explicit
  refine ⟨definitions, ?_⟩
  have valid := forM_validate_ok explicit
  simp only [plainSession] at valid defined
  simp only [open?, indexed, bind, Except.bind, valid, defined, plainSession]

def withMining (w : Writer) (on : Bool) : Writer :=
  { w with settings := { w.settings with mineTemplates := on } }

/-- Without registered templates, a write that mines templates, and merges them or not, ends with
the same constructs written, and the same numbers of topics, associations, prefixes and skips, as
the write that mines none. -/
theorem mining_transparent (w : Writer) (source : Source) (typing : Typing)
    (indexed : Typing.build source = .ok typing) (unregistered : w.templates = []) :
    ∃ mined plain : Session, ∃ definitions definitions' : List String, ∃ report report' : Report,
      (w.withMining true).open? source = .ok (mined, definitions) ∧
      (w.withMining false).open? source = .ok (plain, definitions') ∧
      ((w.withMining true).write source).result = .ok report ∧
      ((w.withMining false).write source).result = .ok report' ∧
      (∀ c, c ∈ (associationPieces mined).progress.written ↔
        c ∈ (associationPieces plain).progress.written) ∧
      report.topics = report'.topics ∧ report.associations = report'.associations ∧
      report.bindings = report'.bindings ∧ report.skipped = report'.skipped := by
  have none (on : Bool) : (w.withMining on).templates = [] := unregistered
  have explicit (on : Bool) : ∀ t ∈ (w.withMining on).prepareTemplates
      ((w.withMining on).plainSession source typing), t.Explicit source :=
    prepareTemplates_explicit (none on) _
  obtain ⟨definitions, opened⟩ := open?_of_explicit indexed (explicit true)
  obtain ⟨definitions', opened'⟩ := open?_of_explicit indexed (explicit false)
  have bare : invocationOrder ((w.withMining false).prepareTemplates
      ((w.withMining false).plainSession source typing)) = [] := by
    rw [prepareTemplates_eq_nil (none false) rfl]
    exact List.mergeSort_nil
  rw [bare] at opened'
  generalize listed : invocationOrder ((w.withMining true).prepareTemplates
    ((w.withMining true).plainSession source typing)) = templates at opened
  have all : ∀ t ∈ templates, t.Explicit source := by
    intro t member
    rw [← listed, invocationOrder, List.mem_mergeSort] at member
    exact explicit true t member
  let mined : Session :=
    { (w.withMining true).plainSession source typing with templates }
  have topics := topicPieces_level (s := mined) all
  have associations := associationPieces_level (s := mined) all
  have written : ((w.withMining true).write source).result =
      .ok (report mined definitions (topicPieces mined) (associationPieces mined)) := by
    rw [write, opened]
    exact assemble_result _ mined definitions
  have written' : ((w.withMining false).write source).result =
      .ok (report mined.bare definitions' (topicPieces mined.bare)
        (associationPieces mined.bare)) := by
    rw [write, opened']
    exact assemble_result _ mined.bare definitions'
  exact ⟨mined, mined.bare, definitions, definitions', _, _, opened, opened', written, written',
    associations.1.written, topics.2, associations.2, rfl, associations.1.skipped⟩

theorem village_mined :
    Typing.build village.source = .ok {} ∧ plainWriter.templates = [] ∧
      ∃ report : Report, ((plainWriter.withMining true).write village.source).result = .ok report ∧
        report.topics = 1 ∧ report.associations = 1 ∧ report.bindings = 1 ∧
        report.skipped = 2 := by
  have indexed : Typing.build village.source = .ok {} := by rfl
  have unregistered : plainWriter.templates = [] := by rfl
  have plain : ((plainWriter.withMining false).write village.source).result.toOption =
      some { topics := 1, associations := 1, bindings := 1, skipped := 2 } := by decide +kernel
  obtain ⟨_, _, _, _, report, _, _, _, written, written', _, topics, associations, bindings,
    skipped⟩ := mining_transparent plainWriter village.source {} indexed unregistered
  rw [written'] at plain
  cases Option.some.inj plain
  exact ⟨indexed, unregistered, report, written, topics, associations, bindings, skipped⟩

/-- Without registered templates nothing but the reserved associations of a graph can reject it,
whatever is mined and merged: each mined template, and each one that merging makes of them, is valid
and can be defined. -/
theorem mining_rejects_nothing (w : Writer) (unregistered : w.templates = []) (source : Source) :
    (∀ e, (w.write source).result = .error e ↔ Typing.build source = .error e) ∧
      ∀ (s : Session) (taken : List String),
        (∀ t ∈ s.mineAll taken, t.validate = .ok () ∧ ∃ text, s.define t = .ok text) ∧
        ∀ merger : Merger, ∀ t ∈ (merger.merge (s.mineAll taken)).2,
          t.validate = .ok () ∧ ∃ text, s.define t = .ok text := by
  refine ⟨fun e => ?_, fun s taken => ⟨?_, ?_⟩⟩
  · cases indexed : Typing.build source with
    | error cause =>
      have rejected : w.open? source = .error cause := by
        simp only [open?, indexed, bind, Except.bind]
      rw [write, rejected]
      simp only [Except.error.injEq]
    | ok typing =>
      have explicit := prepareTemplates_explicit unregistered (w.plainSession source typing)
      obtain ⟨definitions, opened⟩ := open?_of_explicit indexed explicit
      rw [write, opened]
      simp only [assemble_result, reduceCtorEq]
  · intro t member
    have explicit := s.mineAll_explicit taken t member
    exact ⟨explicit.validate_ok, Session.define_succeeds explicit⟩
  · intro merger t member
    have explicit := merger.merge_explicit (s.mineAll_explicit taken) t member
    exact ⟨explicit.validate_ok, Session.define_succeeds explicit⟩

theorem mining_rejects_nothing_loose :
    (plainWriter.withMining true).templates = [] ∧
      ((plainWriter.withMining true).write looseTyping).result =
        .error (.structuralConstraint ⟨0⟩ Iri.typeInstance Iri.typeRole 0) ∧
      ∀ e, ((plainWriter.withMining true).write village.source).result ≠ .error e := by
  have unregistered : (plainWriter.withMining true).templates = [] := by rfl
  have loose := (mining_rejects_nothing _ unregistered looseTyping).1
  have sound := (mining_rejects_nothing _ unregistered village.source).1
  refine ⟨unregistered, (loose _).mpr (by rfl), fun e failed => ?_⟩
  have indexed : Typing.build village.source = .ok {} := by rfl
  rw [sound e, indexed] at failed
  cases failed

end Writer
end CompactTopicMap
