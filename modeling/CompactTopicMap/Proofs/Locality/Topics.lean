import CompactTopicMap.Document
import CompactTopicMap.Proofs.Locality.Steps
import CompactTopicMap.Proofs.Matching.Search
import Mathlib.Algebra.GroupWithZero.Nat

namespace CompactTopicMap

/-- The constructs that a topic block may stand for. -/
inductive Source.Own (source : Source) (id : TopicId) : Construct → Prop where
  | name {name : NameId} (member : name ∈ (source.topic id).names) : Own source id (.name name)
  | variant {name : NameId} {v : VariantId} (member : name ∈ (source.topic id).names)
    (inside : v ∈ (source.name name).variants) : Own source id (.variant v)
  | occurrence {o : OccurrenceId} (member : o ∈ (source.topic id).occurrences) :
    Own source id (.occurrence o)
  | locator (kind : LocatorKind) (iri : String) : Own source id (.locator id kind iri)
  | typing (type : TopicId) : Own source id (.typing id type)
  | subtyping (supertype : TopicId) : Own source id (.subtyping id supertype)

theorem TopicMap.Sound.own_unique {source : Source} (sound : source.map.Sound) {id other : TopicId}
    {c : Construct} (mine : source.Own id c) (theirs : source.Own other c) : id = other := by
  cases mine with
  | name member =>
    cases theirs with
    | name member' => exact (sound.name_parent member).symm.trans (sound.name_parent member')
  | @variant name v member inside =>
    cases theirs with
    | @variant name' _ member' inside' =>
      have same : name = name' :=
        (sound.variant_parent inside).symm.trans (sound.variant_parent inside')
      subst same
      exact (sound.name_parent member).symm.trans (sound.name_parent member')
  | occurrence member =>
    cases theirs with
    | occurrence member' =>
      exact (sound.occurrence_parent member).symm.trans (sound.occurrence_parent member')
  | locator | typing | subtyping =>
    cases theirs
    rfl

def TopicTemplatesPlain (templates : List Template) : Prop :=
  ∀ t ∈ templates, t.kind = .topic → ∀ statement ∈ t.flattened, statement.isAssociation = false

namespace Matcher

variable {source : Source} {typing : Typing} {written written' : Written} {subject : TopicId}

theorem available_congr (source : Source) (typing : Typing) {c : Construct}
    (same : c ∈ written ↔ c ∈ written') (m : Match) :
    (Matcher.mk source typing written).available m c =
      (Matcher.mk source typing written').available m c := by
  simp only [available, same]

theorem variants?_congr (source : Source) (typing : Typing) (patterns : List VariantPattern)
    {ids : List VariantId}
    (same : ∀ id ∈ ids, .variant id ∈ written ↔ .variant id ∈ written') :
    (Matcher.mk source typing written).variants? patterns ids =
      (Matcher.mk source typing written').variants? patterns ids := by
  induction patterns generalizing ids with
  | nil => cases ids <;> rfl
  | cons pattern patterns ih =>
    cases ids with
    | nil => rfl
    | cons id ids =>
      funext m
      have rest := ih fun other member => same other (List.mem_cons_of_mem id member)
      have here := available_congr source typing (same id List.mem_cons_self) m
      rw [variants?, variants?, rest, variant?, variant?, here]

theorem extend_congr (same : ∀ c, source.Own subject c → (c ∈ written ↔ c ∈ written'))
    {statement : Statement} (plain : statement.isAssociation = false) (m : Match) :
    (Matcher.mk source typing written).extend subject statement m =
      (Matcher.mk source typing written').extend subject statement m := by
  have available {c : Construct} (mine : source.Own subject c) :=
    available_congr source typing (same c mine) m
  cases statement with
  | isa pattern =>
    refine List.filterMap_congr fun type _ => ?_
    rw [relation?, relation?, available (.typing type)]
  | ako pattern =>
    refine List.filterMap_congr fun supertype _ => ?_
    rw [relation?, relation?, available (.subtyping supertype)]
  | name pattern =>
    refine List.filterMap_congr fun id member => ?_
    have parts := variants?_congr source typing pattern.variants fun v inside =>
      same _ (.variant member inside)
    simp only [available (.name member), name?, parts]
  | occurrence pattern =>
    refine List.filterMap_congr fun id member => ?_
    rw [available (.occurrence member)]
    rfl
  | identifier kind pattern =>
    refine List.filterMap_congr fun iri _ => ?_
    simp only [available (.locator kind iri)]
  | association => cases plain
  | variant _ | role _ | reifier _ | scope _ => rfl

theorem search_congr (same : ∀ c, source.Own subject c → (c ∈ written ↔ c ∈ written'))
    {statements : List Statement}
    (plain : ∀ statement ∈ statements, statement.isAssociation = false) :
    (Matcher.mk source typing written).search subject statements =
      (Matcher.mk source typing written').search subject statements := by
  induction statements with
  | nil => rfl
  | cons statement rest ih =>
    funext m
    have later := ih fun other member => plain other (List.mem_cons_of_mem statement member)
    rw [search, search, later, extend_congr same (plain statement List.mem_cons_self)]

theorem stands_own {w : Matcher} {m : Match} {statement : Statement} {taken : List Construct}
    (plain : statement.isAssociation = false) (stands : w.Stands subject m statement taken) :
    ∀ c ∈ taken, w.source.Own subject c := by
  cases stands with
  | isa => exact List.forall_mem_singleton.mpr (.typing _)
  | ako => exact List.forall_mem_singleton.mpr (.subtyping _)
  | name member =>
    refine List.forall_mem_cons.mpr ⟨.name member, fun c claimed => ?_⟩
    obtain ⟨v, inside, rfl⟩ := List.mem_map.mp claimed
    exact .variant member (List.mem_reverse.mp inside)
  | occurrence member => exact List.forall_mem_singleton.mpr (.occurrence member)
  | identifier => exact List.forall_mem_singleton.mpr (.locator _ _)
  | association => cases plain

theorem matchTopic?_own {w : Matcher} {t : Template} {m : Match}
    (plain : ∀ statement ∈ t.flattened, statement.isAssociation = false)
    (found : w.matchTopic? t subject = some m) :
    (∀ c ∈ m.claims, w.source.Own subject c) ∧ w.Fresh m := by
  obtain ⟨_, search⟩ := matchTopic?_eq_some.mp found
  refine ⟨fun c claimed => ?_, search_fresh (.ofSubject subject) plain search⟩
  obtain ⟨statement, listed, taken, stands, inside⟩ := matchTopic?_claims found claimed
  exact stands_own (plain statement listed) stands c inside

end Matcher

namespace Session

variable {s : Session} {id : TopicId} {t : Template}

theorem matchTopic?_agree {p q : Progress} (agree : p.AgreeOn (s.source.Own id) q)
    (plain : ∀ statement ∈ t.flattened, statement.isAssociation = false) :
    (s.matcher p).matchTopic? t id = (s.matcher q).matchTopic? t id := by
  unfold Matcher.matchTopic? matcher
  rw [Matcher.search_congr agree plain]

def afterMatch (s : Session) (t : Template) (id : TopicId) (rounds : Nat) (m : Match)
    (p : Progress) : Progress × Except Error (List String) :=
  match t.argumentTokens.mapM (s.argument t (.topic id) m) with
  | .error e => (p, .error e)
  | .ok arguments =>
    let q := p.markAll m.claims
    if m.claims = [] then (q, .ok [])
    else
      match s.invokeRepeatedly t id rounds q with
      | (r, .error e) => (r, .error e)
      | (r, .ok texts) => (r, .ok (t.invocation arguments :: texts))

theorem invokeRepeatedly_succ {p : Progress} {m : Match} (rounds : Nat)
    (plain : ∀ statement ∈ t.flattened, statement.isAssociation = false)
    (found : (s.matcher p).matchTopic? t id = some m) :
    s.invokeRepeatedly t id (rounds + 1) p = s.afterMatch t id rounds m p := by
  have fresh := (Matcher.matchTopic?_own plain found).2
  have size : (p.markAll m.claims).written.size = p.written.size + m.claims.length :=
    Written.size_insertAll fresh.distinct fresh.unwritten
  have idle : (p.markAll m.claims).written.size = p.written.size ↔ m.claims = [] := by
    rw [size, ← List.length_eq_zero_iff]
    omega
  rw [invokeRepeatedly, if_pos (isAdaptiveForTopic_iff.mpr ⟨m, found⟩), extractTopic, found, commit,
    afterMatch]
  cases t.argumentTokens.mapM (s.argument t (.topic id) m) with
  | error e => rfl
  | ok arguments => exact if_congr idle rfl rfl

theorem invokeRepeatedly_local (rounds : Nat)
    (plain : ∀ statement ∈ t.flattened, statement.isAssociation = false) :
    Local (s.source.Own id) (s.invokeRepeatedly t id rounds) := by
  induction rounds with
  | zero => exact .pure _
  | succ rounds ih =>
    intro p q agree
    -- Both runs find the same match, so that they end together or take the same step.
    have same := matchTopic?_agree agree plain
    cases found : (s.matcher p).matchTopic? t id with
    | none =>
      have idle {r : Progress} (none : (s.matcher r).matchTopic? t id = none) :
          s.invokeRepeatedly t id (rounds + 1) r = (r, .ok []) := by
        rw [invokeRepeatedly, isAdaptiveForTopic, none]
        rfl
      rw [idle found, idle (same.symm.trans found)]
      exact Local.pure _ p q agree
    | some m =>
      have mine : ∀ c ∈ m.claims, s.source.Own id c := (Matcher.matchTopic?_own plain found).1
      rw [invokeRepeatedly_succ rounds plain found,
        invokeRepeatedly_succ rounds plain (same.symm.trans found)]
      have step : Local (s.source.Own id) (s.afterMatch t id rounds m) := by
        unfold afterMatch
        cases t.argumentTokens.mapM (s.argument t (.topic id) m) with
        | error e => exact .pure _
        | ok arguments =>
          by_cases idle : m.claims = []
          · simp only [if_pos idle]
            exact .markAll mine _
          · simp only [if_neg idle]
            convert (Local.markAll mine ()).bind fun _ =>
              ih.andThen fun texts => .pure (.ok (t.invocation arguments :: texts)) using 2 with r
            rcases s.invokeRepeatedly t id rounds (r.markAll m.claims) with ⟨_, _ | _⟩ <;> rfl
      exact step p q agree

theorem invokeTemplates_local {templates : List Template} (plain : TopicTemplatesPlain templates) :
    Local (s.source.Own id) (s.invokeTemplates id templates) := by
  induction templates with
  | nil => exact .pure _
  | cons t ts ih =>
    have others := ih fun u member => plain u (List.mem_cons_of_mem t member)
    by_cases applies : (t.kind = .topic && !t.entries.isEmpty) = true
    · have topic : t.kind = .topic := by simpa using (Bool.and_eq_true_iff.mp applies).1
      have first : Local (s.source.Own id) (s.invokeRepeatedly t id (s.claimable id + 1)) :=
        invokeRepeatedly_local _ (plain t List.mem_cons_self topic)
      convert first.andThen fun texts => others.andThen fun more => .pure (.ok (texts ++ more)) using 1
      funext p
      rw [invokeTemplates, if_pos applies]
      rcases s.invokeRepeatedly t id (s.claimable id + 1) p with ⟨q, _ | texts⟩
      · rfl
      · dsimp only
        rcases s.invokeTemplates id ts q with ⟨_, _ | _⟩ <;> rfl
    · convert others using 1
      funext p
      rw [invokeTemplates, if_neg applies]

theorem encodeTypes_local : Local (s.source.Own id) (s.encodeTypes id) := by
  have types : Local (s.source.Own id)
      (encodeUnwritten (.typing id) (s.encodeRelation "isa " (.typing id)) (s.typesOf id)) :=
    encodeUnwritten_local (fun type _ => .typing type) fun type _ => encodeRelation_local (.typing type)
  have supertypes : Local (s.source.Own id)
      (encodeUnwritten (.subtyping id) (s.encodeRelation "ako " (.subtyping id))
        (s.supertypesOf id)) :=
    encodeUnwritten_local (fun type _ => .subtyping type) fun type _ =>
      encodeRelation_local (.subtyping type)
  exact types.bind fun texts => supertypes.map (texts ++ ·)

theorem encodeCharacteristics_local : Local (s.source.Own id) (s.encodeCharacteristics id) := by
  have names : Local (s.source.Own id)
      (encodeUnwritten .name s.encodeName (s.source.topic id).names) :=
    encodeUnwritten_local (fun name member => .name member) fun name member =>
      encodeName_local (.name member) fun v inside => .variant member inside
  have occurrences : Local (s.source.Own id)
      (encodeUnwritten .occurrence s.encodeOccurrence (s.source.topic id).occurrences) :=
    encodeUnwritten_local (fun o member => .occurrence member) fun o member =>
      encodeOccurrence_local (.occurrence member)
  have locators (kind : LocatorKind) : Local (s.source.Own id) (s.encodeLocators id kind) :=
    encodeLocators_local (.locator kind)
  exact names.bind fun first => occurrences.bind fun second =>
    (locators .subjectIdentifier).bind fun third => (locators .subjectLocator).bind fun fourth =>
      (locators .itemIdentifier).map (first ++ second ++ third ++ fourth ++ ·)

/-- The block of a topic depends on which of the topic's constructs are written, and adds only such. -/
theorem writeTopic_local (plain : TopicTemplatesPlain s.templates) :
    Local (s.source.Own id) fun p => s.writeTopic p id := by
  simp only [writeTopic]
  cases s.isReserved id with
  | true => exact .pure _
  | false =>
    cases s.identity? id with
    | none => exact .skip _
    | some identity =>
      have head : Local (s.source.Own id) fun p =>
          (p.mark (.locator id identity.kind identity.iri), ()) := .mark (.locator _ _) ()
      have invocations : Local (s.source.Own id) (s.invokeTemplates id s.templates) :=
        invokeTemplates_local plain
      simp only [Bool.false_eq_true, if_false]
      convert head.bind fun _ => invocations.andThen fun texts =>
        encodeTypes_local.bind fun types => encodeCharacteristics_local.map fun characteristics =>
          (.ok (some ⟨block identity.display (types ++ texts ++ characteristics), texts.length⟩) :
            Except Error (Option Piece)) using 2 with p
      rcases s.invokeTemplates id s.templates (p.mark (.locator id identity.kind identity.iri)) with
        ⟨_, _ | _⟩ <;> rfl

def writeTopics (s : Session) :
    List TopicId → Progress → Progress × List (Except Error (Option Piece))
  | [], p => (p, [])
  | id :: ids, p =>
    let (p, outcome) := s.writeTopic p id
    let (p, outcomes) := writeTopics s ids p
    (p, outcome :: outcomes)

theorem writeEach_eq_writeTopics (s : Session) (ids : List TopicId) (p : Progress) :
    writeEach s.writeTopic ids p = {
      progress := (s.writeTopics ids p).1
      pieces := (s.writeTopics ids p).2.filterMap fun outcome => outcome.toOption.join } := by
  induction ids generalizing p with
  | nil => rfl
  | cons id ids ih =>
    obtain ⟨q, piece, written⟩ := s.writeTopic_ok p id
    cases piece <;> simp [writeEach, writeTopics, written, ih, Except.toOption]

theorem writeTopic_own (plain : TopicTemplatesPlain s.templates) {p q : Progress}
    (agree : q.AgreeOn (s.source.Own id) p) :
    (s.writeTopic q id).2 = (s.writeTopic p id).2 ∧
      q.Gains (fun c => s.source.Own id c ∧ c ∈ (s.writeTopic p id).1.written)
        ((s.writeTopic p id).1.skipped - p.skipped) (s.writeTopic q id).1 := by
  have parallel := writeTopic_local plain q p agree
  obtain ⟨added, dropped, inside, gains, gains'⟩ := parallel.gains
  refine ⟨parallel.result, fun c => ?_, ?_⟩
  · rw [gains.mem, gains'.mem]
    constructor
    · rintro (old | new)
      · exact .inl old
      · exact .inr ⟨inside c new, .inr new⟩
    · rintro (old | ⟨mine, old | new⟩)
      · exact .inl old
      · exact .inl ((agree c mine).mpr old)
      · exact .inr new
  · rw [gains.skipped, gains'.skipped]
    omega

theorem writeTopics_gains (sound : s.source.map.Sound) (plain : TopicTemplatesPlain s.templates)
    {p q : Progress} {ids : List TopicId} (distinct : ids.Nodup)
    (agree : ∀ id ∈ ids, q.AgreeOn (s.source.Own id) p) :
    (s.writeTopics ids q).2 = ids.map (fun id => (s.writeTopic p id).2) ∧
      q.Gains (fun c => ∃ id ∈ ids, s.source.Own id c ∧ c ∈ (s.writeTopic p id).1.written)
        ((ids.map fun id => (s.writeTopic p id).1.skipped - p.skipped).sum)
        (s.writeTopics ids q).1 := by
  induction ids generalizing q with
  | nil => exact ⟨rfl, by simp [writeTopics], rfl⟩
  | cons id ids ih =>
    obtain ⟨fresh, distinct⟩ := List.nodup_cons.mp distinct
    obtain ⟨outcome, gains⟩ := writeTopic_own plain (agree id List.mem_cons_self)
    -- The first block adds constructs of its own topic, and the other topics own none of these.
    have still : ∀ other ∈ ids, (s.writeTopic q id).1.AgreeOn (s.source.Own other) p := by
      intro other member c mine
      have apart : ¬ (s.source.Own id c ∧ c ∈ (s.writeTopic p id).1.written) := by
        rintro ⟨theirs, _⟩
        exact fresh (sound.own_unique theirs mine ▸ member)
      rw [gains.keeps apart]
      exact agree other (List.mem_cons_of_mem id member) c mine
    obtain ⟨outcomes, further⟩ := ih distinct still
    refine ⟨?_, fun c => ?_, ?_⟩
    · rw [writeTopics, List.map_cons, ← outcome, ← outcomes]
    · rw [writeTopics, further.mem, gains.mem, or_assoc]
      simp only [List.mem_cons, exists_eq_or_imp]
    · rw [writeTopics, further.skipped, gains.skipped, List.map_cons, List.sum_cons, Nat.add_assoc]

/-- In a map made by builder calls, and with topic templates that ask for no associations, the same
topics written in two orders come out with the same blocks, each as if it were the first one, and
leave the same constructs written and as many skipped. -/
theorem topics_independent (s : Session) (built : s.source.map.Built)
    (plain : TopicTemplatesPlain s.templates) {ids ids' : List TopicId} (distinct : ids.Nodup)
    (perm : ids'.Perm ids) (p : Progress) :
    (s.writeTopics ids p).2 = ids.map (fun id => (s.writeTopic p id).2) ∧
      (s.writeTopics ids' p).2 = ids'.map (fun id => (s.writeTopic p id).2) ∧
      (∀ c, c ∈ (s.writeTopics ids p).1.written ↔ c ∈ (s.writeTopics ids' p).1.written) ∧
      (s.writeTopics ids p).1.skipped = (s.writeTopics ids' p).1.skipped := by
  have refl : ∀ id, p.AgreeOn (s.source.Own id) p := fun _ _ _ => .rfl
  obtain ⟨outcomes, gains⟩ := writeTopics_gains built.sound plain distinct fun id _ => refl id
  obtain ⟨outcomes', gains'⟩ :=
    writeTopics_gains built.sound plain (perm.nodup_iff.mpr distinct) fun id _ => refl id
  refine ⟨outcomes, outcomes', fun c => ?_, ?_⟩
  · simp only [gains.mem, gains'.mem, perm.mem_iff]
  · rw [gains.skipped, gains'.skipped, (perm.map _).sum_eq]

def labelledVillage : Session :=
  { plainVillage with
    templates := [⟨"labelled", .topic, [.statement (.name {
      type := .fixed ⟨0⟩
      value := "$label"
      variants := [⟨"$short", Iri.string, some [.fixed ⟨0⟩], none⟩] })]⟩] }

theorem topics_independent_village :
    TopicTemplatesPlain labelledVillage.templates ∧
      (labelledVillage.writeTopics [⟨1⟩, ⟨0⟩] {}).2 =
        (labelledVillage.writeTopics [⟨0⟩, ⟨1⟩] {}).2.reverse ∧
      ((labelledVillage.writeTopics [⟨1⟩, ⟨0⟩] {}).2.map fun outcome =>
        outcome.toOption.join.map Piece.invocations) = [none, some 1] ∧
      (labelledVillage.writeTopics [⟨1⟩, ⟨0⟩] {}).1.skipped = 2 := by
  have plain : TopicTemplatesPlain labelledVillage.templates := by
    unfold TopicTemplatesPlain
    decide
  have distinct : [(⟨0⟩ : TopicId), ⟨1⟩].Nodup := by decide
  obtain ⟨outcomes, outcomes', _, skipped⟩ :=
    topics_independent labelledVillage village_built plain distinct (.swap _ _ []) {}
  refine ⟨plain, ?_, ?_, ?_⟩
  · rw [outcomes, outcomes']
    rfl
  · rw [outcomes']
    rfl
  · rw [← skipped]
    rfl

end Session
end CompactTopicMap
