import CompactTopicMap.Proofs.Completeness
import CompactTopicMap.Proofs.Matching.Antitone
import CompactTopicMap.Proofs.Matching.Soundness
import Mathlib.Data.Finset.Card

namespace CompactTopicMap

theorem Written.size_lt_insertAll {written : Written} {constructs : List Construct} {c : Construct}
    (member : c ∈ constructs) (fresh : c ∉ written) :
    written.size < (written.insertAll constructs).size := by
  have distinct : (c :: written.constructs).Nodup := List.nodup_cons.mpr ⟨fresh, written.distinct⟩
  apply distinct.length_le_of_subset
  intro x inside
  apply mem_insertAll.mpr
  rcases List.mem_cons.mp inside with rfl | old
  · exact .inl member
  · exact .inr old

namespace Matcher

variable {w : Matcher} {m : Match}

theorem Stands.head {subject : TopicId} {statement : Statement} {taken : List Construct}
    (stands : w.Stands subject m statement taken) :
    ∃ c ∈ taken, ∀ role, c ≠ .role role := by
  cases stands with
  | isa | ako | name | occurrence | identifier | association =>
    exact ⟨_, List.mem_cons_self, nofun⟩

theorem exists_unwritten_claim {t : Template} {subject : TopicId} (body : t.flattened ≠ [])
    (found : w.matchTopic? t subject = some m) : ∃ c ∈ m.claims, c ∉ w.written := by
  obtain ⟨_, search⟩ := matchTopic?_eq_some.mp found
  obtain ⟨statement, rest, statements⟩ := List.exists_cons_of_ne_nil body
  rw [statements] at search
  obtain ⟨next, member, later⟩ := List.exists_of_findSome?_eq_some search
  obtain ⟨taken, extended⟩ := extend_spec member
  obtain ⟨_, _, takes⟩ := search_spec later
  obtain ⟨c, inside, other⟩ := extended.stands.head
  refine ⟨c, ?_, ?_⟩
  · rw [takes.claims, extended.takes.claims]
    exact List.mem_append_right _ (List.mem_append_left _ inside)
  · rcases extended.available c inside with available | ⟨role, same⟩
    · exact (available_iff.mp available).1
    · exact absurd same (other role)

end Matcher

namespace Session

variable {s : Session} {t : Template} {id : TopicId} {p q : Progress} {texts : List String}

def topicConstructs (s : Session) (id : TopicId) : List Construct :=
  let topic := s.source.topic id
  (s.typesOf id).map (.typing id) ++ (s.supertypesOf id).map (.subtyping id) ++
    topic.names.map .name ++ topic.occurrences.map .occurrence ++
    LocatorKind.all.flatMap fun kind => (topic.locators kind).map (.locator id kind)

def constructs (s : Session) : List Construct :=
  (s.source.topicIds.flatMap s.topicConstructs ++
    s.source.associationIds.map Construct.association).flatMap s.source.whole

def claimableConstructs (s : Session) (id : TopicId) : List Construct :=
  (s.topicConstructs id ++ s.source.associationIds.map Construct.association).flatMap
    s.source.whole

def unwritten (constructs : List Construct) (p : Progress) : Finset Construct :=
  {c ∈ constructs.toFinset | c ∉ p.written}

theorem length_claimableConstructs (s : Session) (id : TopicId) :
    (s.claimableConstructs id).length = s.claimable id := by
  simp only [claimableConstructs, topicConstructs, claimable, Source.whole, Source.parts,
    LocatorKind.all, List.append_assoc, List.flatMap_cons, List.flatMap_nil, List.append_nil,
    List.flatMap_append, List.flatMap_map, List.length_append, List.length_flatMap,
    List.length_cons, List.length_nil, List.length_map, zero_add, List.map_const',
    List.sum_replicate, Nat.nsmul_eq_mul, mul_one, List.sum_map_add]
  omega

theorem claimableConstructs_subset (listed : id ∈ s.source.topicIds) :
    s.claimableConstructs id ⊆ s.constructs := by
  intro c member
  obtain ⟨d, own, part⟩ := List.mem_flatMap.mp member
  refine List.mem_flatMap.mpr ⟨d, ?_, part⟩
  rcases List.mem_append.mp own with topic | association
  · exact List.mem_append_left _ (List.mem_flatMap.mpr ⟨id, listed, topic⟩)
  · exact List.mem_append_right _ association

theorem Asserts.listed {m : Match} {statement : Statement} {c : Construct}
    (asserts : s.Asserts id m statement c) :
    c ∈ s.topicConstructs id ++ s.source.associationIds.map .association := by
  cases asserts with
  | isa own | ako own | name own | occurrence own => simp [topicConstructs, own]
  | @identifier kind _ _ own => cases kind <;> simp [topicConstructs, LocatorKind.all, own]
  | association listed => simp [listed]

theorem claims_claimable {m : Match} (found : (s.matcher p).matchTopic? t id = some m) :
    m.claims ⊆ s.claimableConstructs id := by
  intro c claimed
  obtain ⟨constructs, asserted, perm⟩ := matchTopic?_asserts found
  obtain ⟨d, inside, part⟩ := List.mem_flatMap.mp (perm.mem_iff.mp claimed)
  obtain ⟨statement, _, asserts⟩ := exists_of_mem_forall₂ asserted inside
  exact List.mem_flatMap.mpr ⟨d, asserts.listed, part⟩

theorem card_unwritten_markAll_lt {constructs claims : List Construct} {c : Construct}
    (listed : c ∈ constructs) (claimed : c ∈ claims) (fresh : c ∉ p.written) :
    (unwritten constructs (p.markAll claims)).card < (unwritten constructs p).card := by
  apply Finset.card_lt_card
  refine ⟨fun d member => ?_, fun back => ?_⟩
  · obtain ⟨inside, absent⟩ := Finset.mem_filter.mp member
    exact Finset.mem_filter.mpr
      ⟨inside, fun early => absent (Written.mem_insertAll.mpr (.inr early))⟩
  · have left : c ∈ unwritten constructs p :=
      Finset.mem_filter.mpr ⟨List.mem_toFinset.mpr listed, fresh⟩
    exact (Finset.mem_filter.mp (back left)).2 (Written.mem_insertAll.mpr (.inl claimed))

/-- A template is invoked for a topic as often as it applies, each time with something new. There is
no bound on the rounds. -/
inductive Exhausts (s : Session) (t : Template) (id : TopicId) :
    Progress → List String → Progress → Prop where
  | done {p : Progress} (idle : s.isAdaptiveForTopic p t id = false) : Exhausts s t id p [] p
  | round {p p' q : Progress} {arguments texts : List String}
    (applies : s.isAdaptiveForTopic p t id = true)
    (extracted : s.extractTopic p t id = (p', .ok arguments))
    (grows : p.written.size < p'.written.size) (rest : Exhausts s t id p' texts q) :
    Exhausts s t id p (t.invocation arguments :: texts) q

theorem exists_exhausts (s : Session) (body : t.flattened ≠ []) (id : TopicId) (p : Progress) :
    ∃ texts q, s.Exhausts t id p texts q ∧
      texts.length ≤ (unwritten (s.claimableConstructs id) p).card := by
  -- On what is left to claim: each round takes at least one of these constructs.
  induction left : (unwritten (s.claimableConstructs id) p).card
    using Nat.strong_induction_on generalizing p with
  | h count ih =>
    subst left
    cases adaptive : s.isAdaptiveForTopic p t id with
    | false => exact ⟨[], p, .done adaptive, Nat.zero_le _⟩
    | true =>
      obtain ⟨m, found⟩ := isAdaptiveForTopic_iff.mp adaptive
      obtain ⟨c, claimed, fresh⟩ := Matcher.exists_unwritten_claim body found
      obtain ⟨arguments, extracted, _⟩ := extractTopic_ok found
      have fewer := card_unwritten_markAll_lt (claims_claimable found claimed) claimed fresh
      obtain ⟨texts, q, rest, bound⟩ := ih _ fewer (p.markAll m.claims) rfl
      refine ⟨t.invocation arguments :: texts, q, .round adaptive extracted ?_ rest, ?_⟩
      · exact Written.size_lt_insertAll claimed fresh
      · rw [List.length_cons]
        omega

namespace Exhausts

theorem idle (exhausts : s.Exhausts t id p texts q) : s.isAdaptiveForTopic q t id = false := by
  induction exhausts with
  | done idle => exact idle
  | round _ _ _ _ ih => exact ih

theorem invokeRepeatedly (exhausts : s.Exhausts t id p texts q) {rounds : Nat}
    (enough : texts.length ≤ rounds) : s.invokeRepeatedly t id rounds p = (q, .ok texts) := by
  induction exhausts generalizing rounds with
  | done idle =>
    cases rounds with
    | zero => rfl
    | succ rounds => rw [Session.invokeRepeatedly, if_neg (by simp [idle])]
  | @round p p' q arguments texts applies extracted grows _ ih =>
    cases rounds with
    | zero => cases enough
    | succ rounds =>
      have differ : p'.written.size ≠ p.written.size := Nat.ne_of_gt grows
      have rest := ih (Nat.le_of_succ_le_succ enough)
      simp only [Session.invokeRepeatedly, if_pos applies, extracted, if_neg differ, rest]

theorem keeps (exhausts : s.Exhausts t id p texts q) : ∀ c ∈ p.written, c ∈ q.written := by
  induction exhausts with
  | done => exact fun _ early => early
  | round applies extracted _ _ ih =>
    obtain ⟨m, found⟩ := isAdaptiveForTopic_iff.mp applies
    obtain ⟨_, committed, _⟩ := extractTopic_ok found
    obtain ⟨rfl, _⟩ := Prod.mk.inj (committed.symm.trans extracted)
    exact fun c early => ih c (Written.mem_insertAll.mpr (.inr early))

end Exhausts

theorem invokeRepeatedly_exhausts (s : Session) (body : t.flattened ≠ []) (id : TopicId)
    (p : Progress) :
    ∃ texts q, s.Exhausts t id p texts q ∧
      texts.length ≤ (unwritten (s.claimableConstructs id) p).card ∧
      s.invokeRepeatedly t id (s.claimable id + 1) p = (q, .ok texts) := by
  obtain ⟨texts, q, exhausts, bound⟩ := s.exists_exhausts body id p
  refine ⟨texts, q, exhausts, bound, exhausts.invokeRepeatedly ?_⟩
  calc texts.length ≤ (unwritten (s.claimableConstructs id) p).card := bound
    _ ≤ (s.claimableConstructs id).toFinset.card := Finset.card_filter_le _ _
    _ ≤ (s.claimableConstructs id).length := List.toFinset_card_le _
    _ = s.claimable id := s.length_claimableConstructs id
    _ ≤ s.claimable id + 1 := Nat.le_succ _

/-- A template that does not apply does not apply either when more is written. -/
theorem idle_of_written_subset (fewer : ∀ c ∈ p.written, c ∈ q.written)
    (idle : s.isAdaptiveForTopic p t id = false) : s.isAdaptiveForTopic q t id = false := by
  cases adaptive : s.isAdaptiveForTopic q t id with
  | false => rfl
  | true =>
    have again : s.isAdaptiveForTopic p t id = true := Matcher.matchTopic?_antitone fewer adaptive
    rw [idle] at again
    cases again

theorem idle_of_kind (other : t.kind ≠ .topic) : s.isAdaptiveForTopic p t id = false := by
  simp [isAdaptiveForTopic, Matcher.matchTopic?, other]

theorem invokeTemplates_exhausts (s : Session) {templates : List Template}
    (bodies : ∀ t ∈ templates, t.kind = .topic → t.flattened ≠ []) (id : TopicId) (p : Progress) :
    ∃ q texts, s.invokeTemplates id templates p = (q, .ok texts) ∧
      (∀ c ∈ p.written, c ∈ q.written) ∧ ∀ t ∈ templates, s.isAdaptiveForTopic q t id = false := by
  induction templates generalizing p with
  | nil => exact ⟨p, [], rfl, fun _ early => early, nofun⟩
  | cons t ts ih =>
    have others := ih fun u member => bodies u (List.mem_cons_of_mem t member)
    by_cases kind : t.kind = .topic
    · have body := bodies t List.mem_cons_self kind
      have entries : t.entries ≠ [] := by
        intro none
        simp [Template.flattened, none, Entry.flattenAll] at body
      obtain ⟨texts, q, exhausts, _, first⟩ := s.invokeRepeatedly_exhausts body id p
      -- What the later templates write does not make this one apply again.
      obtain ⟨r, more, rest, kept, idle⟩ := others q
      refine ⟨r, texts ++ more, ?_, fun c early => kept c (exhausts.keeps c early), ?_⟩
      · simp [invokeTemplates, kind, entries, first, rest]
      · exact List.forall_mem_cons.mpr ⟨idle_of_written_subset kept exhausts.idle, idle⟩
    · obtain ⟨q, texts, rest, kept, idle⟩ := others p
      refine ⟨q, texts, ?_, kept, List.forall_mem_cons.mpr ⟨idle_of_kind kind, idle⟩⟩
      simp [invokeTemplates, kind, rest]

theorem writeTopic_exhausts
    (bodies : ∀ t ∈ s.templates, t.kind = .topic → t.flattened ≠ []) (p : Progress)
    (unreserved : s.isReserved id = false) (named : s.IsNamed id) :
    ∃ q piece, s.writeTopic p id = (q, .ok (some piece)) ∧
      ∀ t ∈ s.templates, s.isAdaptiveForTopic q t id = false := by
  obtain ⟨q, piece, written, gains⟩ := s.writeTopic_gains p unreserved named
  obtain ⟨identity, identified⟩ := Option.isSome_iff_exists.mp ((s.identity?_isSome id).mpr named)
  obtain ⟨r, texts, invoked, _, idle⟩ := s.invokeTemplates_exhausts bodies id
    (p.mark (.locator id identity.kind identity.iri))
  have after : s.afterInvocations p id = r := by
    simp only [afterInvocations, identified, invoked]
  refine ⟨q, piece, written, fun t member => idle_of_written_subset ?_ (idle t member)⟩
  exact fun c early => (gains.mem c).mpr (.inl (after ▸ early))

/-- If each topic template holds a statement, the invocations of each of them for a topic end with
the template exhausted, after as many rounds at most as constructs of the graph are not written.
When the block of a topic has been written, none of the templates applies to the topic. -/
theorem invocations_exhausted (s : Session)
    (bodies : ∀ t ∈ s.templates, t.kind = .topic → t.flattened ≠ [])
    {id : TopicId} (listed : id ∈ s.source.topicIds) :
    (∀ t ∈ s.templates, t.kind = .topic → ∀ p, ∃ texts q, s.Exhausts t id p texts q ∧
        texts.length ≤ (unwritten s.constructs p).card ∧
        s.invokeRepeatedly t id (s.claimable id + 1) p = (q, .ok texts)) ∧
      ∀ p, ∃ q piece, s.writeTopic p id = (q, .ok piece) ∧
        (piece.isSome ↔ s.isReserved id = false ∧ s.IsNamed id) ∧
        (piece.isSome → ∀ t ∈ s.templates, s.isAdaptiveForTopic q t id = false) := by
  constructor
  · intro t member kind p
    obtain ⟨texts, q, exhausts, bound, invoked⟩ :=
      s.invokeRepeatedly_exhausts (bodies t member kind) id p
    refine ⟨texts, q, exhausts, bound.trans (Finset.card_le_card ?_), invoked⟩
    intro c inside
    obtain ⟨claimable, absent⟩ := Finset.mem_filter.mp inside
    have known := claimableConstructs_subset listed (List.mem_toFinset.mp claimable)
    exact Finset.mem_filter.mpr ⟨List.mem_toFinset.mpr known, absent⟩
  · intro p
    by_cases reserved : s.isReserved id = true
    · exact ⟨p, none, s.writeTopic_of_reserved p reserved, by simp [reserved], nofun⟩
    · have unreserved := Bool.eq_false_of_not_eq_true reserved
      by_cases named : s.IsNamed id
      · obtain ⟨q, piece, written, idle⟩ := writeTopic_exhausts bodies p unreserved named
        exact ⟨q, some piece, written, by simp [unreserved, named], fun _ => idle⟩
      · exact ⟨p.skip, none, s.writeTopic_of_anonymous p unreserved named, by simp [named], nofun⟩

def nameTemplate : Template :=
  ⟨"named", .topic, [.statement (.name { type := .var "$kind", value := "$label" })]⟩

def namedCottage : Session :=
  { cottageSession with templates := [nameTemplate, repeatedTemplate] }

theorem cottage_exhausted :
    (∀ t ∈ namedCottage.templates, t.kind = .topic → t.flattened ≠ []) ∧
      ⟨1⟩ ∈ namedCottage.source.topicIds ∧
      (∃ texts q, namedCottage.Exhausts nameTemplate ⟨1⟩ {} texts q ∧ texts.length = 2 ∧
        texts.length ≤ (unwritten namedCottage.constructs {}).card) ∧
      ∃ q piece, namedCottage.writeTopic {} ⟨1⟩ = (q, .ok (some piece)) ∧
        ∀ t ∈ namedCottage.templates, namedCottage.isAdaptiveForTopic q t ⟨1⟩ = false := by
  have bodies : ∀ t ∈ namedCottage.templates, t.kind = .topic → t.flattened ≠ [] := by decide
  have listed : ⟨1⟩ ∈ namedCottage.source.topicIds := by decide
  obtain ⟨invocations, blocks⟩ := invocations_exhausted namedCottage bodies listed
  refine ⟨bodies, listed, ?_, ?_⟩
  · obtain ⟨texts, q, exhausts, bound, invoked⟩ :=
      invocations nameTemplate List.mem_cons_self rfl {}
    have run : (namedCottage.invokeRepeatedly nameTemplate ⟨1⟩
        (namedCottage.claimable ⟨1⟩ + 1) {}).2 = .ok texts := congrArg Prod.snd invoked
    have two : texts.length = 2 := by
      obtain rfl := Except.ok.inj run
      rfl
    exact ⟨texts, q, exhausts, two, bound⟩
  · obtain ⟨q, piece, written, blocked, idle⟩ := blocks {}
    have some_piece : piece.isSome := blocked.mpr ⟨by rfl, by decide⟩
    obtain ⟨block, rfl⟩ := Option.isSome_iff_exists.mp some_piece
    exact ⟨q, block, written, idle rfl⟩

end Session
end CompactTopicMap
