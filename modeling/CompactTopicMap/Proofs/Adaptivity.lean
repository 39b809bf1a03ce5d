import CompactTopicMap.Proofs.Matching.Claims
import CompactTopicMap.Proofs.Reference

namespace CompactTopicMap

theorem mem_parameterTokens {token : String} {tokens : List String} :
    token ∈ parameterTokens tokens ↔ token ∈ tokens ∧ token ≠ subjectToken := by
  simp [parameterTokens, mem_firstSeen]

namespace Entry

theorem flattenAll_eq_flatMap (entries : List Entry) :
    flattenAll entries = entries.flatMap flatten := by
  induction entries with
  | nil => rfl
  | cons entry entries ih => rw [flattenAll, ih, List.flatMap_cons]

theorem tokensAll_eq_flatMap (entries : List Entry) :
    tokensAll entries = entries.flatMap tokens := by
  induction entries with
  | nil => rfl
  | cons entry entries ih => rw [tokensAll, ih, List.flatMap_cons]

mutual

theorem tokens_subset : (entry : Entry) →
    tokens entry ⊆ (flatten entry).flatMap Statement.tokens
  | .statement s => by
    intro token member
    simpa [tokens, flatten] using member
  | .invocation _ _ body => by
    intro token member
    exact tokensAll_subset body (mem_parameterTokens.mp member).1
  | .group entries => tokensAll_subset entries

theorem tokensAll_subset : (entries : List Entry) →
    tokensAll entries ⊆ (flattenAll entries).flatMap Statement.tokens
  | [] => List.Subset.refl []
  | entry :: entries => by
    intro token member
    simp only [flattenAll, List.flatMap_append, List.mem_append]
    exact (List.mem_append.mp member).imp (tokens_subset entry ·) (tokensAll_subset entries ·)

end

end Entry

theorem Template.mem_argumentTokens {t : Template} {token : String}
    (member : token ∈ t.argumentTokens) :
    token ≠ subjectToken ∧ ∃ statement ∈ t.flattened, token ∈ statement.tokens := by
  obtain ⟨inside, differ⟩ := mem_parameterTokens.mp member
  exact ⟨differ, List.mem_flatMap.mp (Entry.tokensAll_subset t.entries inside)⟩

theorem mapM_ok {α β ε : Type} {f : α → Except ε β} {items : List α}
    (each : ∀ item ∈ items, ∃ result, f item = .ok result) :
    ∃ results, items.mapM f = .ok results ∧ results.length = items.length := by
  induction items with
  | nil => exact ⟨[], rfl, rfl⟩
  | cons item items ih =>
    obtain ⟨result, first⟩ := each item (by simp)
    obtain ⟨results, rest, length⟩ := ih fun other member => each other (by simp [member])
    refine ⟨result :: results, ?_, by simp [length]⟩
    simp [List.mapM_cons, first, rest, bind, Except.bind, pure, Except.pure]

theorem forall₂_of_mapM {α β ε : Type} {f : α → Except ε β} {items : List α} {results : List β}
    (done : items.mapM f = .ok results) :
    List.Forall₂ (fun item result => f item = .ok result) items results := by
  induction items generalizing results with
  | nil =>
    obtain rfl := Except.ok.inj done
    exact .nil
  | cons item items ih =>
    rw [List.mapM_cons] at done
    cases first : f item with
    | error e =>
      rw [first] at done
      cases done
    | ok result =>
      cases rest : items.mapM f with
      | error e =>
        rw [first, rest] at done
        cases done
      | ok others =>
        rw [first, rest] at done
        obtain rfl := Except.ok.inj done
        exact .cons first (ih rest)

/-- The match binds the variable, and to a topic only if that has a locator. -/
def Match.Argues (source : Source) (m : Match) (token : String) : Prop :=
  m.IsBound token ∧
    ∀ id, m.find? token = some (.topic id) → (source.topic id).isAnonymous = false

namespace Matcher

variable {w : Matcher} {t : Template} {m : Match}

theorem matchTopic?_argued {subject : TopicId} (found : w.matchTopic? t subject = some m)
    {token : String} (member : token ∈ t.argumentTokens) : m.Argues w.source token := by
  obtain ⟨_, search⟩ := matchTopic?_eq_some.mp found
  obtain ⟨groups, stand, takes⟩ := search_spec search
  obtain ⟨differ, statement, inside, used⟩ := Template.mem_argumentTokens member
  constructor
  · exact bound_of_forall₂ stand Stands.bound (List.mem_flatMap.mpr ⟨statement, inside, used⟩)
  · intro id bound
    rcases takes.grows.named bound with earlier | named
    · rw [Match.find?_ofSubject, if_neg differ] at earlier
      cases earlier
    · exact named

theorem matchAssociation?_argued {id : AssociationId} (found : w.matchAssociation? t id = some m)
    {token : String} (member : token ∈ t.argumentTokens) : m.Argues w.source token := by
  obtain ⟨pattern, _, entries, _, matched⟩ := matchAssociation?_spec found
  obtain ⟨_, _, takes, denotes⟩ := association?_spec matched
  obtain ⟨_, statement, inside, used⟩ := Template.mem_argumentTokens member
  have only : statement = .association pattern := by
    simpa [Template.flattened, entries, Entry.flattenAll, Entry.flatten] using inside
  subst only
  constructor
  · exact denotes.bound used
  · intro topic bound
    rcases takes.grows.named bound with earlier | named
    · cases earlier
    · exact named

end Matcher

namespace Session

variable {s : Session} {p : Progress} {t : Template} {m : Match}

theorem argument_ok {subject : Subject} {token : String} (argues : m.Argues s.source token) :
    ∃ text, s.argument t subject m token = .ok text := by
  rcases argues with ⟨bound, named⟩
  obtain ⟨value, found⟩ := Option.isSome_iff_exists.mp bound
  rw [argument]
  rw [found]
  cases value with
  | literal value datatype => exact ⟨_, rfl⟩
  | topic id =>
    obtain ⟨text, reference⟩ :=
      Option.isSome_iff_exists.mp ((s.reference?_isSome id).mpr (named id found))
    simp only [reference]
    exact ⟨text, rfl⟩

theorem commit_ok (p : Progress) (subject : Subject)
    (argued : ∀ token ∈ t.argumentTokens, m.Argues s.source token) :
    ∃ arguments, s.commit p t subject (some m) = (p.markAll m.claims, .ok arguments) ∧
      arguments.length = t.argumentTokens.length := by
  obtain ⟨arguments, all, length⟩ :=
    mapM_ok (f := s.argument t subject m) fun token member => argument_ok (argued token member)
  refine ⟨arguments, ?_, length⟩
  simp only [commit, all]

theorem isAdaptiveForTopic_iff {id : TopicId} :
    s.isAdaptiveForTopic p t id = true ↔ ∃ m, (s.matcher p).matchTopic? t id = some m :=
  Option.isSome_iff_exists

theorem isAdaptiveForAssociation_iff {id : AssociationId} :
    s.isAdaptiveForAssociation p t id = true ↔
      ∃ m, (s.matcher p).matchAssociation? t id = some m :=
  Option.isSome_iff_exists

theorem extractTopic_ok {id : TopicId} (found : (s.matcher p).matchTopic? t id = some m) :
    ∃ arguments, s.extractTopic p t id = (p.markAll m.claims, .ok arguments) ∧
      arguments.length = t.argumentTokens.length := by
  rw [extractTopic, found]
  exact commit_ok p _ fun _ member => Matcher.matchTopic?_argued found member

theorem extractAssociation_ok {id : AssociationId}
    (found : (s.matcher p).matchAssociation? t id = some m) :
    ∃ arguments, s.extractAssociation p t id = (p.markAll m.claims, .ok arguments) ∧
      arguments.length = t.argumentTokens.length := by
  rw [extractAssociation, found]
  exact commit_ok p _ fun _ member => Matcher.matchAssociation?_argued found member

theorem invokeRepeatedly_induction {motive : Progress → Prop} {t : Template} {id : TopicId}
    (step : ∀ p m, (s.matcher p).matchTopic? t id = some m → motive p → motive (p.markAll m.claims))
    (rounds : Nat) (p : Progress) (start : motive p) :
    ∃ q texts, s.invokeRepeatedly t id rounds p = (q, .ok texts) ∧ motive q := by
  induction rounds generalizing p with
  | zero => exact ⟨p, [], rfl, start⟩
  | succ rounds ih =>
    rw [invokeRepeatedly]
    by_cases adaptive : s.isAdaptiveForTopic p t id = true
    · obtain ⟨m, found⟩ := isAdaptiveForTopic_iff.mp adaptive
      obtain ⟨arguments, extracted, _⟩ := extractTopic_ok found
      have next := step p m found start
      obtain ⟨q, texts, rest, last⟩ := ih (p.markAll m.claims) next
      simp only [if_pos adaptive, extracted, rest]
      split
      · exact ⟨_, _, rfl, next⟩
      · exact ⟨_, _, rfl, last⟩
    · rw [if_neg adaptive]
      exact ⟨p, [], rfl, start⟩

theorem invokeTemplates_induction {motive : Progress → Prop} {id : TopicId}
    {templates : List Template}
    (step : ∀ t ∈ templates, ∀ p m, (s.matcher p).matchTopic? t id = some m → motive p →
      motive (p.markAll m.claims))
    (p : Progress) (start : motive p) :
    ∃ q texts, s.invokeTemplates id templates p = (q, .ok texts) ∧ motive q := by
  induction templates generalizing p with
  | nil => exact ⟨p, [], rfl, start⟩
  | cons t ts ih =>
    have others := ih fun u member => step u (List.mem_cons_of_mem t member)
    rw [invokeTemplates]
    split
    · obtain ⟨q, texts, first, next⟩ :=
        invokeRepeatedly_induction (step t List.mem_cons_self) (s.claimable id + 1) p start
      obtain ⟨r, more, rest, last⟩ := others q next
      simp only [first, rest]
      exact ⟨_, _, rfl, last⟩
    · exact others p start

theorem invokeTemplates_ok (s : Session) (id : TopicId) (templates : List Template)
    (p : Progress) : ∃ q texts, s.invokeTemplates id templates p = (q, .ok texts) := by
  have always : ∀ t ∈ templates, ∀ p m, (s.matcher p).matchTopic? t id = some m → True → True :=
    fun _ _ _ _ _ _ => trivial
  obtain ⟨q, texts, invoked, _⟩ :=
    invokeTemplates_induction (motive := fun _ => True) always p trivial
  exact ⟨q, texts, invoked⟩

theorem invokeForAssociation_ok (s : Session) (id : AssociationId) (templates : List Template)
    (p : Progress) : ∃ q lines, s.invokeForAssociation id templates p = (q, .ok lines) := by
  induction templates generalizing p with
  | nil => exact ⟨p, [], rfl⟩
  | cons t ts ih =>
    rw [invokeForAssociation]
    split
    · rename_i adaptive
      obtain ⟨m, found⟩ := isAdaptiveForAssociation_iff.mp adaptive
      obtain ⟨arguments, extracted, _⟩ := extractAssociation_ok found
      obtain ⟨q, lines, rest⟩ := ih (p.markAll m.claims)
      simp only [extracted, rest]
      exact ⟨_, _, rfl⟩
    · exact ih p

theorem writeTopic_ok (s : Session) (p : Progress) (id : TopicId) :
    ∃ q piece, s.writeTopic p id = (q, .ok piece) := by
  rw [writeTopic]
  split
  · exact ⟨_, _, rfl⟩
  · split
    · exact ⟨_, _, rfl⟩
    · rename_i identity _
      obtain ⟨q, texts, invoked⟩ := s.invokeTemplates_ok id s.templates
        (p.mark (.locator id identity.kind identity.iri))
      simp only [invoked]
      exact ⟨_, _, rfl⟩

theorem writeAssociation_ok (s : Session) (p : Progress) (id : AssociationId) :
    ∃ q piece, s.writeAssociation p id = (q, .ok piece) := by
  rw [writeAssociation]
  split
  · exact ⟨_, _, rfl⟩
  · obtain ⟨q, lines, invoked⟩ := s.invokeForAssociation_ok id s.templates p
    simp only [invoked]
    cases lines with
    | nil =>
      cases encoded : s.encodeAssociation q id with
      | mk r text =>
        simp only [encoded]
        cases text <;> exact ⟨_, _, rfl⟩
    | cons line lines => exact ⟨_, _, rfl⟩

end Session
end CompactTopicMap
