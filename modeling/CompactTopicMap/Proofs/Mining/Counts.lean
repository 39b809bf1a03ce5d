import CompactTopicMap.Proofs.AtMostOnce
import CompactTopicMap.Proofs.Mining.Mined
import CompactTopicMap.Proofs.Mining.Ordinals

namespace CompactTopicMap

theorem zipWith_append {α β γ : Type} (f : α → β → γ) (first second : List α) (others : List β) :
    List.zipWith f (first ++ second) others =
      List.zipWith f first others ++ List.zipWith f second (others.drop first.length) := by
  induction first generalizing others with
  | nil => rfl
  | cons item first ih =>
    cases others with
    | nil => simp
    | cons other others => simp [ih]

theorem exists_forall₂ {α β : Type} {R : β → α → Prop} {items : List α}
    (each : ∀ item ∈ items, ∃ other, R other item) :
    ∃ others, List.Forall₂ R others items := by
  induction items with
  | nil => exact ⟨[], .nil⟩
  | cons item items ih =>
    obtain ⟨other, related⟩ := each item List.mem_cons_self
    obtain ⟨others, rest⟩ := ih fun next member => each next (List.mem_cons_of_mem item member)
    exact ⟨other :: others, .cons related rest⟩

theorem forall₂_zipWith {α β γ δ : Type} {P : α → δ → Prop} {R : γ → δ → Prop} {f : α → β → γ}
    {items : List α} {tokens : List β} {others : List δ} (related : List.Forall₂ P items others)
    (lengths : tokens.length = items.length)
    (each : ∀ item token other, P item other → (token, other) ∈ tokens.zip others →
      R (f item token) other) :
    List.Forall₂ R (List.zipWith f items tokens) others := by
  induction related generalizing tokens with
  | nil => exact .nil
  | @cons item other items others here _ ih =>
    cases tokens with
    | nil => cases lengths
    | cons token tokens =>
      apply List.Forall₂.cons (each item token other here List.mem_cons_self)
      apply ih (Nat.succ.inj lengths)
      exact fun item token other here inside =>
        each item token other here (List.mem_cons_of_mem _ inside)

/-- What a mined statement is about: names of a type in a scope, or occurrences of a type with a
datatype in a scope. -/
inductive Signature where
  | name (of : NameSignature)
  | occurrence (of : OccurrenceSignature)
  deriving DecidableEq

namespace Signature

def topics : Signature → List TopicId
  | name of => of.type :: of.scope
  | occurrence of => of.type :: of.scope

/-- The statement has the signature, and says nothing of a reifier or of variants. -/
def describes : Signature → Statement → Bool
  | name of, .name p =>
    p.type = .fixed of.type && p.scope.themes = of.scope.map .fixed && p.reifier.isNone &&
      p.variants.isEmpty
  | occurrence of, .occurrence p =>
    p.type = .fixed of.type && p.datatype = of.datatype && p.scope.themes = of.scope.map .fixed &&
      p.reifier.isNone
  | _, _ => false

def statement : Signature → String → Statement
  | name of => Session.minedName of
  | occurrence of => Session.minedOccurrence of

theorem fixed_injective : Function.Injective TopicRef.fixed := fun _ _ => TopicRef.fixed.inj

theorem describes_unique {a b : Signature} {statement : Statement}
    (first : a.describes statement = true) (second : b.describes statement = true) : a = b := by
  cases statement with
  | name p =>
    cases a with
    | occurrence of => cases first
    | name of =>
      cases b with
      | occurrence of' => cases second
      | name of' =>
        simp only [describes, Bool.and_eq_true, decide_eq_true_eq] at first second
        have type := TopicRef.fixed.inj (first.1.1.1.symm.trans second.1.1.1)
        have scope := fixed_injective.list_map (first.1.1.2.symm.trans second.1.1.2)
        cases of
        cases of'
        simp_all
  | occurrence p =>
    cases a with
    | name of => cases first
    | occurrence of =>
      cases b with
      | name of' => cases second
      | occurrence of' =>
        simp only [describes, Bool.and_eq_true, decide_eq_true_eq] at first second
        have type := TopicRef.fixed.inj (first.1.1.1.symm.trans second.1.1.1)
        have datatype := first.1.1.2.symm.trans second.1.1.2
        have scope := fixed_injective.list_map (first.1.2.symm.trans second.1.2)
        cases of
        cases of'
        simp_all
  | _ => cases a <;> cases first

theorem describes_statement (signature : Signature) (token : String) :
    signature.describes (signature.statement token) = true := by
  cases signature with
  | name of => simp [describes, statement, Session.minedName, Session.themes_scopePattern]
  | occurrence of => simp [describes, statement, Session.minedOccurrence, Session.themes_scopePattern]

theorem countP_describes {signatures : List Signature} {statements : List Statement}
    (described : List.Forall₂ (fun σ statement => describes σ statement = true) signatures statements)
    (signature : Signature) :
    statements.countP signature.describes = signatures.count signature := by
  induction described with
  | nil => rfl
  | @cons first statement signatures statements here _ ih =>
    rw [List.countP_cons, List.count_cons, ih]
    by_cases same : first = signature
    · subst same
      simp [here]
    · have other : signature.describes statement ≠ true := fun there =>
        same (describes_unique here there)
      simp [same, other]

theorem forall₂_statements {signatures : List Signature} {tokens : List String}
    (lengths : tokens.length = signatures.length) :
    List.Forall₂ (fun σ statement => describes σ statement = true) signatures
      (List.zipWith statement signatures tokens) := by
  have own : List.Forall₂ Eq signatures signatures := List.forall₂_refl signatures
  apply (forall₂_zipWith own lengths _).flip
  rintro signature token _ rfl _
  exact describes_statement signature token

end Signature

namespace Session

variable (s : Session)

def instances (type : TopicId) : List TopicId :=
  s.source.topicIds.filter fun id => type ∈ s.typesOf id && !s.isReserved id

def plain (id : TopicId) : Signature → List Construct
  | .name of =>
    let names := (s.source.topic id).names.filter fun name =>
      (s.source.name name).type = of.type && (s.source.name name).scope = of.scope &&
        (s.source.name name).reifier.isNone && (s.source.name name).variants.isEmpty
    names.map .name
  | .occurrence of =>
    let occurrences := (s.source.topic id).occurrences.filter fun occurrence =>
      (s.source.occurrence occurrence).type = of.type &&
        (s.source.occurrence occurrence).datatype = of.datatype &&
        (s.source.occurrence occurrence).scope = of.scope &&
        (s.source.occurrence occurrence).reifier.isNone
    occurrences.map .occurrence

/-- A sufficient share of the instances of the type, and one at least, have so many plain constructs
of the signature. -/
def Shares (type : TopicId) (signature : Signature) (times : Nat) : Prop :=
  IsShared s.settings.relevance (s.instances type).length
    ((s.instances type).countP fun id => times ≤ (s.plain id signature).length)

/-- There are as many statements of each signature as the instances of the type share, and no others.
The topics of the signatures must have locators. -/
structure FollowsCounts (type : TopicId) (statements : List Statement) : Prop where
  entry : ∀ statement ∈ statements, ∃ signature : Signature, signature.describes statement = true
  shared : ∀ signature : Signature, (∀ id ∈ signature.topics, s.IsNamed id) →
    IsGreatest {k | k = 0 ∨ s.Shares type signature k} (statements.countP signature.describes)
  anonymous : ∀ signature : Signature, ∀ id ∈ signature.topics, ¬s.IsNamed id →
    statements.countP signature.describes = 0

variable {s}

theorem minedInstances_eq (type : TopicId) : s.minedInstances type = s.instances type := by
  rw [minedInstances, Typing.instancesOf, List.filter_filter, instances]
  apply List.filter_congr
  intro id _
  simp [typesOf, Typing.typesOf, mem_foldl_insertNew, Bool.and_comm]

theorem count_nameSignatures (id : TopicId) (of : NameSignature) :
    (s.nameSignatures id).count of = (s.plain id (.name of)).length := by
  rw [nameSignatures, plain, List.length_map, ← List.countP_eq_length_filter, List.count,
    List.countP_map, List.countP_filter, List.countP_map]
  apply List.countP_congr
  intro name _
  cases of
  simp [and_assoc]

theorem count_occurrenceSignatures (id : TopicId) (of : OccurrenceSignature) :
    (s.occurrenceSignatures id).count of = (s.plain id (.occurrence of)).length := by
  rw [occurrenceSignatures, plain, List.length_map, ← List.countP_eq_length_filter, List.count,
    List.countP_map, List.countP_filter, List.countP_map]
  apply List.countP_congr
  intro occurrence _
  cases of
  simp [and_assoc]

theorem relevant_greatest_shares {α : Type} [DecidableEq α] {type : TopicId}
    {items : TopicId → List α} {item : α} {signature : Signature}
    (monotone : ShareMonotone s.settings.relevance (s.instances type).length)
    (count : ∀ id, (items id).count item = (s.plain id signature).length) :
    IsGreatest {k | k = 0 ∨ s.Shares type signature k}
      ((relevant s.settings.relevance ((s.instances type).map items)).count item) := by
  have total : ((s.instances type).map items).length = (s.instances type).length :=
    List.length_map items
  have carried : ∀ times, carriers ((s.instances type).map items) item times =
      (s.instances type).countP fun id => times ≤ (s.plain id signature).length := by
    intro times
    rw [carriers, List.countP_map]
    apply List.countP_congr
    intro id _
    rw [Function.comp_apply, count]
  have greatest := relevant_greatest (total ▸ monotone) item
  rw [total] at greatest
  simpa only [Shares, carried] using greatest

def isIdentifiable (s : Session) (signature : Signature) : Bool :=
  s.areIdentifiable signature.topics

theorem isIdentifiable_iff {signature : Signature} :
    s.isIdentifiable signature = true ↔ ∀ id ∈ signature.topics, s.IsNamed id := by
  rw [isIdentifiable, areIdentifiable, List.all_eq_true]
  exact forall₂_congr fun id _ => s.identity?_isSome id

def minedSignatures (s : Session) (instances : List TopicId) : List Signature :=
  let names := relevant s.settings.relevance (instances.map s.nameSignatures)
  let occurrences := relevant s.settings.relevance (instances.map s.occurrenceSignatures)
  (names.map Signature.name ++ occurrences.map Signature.occurrence).filter s.isIdentifiable

def stem (s : Session) : Signature → String
  | .name of => s.nameStem of
  | .occurrence of => s.occurrenceStem of

def minedTokens (s : Session) (instances : List TopicId) : List String :=
  freshNames [subjectToken] ((s.minedSignatures instances).map s.stem)

theorem length_minedTokens (instances : List TopicId) :
    (s.minedTokens instances).length = (s.minedSignatures instances).length := by
  rw [minedTokens, length_freshNames, List.length_map]

theorem minedStatements_eq (type : TopicId) (instances : List TopicId) :
    s.minedStatements type instances =
      .isa (.fixed type) ::
        List.zipWith Signature.statement (s.minedSignatures instances) (s.minedTokens instances) := by
  rw [minedTokens, minedSignatures, List.filter_append, List.filter_map, List.filter_map,
    zipWith_append, List.map_append, List.map_map, List.map_map, List.zipWith_map_left,
    List.zipWith_map_left, List.length_map]
  rfl

theorem minedSignatures_greatest {type : TopicId} {signature : Signature}
    (monotone : ShareMonotone s.settings.relevance (s.instances type).length)
    (named : ∀ id ∈ signature.topics, s.IsNamed id) :
    IsGreatest {k | k = 0 ∨ s.Shares type signature k}
      ((s.minedSignatures (s.instances type)).count signature) := by
  rw [minedSignatures, List.count_filter (isIdentifiable_iff.mpr named), List.count_append]
  cases signature with
  | name of =>
    have others : (List.map Signature.occurrence (relevant s.settings.relevance
        ((s.instances type).map s.occurrenceSignatures))).count (.name of) = 0 := by
      simp [List.count_eq_zero]
    rw [others, Nat.add_zero, List.count_map_of_injective _ _ fun _ _ => Signature.name.inj]
    exact relevant_greatest_shares monotone fun id => count_nameSignatures id of
  | occurrence of =>
    have others : (List.map Signature.name (relevant s.settings.relevance
        ((s.instances type).map s.nameSignatures))).count (.occurrence of) = 0 := by
      simp [List.count_eq_zero]
    rw [others, Nat.zero_add, List.count_map_of_injective _ _ fun _ _ => Signature.occurrence.inj]
    exact relevant_greatest_shares monotone fun id => count_occurrenceSignatures id of

theorem minedStatements_follow {type : TopicId}
    (monotone : ShareMonotone s.settings.relevance (s.instances type).length) :
    ∃ statements, s.minedStatements type (s.minedInstances type) = .isa (.fixed type) :: statements ∧
      s.FollowsCounts type statements := by
  rw [minedInstances_eq]
  have described := Signature.forall₂_statements (length_minedTokens (s := s) (s.instances type))
  refine ⟨_, minedStatements_eq type (s.instances type), ?_, ?_, ?_⟩
  · intro statement member
    obtain ⟨signature, _, has⟩ := exists_of_mem_forall₂ described member
    exact ⟨signature, has⟩
  · intro signature named
    rw [Signature.countP_describes described]
    exact minedSignatures_greatest monotone named
  · intro signature id inside anonymous
    rw [Signature.countP_describes described, List.count_eq_zero]
    intro member
    have identifiable := isIdentifiable_iff.mp (List.mem_filter.mp member).2
    exact anonymous (identifiable id inside)

theorem FollowsCounts.length_eq {type : TopicId} {statements statements' : List Statement}
    (follows : s.FollowsCounts type statements) (follows' : s.FollowsCounts type statements') :
    statements.length = statements'.length := by
  obtain ⟨signatures, described⟩ := exists_forall₂ follows.entry
  obtain ⟨signatures', described'⟩ := exists_forall₂ follows'.entry
  have perm : signatures.Perm signatures' := by
    rw [List.perm_iff_count]
    intro signature
    rw [← Signature.countP_describes described, ← Signature.countP_describes described']
    by_cases named : ∀ id ∈ signature.topics, s.IsNamed id
    · exact (follows.shared signature named).unique (follows'.shared signature named)
    · push Not at named
      obtain ⟨id, inside, anonymous⟩ := named
      rw [follows.anonymous signature id inside anonymous,
        follows'.anonymous signature id inside anonymous]
  rw [← described.length_eq, perm.length_eq, described'.length_eq]

theorem mineTopic_eq_some {taken : List String} {type : TopicId} {t : Template} :
    s.mineTopic taken type = some t ↔
      s.isReserved type = false ∧ ∃ base, s.localName? type = some base ∧
        s.minedInstances type ≠ [] ∧
        2 < (s.minedStatements type (s.minedInstances type)).length ∧
        t = { name := freshName taken (base ++ "-template"), kind := .topic,
              entries := (s.minedStatements type (s.minedInstances type)).map .statement } := by
  rw [mineTopic]
  cases s.isReserved type with
  | true => simp
  | false =>
    simp only [Bool.false_eq_true, if_false, true_and, Option.bind_eq_bind, Option.bind_eq_some_iff,
      Option.ite_none_left_eq_some, Option.some.injEq, Bool.or_eq_true, List.isEmpty_iff,
      decide_eq_true_eq, not_or, Nat.not_le, and_assoc, eq_comm (b := t), ne_eq]

/-- A template is mined for a type exactly if the type is not reserved, can be referred to, and has two
statements that its instances share; the template begins with the type and follows the counts. -/
theorem mineTopic_counts (s : Session) (taken : List String) (type : TopicId)
    (monotone : ShareMonotone s.settings.relevance (s.instances type).length) :
    (∀ t, s.mineTopic taken type = some t →
      ∃ statements, t.entries = .statement (.isa (.fixed type)) :: statements.map .statement ∧
        s.FollowsCounts type statements) ∧
      ((s.mineTopic taken type).isSome ↔
        s.isReserved type = false ∧ s.IsNamed type ∧
          ∃ statements, s.FollowsCounts type statements ∧ 2 ≤ statements.length) := by
  obtain ⟨mined, all, follows⟩ := minedStatements_follow monotone
  constructor
  · intro t found
    obtain ⟨_, base, _, _, _, rfl⟩ := mineTopic_eq_some.mp found
    exact ⟨mined, by rw [all]; rfl, follows⟩
  · rw [Option.isSome_iff_exists]
    constructor
    · rintro ⟨t, found⟩
      obtain ⟨unreserved, base, named, _, enough, _⟩ := mineTopic_eq_some.mp found
      rw [all, List.length_cons] at enough
      exact ⟨unreserved, isNamed_of_localName? named, mined, follows, by omega⟩
    · rintro ⟨unreserved, named, statements, follows', enough⟩
      rw [follows'.length_eq follows] at enough
      obtain ⟨identity, identified⟩ := Option.isSome_iff_exists.mp ((s.identity?_isSome type).mpr named)
      have some_instance : s.minedInstances type ≠ [] := by
        intro none
        rw [none] at all
        obtain rfl := (List.cons.inj all).2
        cases enough
      have long : 2 < (s.minedStatements type (s.minedInstances type)).length := by
        rw [all, List.length_cons]
        omega
      exact ⟨_, mineTopic_eq_some.mpr ⟨unreserved, _, congrArg (Option.map _) identified, some_instance,
        long, rfl⟩⟩

/-- Three ships: two have two masts and two have a crew. Two of them meet. -/
def harbourCalls : List BuildCall :=
  [.topicAt .subjectIdentifier "http://t.example/ship",
    .topicAt .subjectIdentifier "http://t.example/mast",
    .topicAt .subjectIdentifier "http://t.example/crew",
    .topicAt .subjectIdentifier "http://t.example/anna",
    .topicAt .subjectIdentifier "http://t.example/berta",
    .topicAt .subjectIdentifier "http://t.example/clara",
    .topicAt .subjectIdentifier "http://t.example/meeting",
    .addType ⟨3⟩ ⟨0⟩, .addType ⟨4⟩ ⟨0⟩, .addType ⟨5⟩ ⟨0⟩,
    .createOccurrence ⟨3⟩ ⟨1⟩ "fore" Iri.string [], .createOccurrence ⟨3⟩ ⟨1⟩ "main" Iri.string [],
    .createOccurrence ⟨3⟩ ⟨2⟩ "9" Iri.integer [], .createOccurrence ⟨4⟩ ⟨1⟩ "main" Iri.string [],
    .createOccurrence ⟨4⟩ ⟨1⟩ "mizzen" Iri.string [], .createOccurrence ⟨5⟩ ⟨1⟩ "main" Iri.string [],
    .createOccurrence ⟨5⟩ ⟨2⟩ "4" Iri.integer [], .createAssociation ⟨6⟩ [],
    .createRole ⟨0⟩ ⟨0⟩ ⟨3⟩, .createRole ⟨0⟩ ⟨0⟩ ⟨4⟩]

def harbour : TopicMap := harbourCalls.foldl BuildCall.apply {}

theorem harbour_built : harbour.Built := by
  apply TopicMap.Built.calls .empty
  simp [harbourCalls, BuildCall.AllValid, BuildCall.Valid, BuildCall.apply]
  decide

def harbourSession : Session where
  source := harbour.source
  settings := { relevance := 0.66 }
  table := .empty
  typing := {}

def mastSignature : Signature := .occurrence ⟨⟨1⟩, Iri.string, []⟩

def crewSignature : Signature := .occurrence ⟨⟨2⟩, Iri.integer, []⟩

def harbourStatements : List Statement :=
  [mastSignature.statement "$mast", mastSignature.statement "$mast1",
    crewSignature.statement "$crew"]

theorem harbour_monotone :
    ShareMonotone harbourSession.settings.relevance (harbourSession.instances ⟨0⟩).length := by
  have total : (harbourSession.instances ⟨0⟩).length = 3 := by decide
  have bounded : ∀ more ≤ 3, ∀ less ≤ more,
      reachesShare harbourSession.settings.relevance 3 less = true →
        reachesShare harbourSession.settings.relevance 3 more = true := by
    decide +kernel
  rw [total]
  exact fun less more le bound => bounded more bound less le

theorem harbour_mined :
    (harbourSession.mineTopic [] ⟨0⟩).map Template.entries =
      some ((.isa (.fixed ⟨0⟩) :: harbourStatements).map .statement) := by
  decide +kernel

theorem harbour_counts :
    ShareMonotone harbourSession.settings.relevance (harbourSession.instances ⟨0⟩).length ∧
      (harbourSession.mineTopic [] ⟨0⟩).isSome ∧
      harbourSession.FollowsCounts ⟨0⟩ harbourStatements ∧
      harbourStatements.countP mastSignature.describes = 2 := by
  obtain ⟨follows, _⟩ := mineTopic_counts harbourSession [] ⟨0⟩ harbour_monotone
  obtain ⟨t, found, entries⟩ := Option.map_eq_some_iff.mp harbour_mined
  obtain ⟨statements, split, counts⟩ := follows t found
  have same : statements = harbourStatements :=
    List.map_injective_iff.mpr (fun _ _ => Entry.statement.inj)
      (List.cons.inj (split.symm.trans entries)).2
  exact ⟨harbour_monotone, by rw [found]; rfl, same ▸ counts, by decide⟩

end Session
end CompactTopicMap
