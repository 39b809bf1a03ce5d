import CompactTopicMap.Proofs.Matching.Solutions

namespace CompactTopicMap

section Mentions

variable (token : String)

structure ValueMentions (value : String) : Prop where
  same : value = token
  variable_ : isVariable value = true

def ScopePattern.Mentions (pattern : ScopePattern) : Prop := .var token ∈ pattern.themes

inductive VariantPattern.Mentions (p : VariantPattern) : Prop
  | value (stands : ValueMentions token p.value)
  | theme (stands : p.scope.Mentions token)
  | reifier (stands : p.reifier = some (.var token))

inductive NamePattern.Mentions (p : NamePattern) : Prop
  | type (stands : p.type = .var token)
  | value (stands : ValueMentions token p.value)
  | theme (stands : p.scope.Mentions token)
  | reifier (stands : p.reifier = some (.var token))
  | variant {v : VariantPattern} (member : v ∈ p.variants) (stands : v.Mentions token)

inductive OccurrencePattern.Mentions (p : OccurrencePattern) : Prop
  | type (stands : p.type = .var token)
  | value (stands : ValueMentions token p.value)
  | theme (stands : p.scope.Mentions token)
  | reifier (stands : p.reifier = some (.var token))

inductive RolePattern.Mentions (p : RolePattern) : Prop
  | type (stands : p.type = .var token)
  | player (stands : p.player = .var token)
  | reifier (stands : p.reifier = some (.var token))

inductive AssociationPattern.Mentions (p : AssociationPattern) : Prop
  | type (stands : p.type = .var token)
  | role {r : RolePattern} (member : r ∈ p.roles) (stands : r.Mentions token)
  | theme (stands : p.scope.Mentions token)
  | reifier (stands : p.reifier = some (.var token))

inductive Statement.Mentions : Statement → Prop
  | isa : Mentions (.isa (.var token))
  | ako : Mentions (.ako (.var token))
  | name {p : NamePattern} (stands : p.Mentions token) : Mentions (.name p)
  | occurrence {p : OccurrencePattern} (stands : p.Mentions token) : Mentions (.occurrence p)
  | variant {p : VariantPattern} (stands : p.Mentions token) : Mentions (.variant p)
  | role {p : RolePattern} (stands : p.Mentions token) : Mentions (.role p)
  | association {p : AssociationPattern} (stands : p.Mentions token) : Mentions (.association p)
  | identifier {kind : LocatorKind} {value : String} (stands : ValueMentions token value) :
    Mentions (.identifier kind value)
  | reifier : Mentions (.reifier (.var token))
  | scope {themes : List TopicRef} (member : .var token ∈ themes) : Mentions (.scope themes)

/-- The variable stands in a statement, or is given to an invoked template. What the statements of the
invoked template mention is its own affair. -/
inductive Entry.Mentions : Entry → Prop
  | statement {s : Statement} (stands : s.Mentions token) : Mentions (.statement s)
  | argument {name : String} {kind : TemplateKind} {body : List Entry}
    (passed : token ∈ (Template.mk name kind body).argumentTokens) :
    Mentions (.invocation name kind body)
  | group {entries : List Entry} {entry : Entry} (member : entry ∈ entries)
    (stands : Mentions entry) : Mentions (.group entries)

def Template.Mentions (t : Template) : Prop := ∃ entry ∈ t.entries, entry.Mentions token

end Mentions

section Tokens

variable {token : String}

theorem TopicRef.mem_tokens {topic : TopicRef} : token ∈ topic.tokens ↔ topic = .var token := by
  cases topic with
  | fixed id => simp [tokens]
  | var name => simp [tokens, eq_comm]

theorem mem_valueTokens {value : String} : token ∈ valueTokens value ↔ ValueMentions token value := by
  rw [valueTokens]
  constructor
  · intro member
    split at member
    · rename_i variable_
      exact ⟨(List.mem_singleton.mp member).symm, variable_⟩
    · cases member
  · rintro ⟨rfl, variable_⟩
    rw [if_pos variable_]
    exact List.mem_singleton_self value

theorem mem_flatMap_tokens {themes : List TopicRef} :
    token ∈ themes.flatMap TopicRef.tokens ↔ .var token ∈ themes := by
  simp only [List.mem_flatMap, TopicRef.mem_tokens, exists_eq_right]

theorem ScopePattern.mem_tokens {scope : ScopePattern} :
    token ∈ scope.tokens ↔ scope.Mentions token :=
  mem_flatMap_tokens

theorem ReifierPattern.mem_tokens {reifier : ReifierPattern} :
    token ∈ reifier.tokens ↔ reifier = some (.var token) := by
  cases reifier with
  | none => simp [tokens]
  | some topic => simp [tokens, TopicRef.mem_tokens]

theorem VariantPattern.mem_tokens {p : VariantPattern} : token ∈ p.tokens ↔ p.Mentions token := by
  simp only [tokens, List.mem_append, mem_valueTokens, ScopePattern.mem_tokens,
    ReifierPattern.mem_tokens]
  constructor
  · rintro ((value | theme) | reifier)
    · exact .value value
    · exact .theme theme
    · exact .reifier reifier
  · intro mentions
    cases mentions with
    | value stands => exact .inl (.inl stands)
    | theme stands => exact .inl (.inr stands)
    | reifier stands => exact .inr stands

theorem NamePattern.mem_tokens {p : NamePattern} : token ∈ p.tokens ↔ p.Mentions token := by
  simp only [tokens, List.mem_append, List.mem_flatMap, TopicRef.mem_tokens, mem_valueTokens,
    ScopePattern.mem_tokens, ReifierPattern.mem_tokens, VariantPattern.mem_tokens]
  constructor
  · rintro ((((type | value) | theme) | reifier) | ⟨v, member, variant⟩)
    · exact .type type
    · exact .value value
    · exact .theme theme
    · exact .reifier reifier
    · exact .variant member variant
  · intro mentions
    cases mentions with
    | type stands => exact .inl (.inl (.inl (.inl stands)))
    | value stands => exact .inl (.inl (.inl (.inr stands)))
    | theme stands => exact .inl (.inl (.inr stands))
    | reifier stands => exact .inl (.inr stands)
    | variant member stands => exact .inr ⟨_, member, stands⟩

theorem OccurrencePattern.mem_tokens {p : OccurrencePattern} :
    token ∈ p.tokens ↔ p.Mentions token := by
  simp only [tokens, List.mem_append, TopicRef.mem_tokens, mem_valueTokens, ScopePattern.mem_tokens,
    ReifierPattern.mem_tokens]
  constructor
  · rintro (((type | value) | theme) | reifier)
    · exact .type type
    · exact .value value
    · exact .theme theme
    · exact .reifier reifier
  · intro mentions
    cases mentions with
    | type stands => exact .inl (.inl (.inl stands))
    | value stands => exact .inl (.inl (.inr stands))
    | theme stands => exact .inl (.inr stands)
    | reifier stands => exact .inr stands

theorem RolePattern.mem_tokens {p : RolePattern} : token ∈ p.tokens ↔ p.Mentions token := by
  simp only [tokens, List.mem_append, TopicRef.mem_tokens, ReifierPattern.mem_tokens]
  constructor
  · rintro ((type | player) | reifier)
    · exact .type type
    · exact .player player
    · exact .reifier reifier
  · intro mentions
    cases mentions with
    | type stands => exact .inl (.inl stands)
    | player stands => exact .inl (.inr stands)
    | reifier stands => exact .inr stands

theorem AssociationPattern.mem_tokens {p : AssociationPattern} :
    token ∈ p.tokens ↔ p.Mentions token := by
  simp only [tokens, List.mem_append, List.mem_flatMap, TopicRef.mem_tokens, RolePattern.mem_tokens,
    ScopePattern.mem_tokens, ReifierPattern.mem_tokens]
  constructor
  · rintro (((type | ⟨r, member, role⟩) | theme) | reifier)
    · exact .type type
    · exact .role member role
    · exact .theme theme
    · exact .reifier reifier
  · intro mentions
    cases mentions with
    | type stands => exact .inl (.inl (.inl stands))
    | role member stands => exact .inl (.inl (.inr ⟨_, member, stands⟩))
    | theme stands => exact .inl (.inr stands)
    | reifier stands => exact .inr stands

theorem Statement.mem_tokens {s : Statement} : token ∈ s.tokens ↔ s.Mentions token := by
  constructor
  · intro member
    cases s with
    | isa type => exact TopicRef.mem_tokens.mp member ▸ .isa
    | ako type => exact TopicRef.mem_tokens.mp member ▸ .ako
    | name p => exact .name (NamePattern.mem_tokens.mp member)
    | occurrence p => exact .occurrence (OccurrencePattern.mem_tokens.mp member)
    | variant p => exact .variant (VariantPattern.mem_tokens.mp member)
    | role p => exact .role (RolePattern.mem_tokens.mp member)
    | association p => exact .association (AssociationPattern.mem_tokens.mp member)
    | identifier kind value => exact .identifier (mem_valueTokens.mp member)
    | reifier topic => exact TopicRef.mem_tokens.mp member ▸ .reifier
    | scope themes => exact .scope (mem_flatMap_tokens.mp member)
  · intro mentions
    cases mentions with
    | isa | ako | reifier => exact TopicRef.mem_tokens.mpr rfl
    | name stands => exact NamePattern.mem_tokens.mpr stands
    | occurrence stands => exact OccurrencePattern.mem_tokens.mpr stands
    | variant stands => exact VariantPattern.mem_tokens.mpr stands
    | role stands => exact RolePattern.mem_tokens.mpr stands
    | association stands => exact AssociationPattern.mem_tokens.mpr stands
    | identifier stands => exact mem_valueTokens.mpr stands
    | scope member => exact mem_flatMap_tokens.mpr member

mutual

theorem Entry.mem_tokens : (entry : Entry) → (token ∈ entry.tokens ↔ entry.Mentions token)
  | .statement s => by
    refine Statement.mem_tokens.trans ⟨.statement, fun mentions => ?_⟩
    cases mentions with
    | statement stands => exact stands
  | .invocation name kind body => by
    refine ⟨.argument, fun mentions => ?_⟩
    cases mentions with
    | argument passed => exact passed
  | .group entries => by
    refine (Entry.mem_tokensAll entries).trans ⟨?_, ?_⟩
    · rintro ⟨entry, member, stands⟩
      exact .group member stands
    · intro mentions
      cases mentions with
      | group member stands => exact ⟨_, member, stands⟩

theorem Entry.mem_tokensAll : (entries : List Entry) →
    (token ∈ Entry.tokensAll entries ↔ ∃ entry ∈ entries, entry.Mentions token)
  | [] => by simp [Entry.tokensAll]
  | entry :: entries => by
    rw [Entry.tokensAll, List.mem_append, Entry.mem_tokens entry, Entry.mem_tokensAll entries]
    simp

end

end Tokens

section Parameters

variable {t : Template} {token : String}

/-- The parameters are the variables that the body mentions, except that topic templates always have
the subject as a parameter and association templates never do. -/
theorem Template.mem_parameters_iff :
    token ∈ t.parameters ↔
      t.kind = .topic ∧ token = subjectToken ∨ token ≠ subjectToken ∧ t.Mentions token := by
  have arguments : token ∈ t.argumentTokens ↔ token ≠ subjectToken ∧ t.Mentions token := by
    rw [argumentTokens, mem_parameterTokens, Entry.mem_tokensAll, and_comm]
    rfl
  rw [parameters]
  split
  · rename_i kind
    rw [List.mem_cons, arguments]
    simp [kind]
  · rename_i kind
    rw [arguments]
    simp [kind]

mutual

theorem Entry.mem_tokens_of_flatten (differ : token ≠ subjectToken) : (entry : Entry) →
    token ∈ (flatten entry).flatMap Statement.tokens → token ∈ entry.tokens
  | .statement s => by simp [flatten, tokens]
  | .invocation _ _ body => fun member =>
    mem_parameterTokens.mpr ⟨Entry.mem_tokensAll_of_flatten differ body member, differ⟩
  | .group entries => Entry.mem_tokensAll_of_flatten differ entries

theorem Entry.mem_tokensAll_of_flatten (differ : token ≠ subjectToken) :
    (entries : List Entry) →
    token ∈ (flattenAll entries).flatMap Statement.tokens → token ∈ tokensAll entries
  | [] => id
  | entry :: entries => by
    intro member
    rw [flattenAll, List.flatMap_append, List.mem_append] at member
    exact List.mem_append.mpr (member.imp (Entry.mem_tokens_of_flatten differ entry)
      (Entry.mem_tokensAll_of_flatten differ entries))

end

theorem Template.mem_argumentTokens_of_flattened (differ : token ≠ subjectToken)
    (member : token ∈ t.flattened.flatMap Statement.tokens) : token ∈ t.argumentTokens :=
  mem_parameterTokens.mpr ⟨Entry.mem_tokensAll_of_flatten differ t.entries member, differ⟩

end Parameters

namespace Matcher

variable {w : Matcher} {t : Template} {m : Match}

theorem matchTopic?_binds {subject : TopicId} (found : w.matchTopic? t subject = some m)
    {token : String} {bound : Bound} (here : m.find? token = some bound)
    (differ : token ≠ subjectToken) : token ∈ t.argumentTokens := by
  apply Template.mem_argumentTokens_of_flattened differ
  by_contra other
  obtain ⟨_, search⟩ := matchTopic?_eq_some.mp found
  have left := search_leaves search token other
  rw [here, Match.find?_ofSubject, if_neg differ] at left
  cases left

theorem matchAssociation?_binds {id : AssociationId} (found : w.matchAssociation? t id = some m)
    {token : String} {bound : Bound} (here : m.find? token = some bound)
    (differ : token ≠ subjectToken) : token ∈ t.argumentTokens := by
  apply Template.mem_argumentTokens_of_flattened differ
  by_contra other
  obtain ⟨pattern, _, entries, _, matched⟩ := matchAssociation?_spec found
  have own : t.flattened.flatMap Statement.tokens = pattern.tokens := by
    simp [Template.flattened, entries, Entry.flattenAll, Entry.flatten, Statement.tokens]
  rw [own] at other
  have left := association?_leaves matched token other
  rw [here] at left
  cases left

end Matcher

namespace Session

variable {s : Session} {p : Progress} {t : Template} {m : Match}

def boundText? (s : Session) : Bound → Option String
  | .topic id => s.reference? id
  | .literal value datatype => some (s.encodeLiteral .argument datatype value)

/-- The arguments have the text of what the variable is bound to in the place of the variable. -/
def Passes (s : Session) (t : Template) (arguments : List String) (token : String) (bound : Bound) :
    Prop :=
  ∃ text, s.boundText? bound = some text ∧ (token, text) ∈ t.argumentTokens.zip arguments

theorem boundText?_of_argument {subject : Subject} {token text : String} {bound : Bound}
    (here : m.find? token = some bound) (given : s.argument t subject m token = .ok text) :
    s.boundText? bound = some text := by
  rw [argument, here] at given
  cases bound with
  | literal value datatype => exact congrArg some (Except.ok.inj given)
  | topic id =>
    cases reference : s.reference? id with
    | none => simp [reference] at given
    | some other =>
      simp only [reference] at given
      exact reference.trans (congrArg some (Except.ok.inj given))

theorem commit_passes {subject : Subject} {arguments : List String}
    (given : (s.commit p t subject (some m)).2 = .ok arguments) {token : String} {bound : Bound}
    (here : m.find? token = some bound) (member : token ∈ t.argumentTokens) :
    s.Passes t arguments token bound := by
  rw [commit] at given
  cases all : t.argumentTokens.mapM (s.argument t subject m) with
  | error e =>
    rw [all] at given
    cases given
  | ok texts =>
    rw [all] at given
    obtain rfl := Except.ok.inj given
    have each := List.forall₂_iff_zip.mp (forall₂_of_mapM all)
    obtain ⟨i, inside, rfl⟩ := List.mem_iff_getElem.mp member
    have bounded : i < (t.argumentTokens.zip texts).length := by
      rw [List.length_zip, ← each.1]
      omega
    have paired := List.getElem_mem bounded
    rw [List.getElem_zip] at paired
    exact ⟨_, boundText?_of_argument here (each.2 paired), paired⟩

/-- A variable that the body of a template mentions is a parameter, unless it is the one for the
subject and the template is for associations. Topic templates therefore pass on all that a match binds
besides the subject. Association templates pass on all but what is bound to the variable for the
subject, which is a variable as any other there. -/
theorem parameters_complete (s : Session) (p : Progress) (t : Template) :
    (∀ token, t.Mentions token →
      (token ∈ t.parameters ↔ t.kind = .topic ∨ token ≠ subjectToken)) ∧
    (∀ id m, (s.matcher p).matchTopic? t id = some m →
      ∃ arguments, (s.extractTopic p t id).2 = .ok arguments ∧
        ∀ token bound, m.find? token = some bound → token ≠ subjectToken →
          s.Passes t arguments token bound) ∧
    ∀ id m, (s.matcher p).matchAssociation? t id = some m →
      ∃ arguments, (s.extractAssociation p t id).2 = .ok arguments ∧
        ∀ token bound, m.find? token = some bound →
          (s.Passes t arguments token bound ↔ token ≠ subjectToken) := by
  refine ⟨fun token mentions => ?_, fun id m found => ?_, fun id m found => ?_⟩
  · rw [Template.mem_parameters_iff]
    by_cases subject : token = subjectToken
    · simp [subject]
    · simp [subject, mentions]
  · obtain ⟨arguments, extracted, _⟩ := extractTopic_ok found
    refine ⟨arguments, by rw [extracted], fun token bound here differ => ?_⟩
    have given : (s.commit p t (.topic id) (some m)).2 = .ok arguments := by
      rw [← found, ← extractTopic, extracted]
    exact commit_passes given here (Matcher.matchTopic?_binds found here differ)
  · obtain ⟨arguments, extracted, _⟩ := extractAssociation_ok found
    refine ⟨arguments, by rw [extracted], fun token bound here => ⟨?_, fun differ => ?_⟩⟩
    · rintro ⟨text, _, paired⟩
      exact (Template.mem_argumentTokens (List.of_mem_zip paired).1).1
    · have given : (s.commit p t (.association id) (some m)).2 = .ok arguments := by
        rw [← found, ← extractAssociation, extracted]
      exact commit_passes given here (Matcher.matchAssociation?_binds found here differ)

def knowsTemplate : Template := ⟨"knows", .association, [.statement (.association knows)]⟩

def knowsMatch : Match where
  bindings := [("$other", .topic ⟨3⟩), ("$one", .topic ⟨2⟩)]
  claims := [.association ⟨0⟩, .role ⟨1⟩, .role ⟨0⟩]

theorem knows_passed :
    "$one" ∈ knowsTemplate.parameters ∧
      (∃ arguments, (meetingSession.extractAssociation {} knowsTemplate ⟨0⟩).2 = .ok arguments ∧
        meetingSession.Passes knowsTemplate arguments "$one" (.topic ⟨2⟩)) ∧
      ∃ m arguments, (meetingSession.matcher {}).matchTopic? placedTemplate ⟨2⟩ = some m ∧
        (meetingSession.extractTopic {} placedTemplate ⟨2⟩).2 = .ok arguments ∧
        meetingSession.Passes placedTemplate arguments "$place" (.literal "Paris" Iri.string) := by
  have mentions : knowsTemplate.Mentions "$one" :=
    ⟨_, List.mem_cons_self, .statement (.association (.role List.mem_cons_self (.player rfl)))⟩
  obtain ⟨parameters, _, associations⟩ := parameters_complete meetingSession {} knowsTemplate
  obtain ⟨_, topics, _⟩ := parameters_complete meetingSession {} placedTemplate
  obtain ⟨arguments, extracted, passed⟩ := associations ⟨0⟩ knowsMatch rfl
  obtain ⟨others, extracted', passed'⟩ := topics ⟨2⟩ _ rfl
  refine ⟨(parameters _ mentions).mpr (.inr (by decide)), ⟨arguments, extracted, ?_⟩, _, others, rfl,
    extracted', ?_⟩
  · exact (passed _ _ rfl).mpr (by decide)
  · exact passed' _ _ rfl (by decide)

def subjectTemplate : Template :=
  ⟨"knows", .association, [.statement (.association {
    type := .fixed ⟨0⟩
    roles := [{ type := .fixed ⟨1⟩, player := .var subjectToken },
      { type := .fixed ⟨1⟩, player := .var "$other" }] })]⟩

/-- The template is valid and binds the variable, which is no parameter, and its value is lost. -/
theorem subject_dropped :
    subjectTemplate.validate = .ok () ∧ subjectTemplate.Mentions subjectToken ∧
      subjectToken ∉ subjectTemplate.parameters ∧
      ∃ m, (meetingSession.matcher {}).matchAssociation? subjectTemplate ⟨0⟩ = some m ∧
        m.find? subjectToken = some (.topic ⟨2⟩) ∧
        (meetingSession.extractAssociation {} subjectTemplate ⟨0⟩).2 =
          .ok ["<http://t.example/bob>"] := by
  have mentions : subjectTemplate.Mentions subjectToken :=
    ⟨_, List.mem_cons_self, .statement (.association (.role List.mem_cons_self (.player rfl)))⟩
  exact ⟨by rfl, mentions, by decide, _, rfl, rfl, by rfl⟩

end Session
end CompactTopicMap
