import CompactTopicMap.Proofs.Matching.Places
import CompactTopicMap.Proofs.Reference
import CompactTopicMap.Resolver
import CompactTopicMap.Session.Definition

/-! A definition is rendered exactly if there is no fault in it. -/

namespace CompactTopicMap

namespace Session

structure State (s : Session) where
  progress : Progress
  resolver : Resolver
  naming : resolver.naming = s.settings.naming
  faithful : resolver.Faithful s.source s.table

/-- A rendering that remembers identities. Its parts are those of `Session.define`. -/
abbrev Rendering (s : Session) (α : Type) : Type := ExceptT Error (StateM s.State) α

namespace State

variable {s : Session}

def initial (s : Session) : s.State where
  progress := {}
  resolver := { naming := s.settings.naming }
  naming := rfl
  faithful := nofun

def remember (state : s.State) (id : TopicId) : s.State where
  progress := state.progress
  resolver := (state.resolver.resolve s.source s.table id).1
  naming := (state.faithful.resolve id).2.1.trans state.naming
  faithful := (state.faithful.resolve id).1

theorem resolve_eq (state : s.State) (id : TopicId) :
    (state.resolver.resolve s.source s.table id).2 = s.identity? id := by
  rw [(state.faithful.resolve id).2.2, state.naming]
  rfl

end State

namespace Rendering

variable (s : Session) (owner : String)

def reference (id : TopicId) : s.Rendering (Option String) :=
  modifyGet fun state =>
    ((state.resolver.resolve s.source s.table id).2.map Identity.display, state.remember id)

def topicText : TopicRef → s.Rendering String
  | .var token => pure token
  | .fixed id => do
    match ← reference s id with
    | some text => pure text
    | none => throw (.invalidTemplate owner (.anonymousTopic id))

def scopeText (scope : ScopePattern) : s.Rendering String := do
  pure (Layout.scope (← scope.themes.mapM (topicText s owner)))

def reifierText : ReifierPattern → s.Rendering String
  | none => pure (Layout.reifier none)
  | some topic => do pure (Layout.reifier (some (← topicText s owner topic)))

def variantText (p : VariantPattern) : s.Rendering String := do
  let value := s.encodeLiteral .block p.datatype p.value
  pure (Layout.variant value (← scopeText s owner p.scope) (← reifierText s owner p.reifier))

def nameTypeText : TopicRef → s.Rendering (Option String)
  | .fixed id =>
    if s.isDefaultNameType id then pure none else some <$> topicText s owner (.fixed id)
  | .var token => some <$> topicText s owner (.var token)

def nameText (p : NamePattern) : s.Rendering String := do
  let type ← nameTypeText s owner p.type
  let value := s.encodeLiteral .block Iri.string p.value
  let scope ← scopeText s owner p.scope
  let reifier ← reifierText s owner p.reifier
  pure (Layout.name type value scope reifier (← p.variants.mapM (variantText s owner)))

def occurrenceText (p : OccurrencePattern) : s.Rendering String := do
  let type ← topicText s owner p.type
  let value := s.encodeLiteral .block p.datatype p.value
  pure (Layout.occurrence type value (← scopeText s owner p.scope)
    (← reifierText s owner p.reifier))

def roleText (p : RolePattern) : s.Rendering String := do
  let type ← topicText s owner p.type
  let player ← topicText s owner p.player
  pure (Layout.role type player (← reifierText s owner p.reifier))

def associationText (p : AssociationPattern) : s.Rendering String := do
  let type ← topicText s owner p.type
  let roles ← p.roles.mapM (roleText s owner)
  let scope ← scopeText s owner p.scope
  pure (Layout.association type roles scope (← reifierText s owner p.reifier))

def statementText : Statement → s.Rendering DefinedStatement
  | .isa type => do pure (.inBlock ("isa " ++ (← topicText s owner type)))
  | .ako supertype => do pure (.inBlock ("ako " ++ (← topicText s owner supertype)))
  | .name p => do pure (.inBlock (← nameText s owner p))
  | .occurrence p => do pure (.inBlock (← occurrenceText s owner p))
  | .identifier kind value => pure (.inBlock (s.identifierText kind value))
  | .association p => do pure (.behindBlock (← associationText s owner p))
  | part => throw (.invalidTemplate owner (.misplaced part.kindName))

def entryText : Entry → s.Rendering DefinedStatement
  | .statement statement => statementText s owner statement
  | .invocation name kind body =>
    let t : Template := ⟨name, kind, body⟩
    pure (.inBlock (t.invocation t.argumentTokens))
  | .group _ => throw (.invalidTemplate owner (.misplaced "topic"))

def define (t : Template) : s.Rendering String := do
  let statements ← (Entry.ungroupAll t.entries).mapM (entryText s t.name)
  pure ("def " ++ t.invocation t.parameters ++ "\n" ++
    Text.indentLines indent (definitionBody statements) ++ "end\n")

end Rendering

inductive Settled (owner : String) (Fault : TemplateFault → Prop) {α : Type} : Except Error α → Prop
  | ok {x : α} (sound : ∀ fault, ¬ Fault fault) : Settled owner Fault (.ok x)
  | error {fault : TemplateFault} (found : Fault fault) :
    Settled owner Fault (.error (.invalidTemplate owner fault))

namespace Settled

variable {owner : String} {Fault Other : TemplateFault → Prop} {α β : Type}
  {result : Except Error α}

theorem ok_iff (settled : Settled owner Fault result) :
    (∃ x, result = .ok x) ↔ ∀ fault, ¬ Fault fault := by
  cases settled with
  | @ok x sound => exact ⟨fun _ => sound, fun _ => ⟨x, rfl⟩⟩
  | error found => exact ⟨nofun, fun sound => absurd found (sound _)⟩

theorem of_error (settled : Settled owner Fault result) {e : Error} (failed : result = .error e) :
    ∃ fault, Fault fault ∧ e = .invalidTemplate owner fault := by
  cases settled with
  | ok sound => cases failed
  | error found => exact ⟨_, found, (Except.error.inj failed).symm⟩

theorem congr (settled : Settled owner Fault result) (same : ∀ fault, Fault fault ↔ Other fault) :
    Settled owner Other result := by
  cases settled with
  | ok sound => exact .ok fun fault found => sound fault ((same fault).mpr found)
  | error found => exact .error ((same _).mp found)

theorem bind {results : α → Except Error β} (before : Settled owner Fault result)
    (after : ∀ x, Settled owner Other (results x)) :
    Settled owner (fun fault => Fault fault ∨ Other fault) (result >>= results) := by
  cases before with
  | error found => exact .error (.inl found)
  | @ok x sound => exact (after x).congr fun fault => (or_iff_right (sound fault)).symm

end Settled

/-- In each state the rendering has the result, which the faults decide on, and leaves the progress
as it is. -/
structure Renders (s : Session) (owner : String) (Fault : TemplateFault → Prop) {α : Type}
    (rendering : s.Rendering α) (result : Except Error α) : Prop where
  yields : ∀ state, ∃ next,
    rendering.run.run state = (result, next) ∧ next.progress = state.progress
  settled : Settled owner Fault result

namespace Renders

variable {s : Session} {owner : String} {Fault Other : TemplateFault → Prop} {α β : Type}
  {rendering : s.Rendering α} {result : Except Error α}

theorem congr (renders : s.Renders owner Fault rendering result)
    (same : ∀ fault, Fault fault ↔ Other fault) : s.Renders owner Other rendering result :=
  ⟨renders.yields, renders.settled.congr same⟩

theorem pure (x : α) : s.Renders owner (fun _ => False) (Pure.pure x) (.ok x) where
  yields state := ⟨state, rfl, rfl⟩
  settled := .ok fun _ => id

theorem throw {fault : TemplateFault} (found : Fault fault) :
    s.Renders owner Fault (MonadExcept.throw (.invalidTemplate owner fault) : s.Rendering α)
      (.error (.invalidTemplate owner fault)) where
  yields state := ⟨state, rfl, rfl⟩
  settled := .error found

theorem bind {rest : α → s.Rendering β} {results : α → Except Error β}
    (before : s.Renders owner Fault rendering result)
    (after : ∀ x, s.Renders owner Other (rest x) (results x)) :
    s.Renders owner (fun fault => Fault fault ∨ Other fault) (rendering >>= rest)
      (result >>= results) where
  yields state := by
    obtain ⟨middle, first, kept⟩ := before.yields state
    cases result with
    | error e => exact ⟨middle, by rw [ExceptT.run_bind, StateT.run_bind, first]; rfl, kept⟩
    | ok x =>
      obtain ⟨next, second, same⟩ := (after x).yields middle
      refine ⟨next, ?_, same.trans kept⟩
      rw [ExceptT.run_bind, StateT.run_bind, first]
      exact second
  settled := before.settled.bind fun x => (after x).settled

theorem bind_pure (renders : s.Renders owner Fault rendering result) (f : α → β) :
    s.Renders owner Fault (rendering >>= fun x => Pure.pure (f x))
      (result >>= fun x => .ok (f x)) :=
  (renders.bind fun x => pure (f x)).congr (by simp)

theorem map (f : α → β) (renders : s.Renders owner Fault rendering result) :
    s.Renders owner Fault (f <$> rendering) (result.map f) := by
  have bound := renders.bind_pure f
  cases result <;> exact bound

theorem mapM {Fault : α → TemplateFault → Prop} {rendering : α → s.Rendering β}
    {result : α → Except Error β} (items : List α)
    (each : ∀ item ∈ items, s.Renders owner (Fault item) (rendering item) (result item)) :
    s.Renders owner (fun fault => ∃ item ∈ items, Fault item fault) (items.mapM rendering)
      (items.mapM result) := by
  induction items with
  | nil => exact (pure []).congr (by simp)
  | cons item items ih =>
    rw [List.mapM_cons, List.mapM_cons]
    have rest := ih fun other member => each other (List.mem_cons_of_mem _ member)
    have all := (each item List.mem_cons_self).bind fun x => rest.bind_pure (x :: ·)
    exact all.congr (by simp)

end Renders

def Lacks (s : Session) (places : List Place) (fault : TemplateFault) : Prop :=
  ∃ id, .topic (.fixed id) ∈ places ∧ ¬ s.IsNamed id ∧ fault = .anonymousTopic id

section Lacks

variable (s : Session) (fault : TemplateFault)

@[simp]
theorem lacks_nil : ¬ s.Lacks [] fault := by simp [Lacks]

theorem lacks_append (places others : List Place) :
    s.Lacks (places ++ others) fault ↔ s.Lacks places fault ∨ s.Lacks others fault := by
  simp [Lacks, or_and_right, exists_or]

theorem lacks_pair (first second : Place) :
    s.Lacks [first, second] fault ↔ s.Lacks [first] fault ∨ s.Lacks [second] fault :=
  s.lacks_append fault [first] [second]

@[simp]
theorem lacks_value (text datatype : String) : ¬ s.Lacks [.value text datatype] fault := by
  simp [Lacks]

@[simp]
theorem lacks_var (token : String) : ¬ s.Lacks [.topic (.var token)] fault := by simp [Lacks]

theorem lacks_flatMap {α : Type} (items : List α) (places : α → List Place) :
    s.Lacks (items.flatMap places) fault ↔ ∃ item ∈ items, s.Lacks (places item) fault := by
  induction items with
  | nil => simp
  | cons item items ih => simp [lacks_append, ih]

end Lacks

section Texts

variable (s : Session) (owner : String)

theorem topicText_renders (topic : TopicRef) :
    s.Renders owner (s.Lacks [.topic topic]) (Rendering.topicText s owner topic)
      (s.topicText owner topic) := by
  cases topic with
  | var token => exact (Renders.pure token).congr (by simp)
  | fixed id =>
    -- Whether the state remembers the identity or not, the answer is that of the session.
    have asked (state : s.State) :
        (Rendering.reference s id).run.run state = (.ok (s.reference? id), state.remember id) := by
      rw [reference?, ← state.resolve_eq id]
      rfl
    have run (state : s.State) : (Rendering.topicText s owner (.fixed id)).run.run state =
        (s.topicText owner (.fixed id), state.remember id) := by
      rw [Rendering.topicText, ExceptT.run_bind, StateT.run_bind, asked, topicText]
      cases s.reference? id <;> rfl
    refine ⟨fun state => ⟨state.remember id, run state, rfl⟩, ?_⟩
    have named := s.reference?_isSome id
    rw [topicText]
    cases known : s.reference? id with
    | none => exact .error ⟨id, List.mem_singleton_self _, by simpa [known] using named, rfl⟩
    | some text => exact .ok (by simpa [Lacks, known] using named)

theorem scopeText_renders (scope : ScopePattern) :
    s.Renders owner (s.Lacks scope.places) (Rendering.scopeText s owner scope)
      (s.scopeText owner scope) :=
  ((Renders.mapM scope.themes fun theme _ => s.topicText_renders owner theme).bind_pure
    Layout.scope).congr fun fault => by
      rw [ScopePattern.places, List.map_eq_flatMap, lacks_flatMap]

theorem reifierText_renders (reifier : ReifierPattern) :
    s.Renders owner (s.Lacks reifier.places) (Rendering.reifierText s owner reifier)
      (s.reifierText owner reifier) := by
  cases reifier with
  | none => exact (Renders.pure (Layout.reifier none)).congr (by simp [ReifierPattern.places])
  | some topic => exact (s.topicText_renders owner topic).bind_pure _

theorem variantText_renders (p : VariantPattern) :
    s.Renders owner (s.Lacks p.places) (Rendering.variantText s owner p) (s.variantText owner p) :=
  ((s.scopeText_renders owner p.scope).bind fun _ =>
    (s.reifierText_renders owner p.reifier).bind_pure _).congr fun fault => by
      simp only [VariantPattern.places, lacks_append, lacks_value, false_or]

theorem isNamed_of_isDefaultNameType {id : TopicId} (standard : s.isDefaultNameType id = true) :
    s.IsNamed id := by
  have indicated : Iri.topicName ∈ (s.source.topic id).subjectIdentifiers :=
    of_decide_eq_true standard
  have identified : (s.source.topic id).subjectIdentifiers.isEmpty = false :=
    List.isEmpty_eq_false_iff_exists_mem.mpr ⟨_, indicated⟩
  simp [IsNamed, Topic.isAnonymous, LocatorKind.all, Topic.locators, identified]

theorem nameTypeText_renders (type : TopicRef) :
    s.Renders owner (s.Lacks [.topic type]) (Rendering.nameTypeText s owner type)
      (s.nameTypeText owner type) := by
  cases type with
  | var token => exact (s.topicText_renders owner (.var token)).map some
  | fixed id =>
    rw [Rendering.nameTypeText, nameTypeText]
    split
    · rename_i standard
      have named := s.isNamed_of_isDefaultNameType standard
      exact (Renders.pure none).congr (by simp [Lacks, named])
    · exact (s.topicText_renders owner (.fixed id)).map some

theorem nameText_renders (p : NamePattern) :
    s.Renders owner (s.Lacks p.places) (Rendering.nameText s owner p) (s.nameText owner p) :=
  ((s.nameTypeText_renders owner p.type).bind fun _ =>
    (s.scopeText_renders owner p.scope).bind fun _ =>
    (s.reifierText_renders owner p.reifier).bind fun _ =>
    (Renders.mapM p.variants fun variant _ =>
      s.variantText_renders owner variant).bind_pure _).congr fun fault => by
      simp only [NamePattern.places, lacks_append, lacks_pair, lacks_value, lacks_flatMap, or_false,
        or_assoc]

theorem occurrenceText_renders (p : OccurrencePattern) :
    s.Renders owner (s.Lacks p.places) (Rendering.occurrenceText s owner p)
      (s.occurrenceText owner p) :=
  ((s.topicText_renders owner p.type).bind fun _ =>
    (s.scopeText_renders owner p.scope).bind fun _ =>
    (s.reifierText_renders owner p.reifier).bind_pure _).congr fun fault => by
      simp only [OccurrencePattern.places, lacks_append, lacks_pair, lacks_value, or_false,
        or_assoc]

theorem roleText_renders (p : RolePattern) :
    s.Renders owner (s.Lacks p.places) (Rendering.roleText s owner p) (s.roleText owner p) :=
  ((s.topicText_renders owner p.type).bind fun _ =>
    (s.topicText_renders owner p.player).bind fun _ =>
    (s.reifierText_renders owner p.reifier).bind_pure _).congr fun fault => by
      simp only [RolePattern.places, lacks_append, lacks_pair, or_assoc]

/-- The roles of an association stand before its scope, while they are matched behind it. -/
theorem associationText_renders (p : AssociationPattern) :
    s.Renders owner (s.Lacks p.places) (Rendering.associationText s owner p)
      (s.associationText owner p) :=
  ((s.topicText_renders owner p.type).bind fun _ =>
    (Renders.mapM p.roles fun role _ => s.roleText_renders owner role).bind fun _ =>
    (s.scopeText_renders owner p.scope).bind fun _ =>
    (s.reifierText_renders owner p.reifier).bind_pure _).congr fun fault => by
      simp only [AssociationPattern.places, lacks_append, lacks_flatMap, or_assoc, or_comm,
        or_left_comm]

end Texts

/-- What can be wrong with an entry outside of any group. An invoked template is rendered apart. -/
def Faulty (s : Session) : Entry → TemplateFault → Prop
  | .statement statement, fault =>
    if statement.isPart then fault = .misplaced statement.kindName
    else s.Lacks statement.places fault
  | .invocation _ _ _, _ => False
  | .group _, fault => fault = .misplaced "topic"

theorem entryText_renders (s : Session) (owner : String) (entry : Entry) :
    s.Renders owner (s.Faulty entry) (Rendering.entryText s owner entry)
      (s.entryText owner entry) := by
  cases entry with
  | invocation name kind body => exact .pure _
  | group entries => exact .throw rfl
  | statement statement =>
    cases statement with
    | isa type => exact (s.topicText_renders owner type).bind_pure _
    | ako supertype => exact (s.topicText_renders owner supertype).bind_pure _
    | name p => exact (s.nameText_renders owner p).bind_pure _
    | occurrence p => exact (s.occurrenceText_renders owner p).bind_pure _
    | association p => exact (s.associationText_renders owner p).bind_pure _
    | identifier kind value =>
      have text : s.Renders owner (fun _ => False)
        (Rendering.entryText s owner (.statement (.identifier kind value)))
        (s.entryText owner (.statement (.identifier kind value))) := .pure _
      exact text.congr fun fault => (iff_false_intro (s.lacks_value fault value Iri.anyUri)).symm
    | variant _ | role _ | reifier _ | scope _ => exact .throw rfl

theorem define_renders (s : Session) (t : Template) :
    s.Renders t.name (fun fault => ∃ entry ∈ Entry.ungroupAll t.entries, s.Faulty entry fault)
      (Rendering.define s t) (s.define t) :=
  (Renders.mapM _ fun entry _ => s.entryText_renders t.name entry).bind_pure _

end Session
end CompactTopicMap
