import CompactTopicMap.Session.Basic

/-!
A match binds the variables of a template, and claims the constructs that the template stands for.
-/

namespace CompactTopicMap

inductive Bound where
  | topic (id : TopicId)
  | literal (value datatype : String)
  deriving DecidableEq, Repr

structure Match where
  bindings : List (String × Bound) := []
  claims : List Construct := []
  deriving DecidableEq, Repr

/-- Each item with the others in order. -/
def picks {α : Type} : List α → List (α × List α)
  | [] => []
  | item :: items => (item, items) :: (picks items).map fun (x, rest) => (x, item :: rest)

namespace Match

def ofSubject (id : TopicId) : Match := { bindings := [(subjectToken, .topic id)] }

def find? (m : Match) (token : String) : Option Bound := m.bindings.lookup token

def bind (m : Match) (token : String) (bound : Bound) : Match :=
  { m with bindings := (token, bound) :: m.bindings }

def claim (m : Match) (c : Construct) : Match := { m with claims := c :: m.claims }

/-- A new variable is bound to a topic only if the topic has an identity. -/
def topic? (source : Source) (pattern : TopicRef) (actual : TopicId) (m : Match) : Option Match :=
  match pattern with
  | .fixed id => if id = actual then some m else none
  | .var token =>
    match m.find? token with
    | some (.topic id) => if id = actual then some m else none
    | some (.literal _ _) => none
    | none =>
      if (source.topic actual).isAnonymous then none else some (m.bind token (.topic actual))

def themes? (source : Source) : List TopicRef → List TopicId → Match → Option Match
  | [], [], m => some m
  | pattern :: patterns, theme :: themes, m =>
    (m.topic? source pattern theme).bind (themes? source patterns themes)
  | _, _, _ => none

def scope? (source : Source) (pattern : ScopePattern) (scope : List TopicId) (m : Match) :
    Option Match :=
  m.themes? source pattern.themes scope

def reifier? (source : Source) (pattern : ReifierPattern) (reifier : Option TopicId) (m : Match) :
    Option Match :=
  match pattern, reifier with
  | none, none => some m
  | some pattern, some reifier => m.topic? source pattern reifier
  | _, _ => none

def value? (pattern expected value datatype : String) (m : Match) : Option Match :=
  if expected ≠ datatype then none
  else if !isVariable pattern then if pattern = value then some m else none
  else
    match m.find? pattern with
    | some (.literal bound _) => if bound = value then some m else none
    | some (.topic _) => none
    | none => some (m.bind pattern (.literal value datatype))

end Match

structure Matcher where
  source : Source
  typing : Typing
  written : Written

namespace Matcher

def available (w : Matcher) (m : Match) (c : Construct) : Bool :=
  c ∉ w.written && c ∉ m.claims

def relation? (w : Matcher) (m : Match) (c : Construct) (pattern : TopicRef) (actual : TopicId) :
    Option Match :=
  if w.available m c then (m.topic? w.source pattern actual).map (·.claim c) else none

def variant? (w : Matcher) (pattern : VariantPattern) (id : VariantId) (m : Match) :
    Option Match :=
  if w.available m (.variant id) then do
    let variant := w.source.variant id
    let m ← m.value? pattern.value pattern.datatype variant.value variant.datatype
    let m ← m.scope? w.source pattern.scope variant.scope
    let m ← m.reifier? w.source pattern.reifier variant.reifier
    some (m.claim (.variant id))
  else none

def variants? (w : Matcher) : List VariantPattern → List VariantId → Match → Option Match
  | [], [], m => some m
  | pattern :: patterns, id :: ids, m => (w.variant? pattern id m).bind (variants? w patterns ids)
  | _, _, _ => none

def name? (w : Matcher) (pattern : NamePattern) (id : NameId) (m : Match) : Option Match := do
  let name := w.source.name id
  let m ← m.topic? w.source pattern.type name.type
  let m ← m.value? pattern.value Iri.string name.value Iri.string
  let m ← m.scope? w.source pattern.scope name.scope
  let m ← m.reifier? w.source pattern.reifier name.reifier
  let m ← w.variants? pattern.variants name.variants m
  some (m.claim (.name id))

def occurrence? (w : Matcher) (pattern : OccurrencePattern) (id : OccurrenceId) (m : Match) :
    Option Match := do
  let occurrence := w.source.occurrence id
  let m ← m.topic? w.source pattern.type occurrence.type
  let m ← m.value? pattern.value pattern.datatype occurrence.value occurrence.datatype
  let m ← m.scope? w.source pattern.scope occurrence.scope
  let m ← m.reifier? w.source pattern.reifier occurrence.reifier
  some (m.claim (.occurrence id))

def role? (w : Matcher) (pattern : RolePattern) (id : RoleId) (m : Match) : Option Match := do
  let role := w.source.role id
  let m ← m.topic? w.source pattern.type role.type
  let m ← m.topic? w.source pattern.player role.player
  let m ← m.reifier? w.source pattern.reifier role.reifier
  some (m.claim (.role id))

def roles? (w : Matcher) : List RolePattern → List RoleId → Match → Option Match
  | [], _, m => some m
  | pattern :: patterns, ids, m =>
    (picks ids).findSome? fun (id, others) =>
      (w.role? pattern id m).bind (roles? w patterns others)

def association? (w : Matcher) (pattern : AssociationPattern) (id : AssociationId) (m : Match) :
    Option Match := do
  let association := w.source.association id
  if pattern.roles.length ≠ association.roles.length then none
  else
    let m ← m.topic? w.source pattern.type association.type
    let m ← m.scope? w.source pattern.scope association.scope
    let m ← m.reifier? w.source pattern.reifier association.reifier
    let m ← w.roles? pattern.roles association.roles m
    some (m.claim (.association id))

/-- An association that is neither written, nor claimed, nor said in a block. -/
def isOpen (w : Matcher) (m : Match) (id : AssociationId) : Bool :=
  w.available m (.association id) && !w.typing.isFolded id

def extend (w : Matcher) (subject : TopicId) (statement : Statement) (m : Match) : List Match :=
  let topic := w.source.topic subject
  match statement with
  | .isa pattern =>
    (w.typing.typesOf w.source subject).filterMap fun type =>
      w.relation? m (.typing subject type) pattern type
  | .ako pattern =>
    (w.typing.supertypesOf subject).filterMap fun supertype =>
      w.relation? m (.subtyping subject supertype) pattern supertype
  | .name pattern =>
    topic.names.filterMap fun id =>
      if w.available m (.name id) then w.name? pattern id m else none
  | .occurrence pattern =>
    topic.occurrences.filterMap fun id =>
      if w.available m (.occurrence id) then w.occurrence? pattern id m else none
  | .identifier kind pattern =>
    (topic.locators kind).filterMap fun iri =>
      let c := Construct.locator subject kind iri
      if w.available m c then (m.value? pattern Iri.anyUri iri Iri.anyUri).map (·.claim c)
      else none
  | .association pattern =>
    w.source.associationIds.filterMap fun id =>
      if w.isOpen m id then w.association? pattern id m else none
  | .variant _ | .role _ | .reifier _ | .scope _ => []

def search (w : Matcher) (subject : TopicId) : List Statement → Match → Option Match
  | [], m => some m
  | statement :: rest, m => (w.extend subject statement m).findSome? (search w subject rest)

def matchTopic? (w : Matcher) (t : Template) (subject : TopicId) : Option Match :=
  if t.kind = .topic then w.search subject t.flattened (.ofSubject subject) else none

def matchAssociation? (w : Matcher) (t : Template) (id : AssociationId) : Option Match :=
  match t.kind, t.entries with
  | .association, [.statement (.association pattern)] =>
    if w.isOpen {} id then w.association? pattern id {} else none
  | _, _ => none

end Matcher

namespace Session

def matcher (s : Session) (p : Progress) : Matcher := ⟨s.source, s.typing, p.written⟩

def isAdaptiveForTopic (s : Session) (p : Progress) (t : Template) (id : TopicId) : Bool :=
  ((s.matcher p).matchTopic? t id).isSome

def isAdaptiveForAssociation (s : Session) (p : Progress) (t : Template) (id : AssociationId) :
    Bool :=
  ((s.matcher p).matchAssociation? t id).isSome

def argument (s : Session) (t : Template) (subject : Subject) (m : Match) (token : String) :
    Except Error String :=
  match m.find? token with
  | some (.literal value datatype) => .ok (s.encodeLiteral .argument datatype value)
  | some (.topic id) =>
    match s.reference? id with
    | some text => .ok text
    | none => .error (.adaptivityViolation t.name subject (.noIdentity token))
  | none => .error (.adaptivityViolation t.name subject (.unbound token))

/-- The arguments of an invocation; the claims of the match are marked as written. -/
def commit (s : Session) (p : Progress) (t : Template) (subject : Subject) :
    Option Match → Progress × Except Error (List String)
  | none => (p, .error (.adaptivityViolation t.name subject .noMatch))
  | some m =>
    match t.argumentTokens.mapM (s.argument t subject m) with
    | .ok arguments => (p.markAll m.claims, .ok arguments)
    | .error e => (p, .error e)

def extractTopic (s : Session) (p : Progress) (t : Template) (id : TopicId) :
    Progress × Except Error (List String) :=
  s.commit p t (.topic id) ((s.matcher p).matchTopic? t id)

def extractAssociation (s : Session) (p : Progress) (t : Template) (id : AssociationId) :
    Progress × Except Error (List String) :=
  s.commit p t (.association id) ((s.matcher p).matchAssociation? t id)

end Session
end CompactTopicMap
