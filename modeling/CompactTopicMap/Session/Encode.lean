import CompactTopicMap.Buffer
import CompactTopicMap.Layout
import CompactTopicMap.Session.Definition
import CompactTopicMap.Session.Match

/-!
Encoders give nothing, and mark nothing, if a topic that the construct must refer to has no identity.
-/

namespace CompactTopicMap

structure Piece where
  text : String
  invocations : Nat
  deriving DecidableEq, Repr

namespace Session

def encodeScope (s : Session) (themes : List TopicId) : Option String :=
  (themes.mapM s.reference?).map Layout.scope

def encodeReifier (s : Session) (reifier : Option TopicId) : String :=
  Layout.reifier (reifier.bind s.reference?)

/-- Encodes the items that are not written, one after the other; those that cannot be encoded are
skipped. -/
def encodeUnwritten {α β : Type} (construct : α → Construct)
    (encode : Progress → α → Progress × Option β) :
    List α → Progress → Progress × List β
  | [], p => (p, [])
  | item :: items, p =>
    if construct item ∈ p.written then encodeUnwritten construct encode items p
    else
      match encode p item with
      | (p, some text) =>
        let (p, texts) := encodeUnwritten construct encode items p
        (p, text :: texts)
      | (p, none) => encodeUnwritten construct encode items p.skip

def variantParts? (s : Session) (id : VariantId) : Option String := do
  let variant := s.source.variant id
  let scope ← s.encodeScope variant.scope
  some (Layout.variant (s.encodeLiteral .block variant.datatype variant.value) scope
    (s.encodeReifier variant.reifier))

def encodeVariant (s : Session) (p : Progress) (id : VariantId) : Progress × Option String :=
  match s.variantParts? id with
  | some text => (p.mark (.variant id), some text)
  | none => (p, none)

def encodeVariants (s : Session) : List VariantId → Progress → Progress × List String :=
  encodeUnwritten .variant s.encodeVariant

def encodeNameType (s : Session) (type : TopicId) : Option (Option String) :=
  if s.isDefaultNameType type then some none else (s.reference? type).map some

def encodeName (s : Session) (p : Progress) (id : NameId) : Progress × Option String :=
  let name := s.source.name id
  match s.encodeNameType name.type, s.encodeScope name.scope with
  | some type, some scope =>
    let (p, variants) := s.encodeVariants name.variants p
    let value := s.encodeLiteral .block Iri.string name.value
    (p.mark (.name id),
      some (Layout.name type value scope (s.encodeReifier name.reifier) variants))
  | _, _ => (p, none)

def encodeOccurrence (s : Session) (p : Progress) (id : OccurrenceId) :
    Progress × Option String :=
  let occurrence := s.source.occurrence id
  match s.reference? occurrence.type, s.encodeScope occurrence.scope with
  | some type, some scope =>
    let value := s.encodeLiteral .block occurrence.datatype occurrence.value
    (p.mark (.occurrence id),
      some (Layout.occurrence type value scope (s.encodeReifier occurrence.reifier)))
  | _, _ => (p, none)

/-- A role is marked together with its association. -/
def encodeRole (s : Session) (id : RoleId) : Option String := do
  let role := s.source.role id
  let type ← s.reference? role.type
  let player ← s.reference? role.player
  some (Layout.role type player (s.encodeReifier role.reifier))

def encodeAssociation (s : Session) (p : Progress) (id : AssociationId) :
    Progress × Option String :=
  let association := s.source.association id
  match s.reference? association.type, association.roles.mapM s.encodeRole,
      s.encodeScope association.scope with
  | some type, some roles, some scope =>
    ((p.mark (.association id)).markAll (association.roles.map .role),
      some (Layout.association type roles scope (s.encodeReifier association.reifier)))
  | _, _, _ => (p, none)

def encodeRelation (s : Session) (keyword : String) (construct : TopicId → Construct)
    (p : Progress) (other : TopicId) : Progress × Option String :=
  match s.reference? other with
  | some text => (p.mark (construct other), some (keyword ++ text))
  | none => (p, none)

/-- Item identifiers are written if the settings say so, but never those of the engine. -/
def writesLocator (s : Session) (kind : LocatorKind) (iri : String) : Bool :=
  kind != .itemIdentifier || (s.settings.writeItemIdentifiers && !s.isSystem iri)

def encodeLocator (s : Session) (id : TopicId) (kind : LocatorKind) (p : Progress)
    (iri : String) : Progress × Option String :=
  (p.mark (.locator id kind iri), some (s.locatorIdentity kind iri).display)

def encodeLocators (s : Session) (id : TopicId) (kind : LocatorKind) (p : Progress) :
    Progress × List String :=
  encodeUnwritten (.locator id kind) (s.encodeLocator id kind)
    (((s.source.topic id).locators kind).filter (s.writesLocator kind)) p

def claimable (s : Session) (id : TopicId) : Nat :=
  let topic := s.source.topic id
  let variants := topic.names.flatMap fun id => (s.source.name id).variants
  let roles := s.source.associationIds.flatMap fun id => (s.source.association id).roles
  (s.typesOf id).length + (s.supertypesOf id).length + topic.names.length + variants.length +
    topic.occurrences.length + (LocatorKind.all.flatMap topic.locators).length +
    s.source.associationIds.length + roles.length

/-- Invokes a template for a topic until it applies no more. Each round writes something new, so the
number of claimable constructs bounds the rounds. -/
def invokeRepeatedly (s : Session) (t : Template) (id : TopicId) :
    Nat → Progress → Progress × Except Error (List String)
  | 0, p => (p, .ok [])
  | rounds + 1, p =>
    if s.isAdaptiveForTopic p t id then
      match s.extractTopic p t id with
      | (p', .error e) => (p', .error e)
      | (p', .ok arguments) =>
        if p'.written.size = p.written.size then (p', .ok [])
        else
          match invokeRepeatedly s t id rounds p' with
          | (p'', .error e) => (p'', .error e)
          | (p'', .ok texts) => (p'', .ok (t.invocation arguments :: texts))
    else (p, .ok [])

def invokeTemplates (s : Session) (id : TopicId) :
    List Template → Progress → Progress × Except Error (List String)
  | [], p => (p, .ok [])
  | t :: ts, p =>
    if t.kind = .topic && !t.entries.isEmpty then
      match s.invokeRepeatedly t id (s.claimable id + 1) p with
      | (p, .error e) => (p, .error e)
      | (p, .ok texts) =>
        match invokeTemplates s id ts p with
        | (p, .error e) => (p, .error e)
        | (p, .ok more) => (p, .ok (texts ++ more))
    else invokeTemplates s id ts p

/-- The statements of a block that are not invocations come in two parts: those before the
invocations and those behind them. -/
def encodeTypes (s : Session) (id : TopicId) (p : Progress) : Progress × List String :=
  let (p, types) :=
    encodeUnwritten (.typing id) (s.encodeRelation "isa " (.typing id)) (s.typesOf id) p
  let (p, supertypes) :=
    encodeUnwritten (.subtyping id) (s.encodeRelation "ako " (.subtyping id))
      (s.supertypesOf id) p
  (p, types ++ supertypes)

def encodeCharacteristics (s : Session) (id : TopicId) (p : Progress) :
    Progress × List String :=
  let topic := s.source.topic id
  let (p, names) := encodeUnwritten .name s.encodeName topic.names p
  let (p, occurrences) := encodeUnwritten .occurrence s.encodeOccurrence topic.occurrences p
  let (p, indicators) := s.encodeLocators id .subjectIdentifier p
  let (p, locators) := s.encodeLocators id .subjectLocator p
  let (p, items) := s.encodeLocators id .itemIdentifier p
  (p, names ++ occurrences ++ indicators ++ locators ++ items)

def block (head : String) (statements : List String) : String :=
  ((Buffer.beginBlock {} head).statements statements).finish

/-- The block of a topic. Topics of the data model and topics without identity have none. -/
def writeTopic (s : Session) (p : Progress) (id : TopicId) :
    Progress × Except Error (Option Piece) :=
  if s.isReserved id then (p, .ok none)
  else
    match s.identity? id with
    | none => (p.skip, .ok none)
    | some identity =>
      match s.invokeTemplates id s.templates (p.mark (.locator id identity.kind identity.iri)) with
      | (p, .error e) => (p, .error e)
      | (p, .ok invocations) =>
        let (p, types) := s.encodeTypes id p
        let (p, characteristics) := s.encodeCharacteristics id p
        let statements := types ++ invocations ++ characteristics
        (p, .ok (some ⟨block identity.display statements, invocations.length⟩))

/-- Invokes each template that applies to an association. The first one claims the association, so
that no other applies. -/
def invokeForAssociation (s : Session) (id : AssociationId) :
    List Template → Progress → Progress × Except Error (List String)
  | [], p => (p, .ok [])
  | t :: ts, p =>
    if s.isAdaptiveForAssociation p t id then
      match s.extractAssociation p t id with
      | (p, .error e) => (p, .error e)
      | (p, .ok arguments) =>
        match invokeForAssociation s id ts p with
        | (p, .error e) => (p, .error e)
        | (p, .ok lines) => (p, .ok (t.invocation arguments :: lines))
    else invokeForAssociation s id ts p

/-- The line of an association, which is an invocation if a template applies. An association that is
written, or said in a block, has none. -/
def writeAssociation (s : Session) (p : Progress) (id : AssociationId) :
    Progress × Except Error (Option Piece) :=
  if .association id ∈ p.written || s.typing.isFolded id then (p, .ok none)
  else
    match s.invokeForAssociation id s.templates p with
    | (p, .error e) => (p, .error e)
    | (p, .ok []) =>
      match s.encodeAssociation p id with
      | (p, some text) => (p, .ok (some ⟨text ++ "\n", 0⟩))
      | (p, none) => (p.skip, .ok none)
    | (p, .ok lines) => (p, .ok (some ⟨String.join (lines.map (· ++ "\n")), lines.length⟩))

end Session
end CompactTopicMap
