import CompactTopicMap.Buffer
import CompactTopicMap.Layout
import CompactTopicMap.Session.Basic
import CompactTopicMap.Template.Validity
import CompactTopicMap.Text.Lines

namespace CompactTopicMap

/-- A statement of a definition: one about the subject, or one that stands by itself. -/
inductive DefinedStatement where
  | inBlock (text : String)
  | behindBlock (text : String)
  deriving DecidableEq, Repr

namespace DefinedStatement

def inBlock? : DefinedStatement → Option String
  | inBlock text => some text
  | behindBlock _ => none

def behindBlock? : DefinedStatement → Option String
  | inBlock _ => none
  | behindBlock text => some text

end DefinedStatement

namespace Template

def invocation (t : Template) (arguments : List String) : String :=
  Layout.invocation t.name arguments

end Template

namespace Session

def topicText (s : Session) (owner : String) : TopicRef → Except Error String
  | .var token => .ok token
  | .fixed id =>
    match s.reference? id with
    | some text => .ok text
    | none => .error (.invalidTemplate owner (.anonymousTopic id))

def scopeText (s : Session) (owner : String) (scope : ScopePattern) : Except Error String := do
  .ok (Layout.scope (← scope.themes.mapM (s.topicText owner)))

def reifierText (s : Session) (owner : String) : ReifierPattern → Except Error String
  | none => .ok (Layout.reifier none)
  | some topic => do .ok (Layout.reifier (some (← s.topicText owner topic)))

def variantText (s : Session) (owner : String) (p : VariantPattern) : Except Error String := do
  let value := s.encodeLiteral .block p.datatype p.value
  .ok (Layout.variant value (← s.scopeText owner p.scope) (← s.reifierText owner p.reifier))

def nameTypeText (s : Session) (owner : String) (type : TopicRef) :
    Except Error (Option String) :=
  match type with
  | .fixed id => if s.isDefaultNameType id then .ok none else (s.topicText owner type).map some
  | .var _ => (s.topicText owner type).map some

def nameText (s : Session) (owner : String) (p : NamePattern) : Except Error String := do
  let type ← s.nameTypeText owner p.type
  let value := s.encodeLiteral .block Iri.string p.value
  let scope ← s.scopeText owner p.scope
  let reifier ← s.reifierText owner p.reifier
  .ok (Layout.name type value scope reifier (← p.variants.mapM (s.variantText owner)))

def occurrenceText (s : Session) (owner : String) (p : OccurrencePattern) :
    Except Error String := do
  let type ← s.topicText owner p.type
  let value := s.encodeLiteral .block p.datatype p.value
  .ok (Layout.occurrence type value (← s.scopeText owner p.scope)
    (← s.reifierText owner p.reifier))

def roleText (s : Session) (owner : String) (p : RolePattern) : Except Error String := do
  let type ← s.topicText owner p.type
  let player ← s.topicText owner p.player
  .ok (Layout.role type player (← s.reifierText owner p.reifier))

def associationText (s : Session) (owner : String) (p : AssociationPattern) :
    Except Error String := do
  let type ← s.topicText owner p.type
  let roles ← p.roles.mapM (s.roleText owner)
  let scope ← s.scopeText owner p.scope
  .ok (Layout.association type roles scope (← s.reifierText owner p.reifier))

/-- A locator, compressed as a subject identifier would be, behind the mark of its kind. -/
def identifierText (s : Session) (kind : LocatorKind) (value : String) : String :=
  kind.mark ++ if isVariable value then value else (s.locatorIdentity .subjectIdentifier value).text

def statementText (s : Session) (owner : String) : Statement → Except Error DefinedStatement
  | .isa type => do .ok (.inBlock ("isa " ++ (← s.topicText owner type)))
  | .ako supertype => do .ok (.inBlock ("ako " ++ (← s.topicText owner supertype)))
  | .name p => do .ok (.inBlock (← s.nameText owner p))
  | .occurrence p => do .ok (.inBlock (← s.occurrenceText owner p))
  | .identifier kind value => .ok (.inBlock (s.identifierText kind value))
  | .association p => do .ok (.behindBlock (← s.associationText owner p))
  | part => .error (.invalidTemplate owner (.misplaced part.kindName))

def entryText (s : Session) (owner : String) : Entry → Except Error DefinedStatement
  | .statement statement => s.statementText owner statement
  | .invocation name kind body =>
    let t : Template := ⟨name, kind, body⟩
    .ok (.inBlock (t.invocation t.argumentTokens))
  | .group _ => .error (.invalidTemplate owner (.misplaced "topic"))

def definitionBody (statements : List DefinedStatement) : String :=
  let block := statements.filterMap DefinedStatement.inBlock?
  let buffer : Buffer :=
    if block.isEmpty then {} else (Buffer.beginBlock {} subjectToken).statements block
  ((statements.filterMap DefinedStatement.behindBlock?).foldl Buffer.line buffer).finish

def define (s : Session) (t : Template) : Except Error String := do
  let statements ← (Entry.ungroupAll t.entries).mapM (s.entryText t.name)
  .ok ("def " ++ t.invocation t.parameters ++ "\n" ++
    Text.indentLines indent (definitionBody statements) ++ "end\n")

end Session
end CompactTopicMap
