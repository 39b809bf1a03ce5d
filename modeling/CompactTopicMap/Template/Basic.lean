import CompactTopicMap.Distinct
import CompactTopicMap.Literal

/-! Templates are named lists of entries in which variables stand for topics and values. -/

namespace CompactTopicMap

/-- A topic of the graph, or a variable with its dollar sign. -/
inductive TopicRef where
  | fixed (id : TopicId)
  | var (token : String)
  deriving DecidableEq, Repr

namespace TopicRef

def named (name : String) : TopicRef :=
  .var (if name.toList.head? = some '$' then name else "$" ++ name)

def tokens : TopicRef → List String
  | fixed _ => []
  | var token => [token]

end TopicRef

abbrev ScopePattern := Option (List TopicRef)

abbrev ReifierPattern := Option TopicRef

structure VariantPattern where
  value : String
  datatype : String
  scope : ScopePattern := none
  reifier : ReifierPattern := none
  deriving DecidableEq, Repr

structure NamePattern where
  type : TopicRef
  value : String
  scope : ScopePattern := none
  reifier : ReifierPattern := none
  variants : List VariantPattern := []
  deriving DecidableEq, Repr

structure OccurrencePattern where
  type : TopicRef
  value : String
  datatype : String
  scope : ScopePattern := none
  reifier : ReifierPattern := none
  deriving DecidableEq, Repr

structure RolePattern where
  type : TopicRef
  player : TopicRef
  reifier : ReifierPattern := none
  deriving DecidableEq, Repr

structure AssociationPattern where
  type : TopicRef
  roles : List RolePattern
  scope : ScopePattern := none
  reifier : ReifierPattern := none
  deriving DecidableEq, Repr

/-- A statement of a template. Variants, roles, reifiers and scopes belong inside of other
statements and match nothing by themselves. -/
inductive Statement where
  | isa (type : TopicRef)
  | ako (supertype : TopicRef)
  | name (pattern : NamePattern)
  | occurrence (pattern : OccurrencePattern)
  | variant (pattern : VariantPattern)
  | role (pattern : RolePattern)
  | association (pattern : AssociationPattern)
  | identifier (kind : LocatorKind) (value : String)
  | reifier (topic : TopicRef)
  | scope (themes : List TopicRef)
  deriving DecidableEq, Repr

/-- A topic template is invoked in the block of its subject, an association template in place of an
association. -/
inductive TemplateKind where
  | topic
  | association
  deriving DecidableEq, Repr

inductive Entry where
  | statement (s : Statement)
  | invocation (name : String) (kind : TemplateKind) (body : List Entry)
  | group (entries : List Entry)
  deriving Repr

structure Template where
  name : String
  kind : TemplateKind
  entries : List Entry
  deriving Repr

/-- The variable that stands for the subject of a topic template. -/
def subjectToken : String := "$topic"

def valueTokens (value : String) : List String := if isVariable value then [value] else []

def ScopePattern.themes (scope : ScopePattern) : List TopicRef := scope.getD []

def ScopePattern.tokens (scope : ScopePattern) : List String :=
  scope.themes.flatMap TopicRef.tokens

def ReifierPattern.tokens (reifier : ReifierPattern) : List String :=
  reifier.elim [] TopicRef.tokens

def VariantPattern.tokens (p : VariantPattern) : List String :=
  valueTokens p.value ++ p.scope.tokens ++ p.reifier.tokens

def NamePattern.tokens (p : NamePattern) : List String :=
  p.type.tokens ++ valueTokens p.value ++ p.scope.tokens ++ p.reifier.tokens ++
    p.variants.flatMap VariantPattern.tokens

def OccurrencePattern.tokens (p : OccurrencePattern) : List String :=
  p.type.tokens ++ valueTokens p.value ++ p.scope.tokens ++ p.reifier.tokens

def RolePattern.tokens (p : RolePattern) : List String :=
  p.type.tokens ++ p.player.tokens ++ p.reifier.tokens

def AssociationPattern.tokens (p : AssociationPattern) : List String :=
  p.type.tokens ++ p.roles.flatMap RolePattern.tokens ++ p.scope.tokens ++ p.reifier.tokens

namespace Statement

def kindName : Statement → String
  | isa _ => "isa"
  | ako _ => "ako"
  | name _ => "name"
  | occurrence _ => "occurrence"
  | variant _ => "variant"
  | role _ => "role"
  | association _ => "association"
  | identifier _ _ => "identifier"
  | reifier _ => "reifier"
  | scope _ => "scope"

def tokens : Statement → List String
  | isa type => type.tokens
  | ako supertype => supertype.tokens
  | name p => p.tokens
  | occurrence p => p.tokens
  | variant p => p.tokens
  | role p => p.tokens
  | association p => p.tokens
  | identifier _ value => valueTokens value
  | reifier topic => topic.tokens
  | scope themes => themes.flatMap TopicRef.tokens

def isPart : Statement → Bool
  | variant _ | role _ | reifier _ | scope _ => true
  | _ => false

end Statement

def parameterTokens (tokens : List String) : List String :=
  firstSeen (tokens.filter (· != subjectToken))

namespace Entry

def kindName : Entry → String
  | statement s => s.kindName
  | invocation _ _ _ => "invocation"
  | group _ => "topic"

mutual

def decEq : (a b : Entry) → Decidable (a = b)
  | statement s, statement t =>
    if same : s = t then isTrue (same ▸ rfl) else isFalse fun h => same (Entry.statement.inj h)
  | invocation n k es, invocation m l fs =>
    if name : n = m then
      if kind : k = l then
        match decEqAll es fs with
        | isTrue body => isTrue (by rw [name, kind, body])
        | isFalse body => isFalse fun h => body (Entry.invocation.inj h).2.2
      else isFalse fun h => kind (Entry.invocation.inj h).2.1
    else isFalse fun h => name (Entry.invocation.inj h).1
  | group es, group fs =>
    match decEqAll es fs with
    | isTrue body => isTrue (by rw [body])
    | isFalse body => isFalse fun h => body (Entry.group.inj h)
  | statement _, invocation _ _ _ => isFalse (by simp)
  | statement _, group _ => isFalse (by simp)
  | invocation _ _ _, statement _ => isFalse (by simp)
  | invocation _ _ _, group _ => isFalse (by simp)
  | group _, statement _ => isFalse (by simp)
  | group _, invocation _ _ _ => isFalse (by simp)

def decEqAll : (as bs : List Entry) → Decidable (as = bs)
  | [], [] => isTrue rfl
  | [], _ :: _ => isFalse (by simp)
  | _ :: _, [] => isFalse (by simp)
  | a :: as, b :: bs =>
    match decEq a b with
    | isTrue head =>
      match decEqAll as bs with
      | isTrue tail => isTrue (by rw [head, tail])
      | isFalse tail => isFalse fun h => tail (List.cons.inj h).2
    | isFalse head => isFalse fun h => head (List.cons.inj h).1

end

instance : DecidableEq Entry := decEq

mutual

def flatten : Entry → List Statement
  | statement s => [s]
  | invocation _ _ body => flattenAll body
  | group entries => flattenAll entries

def flattenAll : List Entry → List Statement
  | [] => []
  | entry :: entries => flatten entry ++ flattenAll entries

end

mutual

/-- The variables of an entry; an invocation has those that its template takes as arguments. -/
def tokens : Entry → List String
  | statement s => s.tokens
  | invocation _ _ body => parameterTokens (tokensAll body)
  | group entries => tokensAll entries

def tokensAll : List Entry → List String
  | [] => []
  | entry :: entries => tokens entry ++ tokensAll entries

end

mutual

def invoked : Entry → List Template
  | statement _ => []
  | invocation name kind body => [⟨name, kind, body⟩]
  | group entries => invokedAll entries

def invokedAll : List Entry → List Template
  | [] => []
  | entry :: entries => invoked entry ++ invokedAll entries

end

mutual

def ungroup : Entry → List Entry
  | group entries => ungroupAll entries
  | entry => [entry]

def ungroupAll : List Entry → List Entry
  | [] => []
  | entry :: entries => ungroup entry ++ ungroupAll entries

end

end Entry

instance : DecidableEq Template := fun a b =>
  decidable_of_iff (a.name = b.name ∧ a.kind = b.kind ∧ a.entries = b.entries) (by
    cases a; cases b; simp)

namespace Template

def invoke (t : Template) : Entry := .invocation t.name t.kind t.entries

def flattened (t : Template) : List Statement := Entry.flattenAll t.entries

def argumentTokens (t : Template) : List String :=
  parameterTokens (Entry.tokensAll t.entries)

def parameters (t : Template) : List String :=
  if t.kind = .topic then subjectToken :: t.argumentTokens else t.argumentTokens

def nested (t : Template) : List Template := Entry.invokedAll t.entries

end Template
end CompactTopicMap
