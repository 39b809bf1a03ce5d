import CompactTopicMap.Graph.Basic
import CompactTopicMap.Identifier
import CompactTopicMap.PrefixTable
import CompactTopicMap.Text.Blank
import CompactTopicMap.Text.Percent

/-! How a topic is referred to by one of its locators. -/

namespace CompactTopicMap

inductive IdentityForm where
  | qualifiedName
  | absolute
  | localName
  deriving DecidableEq, Repr

structure Identity where
  kind : LocatorKind
  iri : String
  text : String
  form : IdentityForm
  deriving DecidableEq, Repr

def LocatorKind.mark : LocatorKind → String
  | subjectIdentifier => ""
  | subjectLocator => "= "
  | itemIdentifier => "^ "

def bracketEscapes : List Char := ['<', '>', '"', '{', '}', '|', '\\', '^', '`']

/-- Blanks and delimiters cannot stand between angle brackets. -/
def escapedInBrackets (c : Char) : Bool :=
  Text.isBlank c || bracketEscapes.contains c

def absoluteReference (iri : String) : String :=
  .ofList ('<' :: Text.percentWhere escapedInBrackets iri.toList ++ ['>'])

def localEscapes : List Char :=
  ['"', '\'', '(', ')', '[', ']', '{', '}', '<', '>', '&', '#', '@', '~', '^', '=', ';', '|', '\\',
    '`']

/-- Besides delimiters, all that is blank, a control character or not ASCII. -/
def escapedInLocalPart (c : Char) : Bool :=
  c.toNat ≥ 127 || c.toNat < 32 || Text.isBlank c || localEscapes.contains c

def escapeLocalPart (text : String) : String :=
  .ofList (Text.percentWhere escapedInLocalPart text.toList)

namespace PrefixTable

/-- Writes an address as a qualified name if the longest namespace that starts it leaves a local
part, and in angle brackets otherwise. -/
def compress (table : PrefixTable) (iri : String) : String × IdentityForm :=
  match table.longest? iri with
  | none => (absoluteReference iri, .absolute)
  | some binding =>
    let rest := String.ofList (iri.toList.drop binding.space.length)
    let encoded := escapeLocalPart rest
    if isLocalPart encoded.toList then (binding.label ++ ":" ++ encoded, .qualifiedName)
    else (absoluteReference iri, .absolute)

end PrefixTable

def localIdentifier? (base iri : String) : Option String :=
  match base.toList.isPrefixOf? iri.toList with
  | some ('#' :: fragment) =>
    let fragment := String.ofList fragment
    if isIdentifier fragment then some fragment else none
  | _ => none

namespace Identity

/-- The identity that one locator gives. Only item identifiers are shortened under a base address.
-/
def ofLocator (table : PrefixTable) (base : Option String) (kind : LocatorKind) (iri : String) :
    Identity :=
  let short := if kind = .itemIdentifier then base.bind (localIdentifier? · iri) else none
  match short with
  | some text => { kind, iri, text, form := .localName }
  | none =>
    let (text, form) := table.compress iri
    { kind, iri, text, form }

/-- The text of the identity, behind the mark of its kind unless it is a local name. -/
def display (identity : Identity) : String :=
  if identity.form = .localName then identity.text else identity.kind.mark ++ identity.text

end Identity

/-- How identities are chosen and shortened: item identifiers that start with the engine's own
address are used last, and those under the base address are written without it. -/
structure Naming where
  engine : Option String := none
  base : Option String := none
  deriving DecidableEq, Repr

namespace Naming

def isSystem (naming : Naming) (iri : String) : Bool :=
  naming.engine.any fun engine => engine != "" && Iri.startsWith iri engine

/-- The locator to refer by: a subject identifier that is not reserved, a subject locator, an item
identifier not of the engine, and at last any subject or item identifier. -/
def select? (naming : Naming) (topic : Topic) : Option (LocatorKind × String) :=
  let indicator kind (iri : String) := (kind, iri)
  ((topic.subjectIdentifiers.find? (!Iri.isReserved ·)).map (indicator .subjectIdentifier)).or <|
    (topic.subjectLocators.head?.map (indicator .subjectLocator)).or <|
    ((topic.itemIdentifiers.find? (!naming.isSystem ·)).map (indicator .itemIdentifier)).or <|
    (topic.subjectIdentifiers.head?.map (indicator .subjectIdentifier)).or <|
    topic.itemIdentifiers.head?.map (indicator .itemIdentifier)

def identity? (naming : Naming) (table : PrefixTable) (topic : Topic) : Option Identity :=
  (naming.select? topic).map fun (kind, iri) => .ofLocator table naming.base kind iri

end Naming
end CompactTopicMap
