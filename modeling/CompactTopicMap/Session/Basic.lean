import CompactTopicMap.Settings.Basic
import CompactTopicMap.Template.Basic
import CompactTopicMap.Typing
import CompactTopicMap.Written

/-! What stays the same while a document is written, and its progress. -/

namespace CompactTopicMap

structure Session where
  source : Source
  settings : Settings
  table : PrefixTable
  typing : Typing
  templates : List Template := []
  deriving DecidableEq, Repr

structure Progress where
  written : Written := .empty
  /-- The constructs left out because a topic that they refer to has no identity. -/
  skipped : Nat := 0
  deriving DecidableEq, Repr

namespace Progress

def mark (p : Progress) (c : Construct) : Progress := { p with written := p.written.insert c }

def markAll (p : Progress) (cs : List Construct) : Progress :=
  { p with written := p.written.insertAll cs }

def skip (p : Progress) : Progress := { p with skipped := p.skipped + 1 }

end Progress

namespace Session

def identity? (s : Session) (id : TopicId) : Option Identity :=
  s.settings.naming.identity? s.table (s.source.topic id)

def reference? (s : Session) (id : TopicId) : Option String := (s.identity? id).map Identity.display

/-- The identity of one locator, which is never shortened under the base address. -/
def locatorIdentity (s : Session) (kind : LocatorKind) (iri : String) : Identity :=
  .ofLocator s.table none kind iri

def isSystem (s : Session) (iri : String) : Bool := s.settings.naming.isSystem iri

def typesOf (s : Session) (id : TopicId) : List TopicId := s.typing.typesOf s.source id

def supertypesOf (s : Session) (id : TopicId) : List TopicId := s.typing.supertypesOf id

def isReserved (s : Session) (id : TopicId) : Bool := (s.source.topic id).isReserved

def isDefaultNameType (s : Session) (id : TopicId) : Bool := (s.source.topic id).isDefaultNameType

def encodeLiteral (s : Session) (site : Text.QuoteSite) (datatype value : String) : String :=
  CompactTopicMap.encodeLiteral s.table site datatype value

end Session
end CompactTopicMap
