import CompactTopicMap.Distinct
import CompactTopicMap.Graph.Source
import CompactTopicMap.Identifier
import CompactTopicMap.PrefixTable
import CompactTopicMap.Text.Cut

namespace CompactTopicMap

def isSpaceEnd (c : Char) : Bool := c == '#' || c == '/'

/-- The address up to its last `#` or `/`, unless that belongs to the scheme. -/
def namespace? (iri : String) : Option String :=
  let chars := iri.toList
  let space := Text.dropEndWhile (!isSpaceEnd ·) chars
  let body := (Text.after? [':', '/', '/'] chars).getD chars
  if body.any isSpaceEnd then some (.ofList space) else none

def overlaps (a b : String) : Bool :=
  (Text.after? a.toList b.toList).isSome || (Text.after? b.toList a.toList).isSome

structure Counted where
  space : String
  count : Nat
  deriving DecidableEq, Repr

namespace Counted

def ranksBefore (a b : Counted) : Bool :=
  b.count < a.count || (a.count = b.count && a.space ≤ b.space)

def ofSpaces (spaces : List String) : List Counted :=
  (firstSeen spaces).map fun space => ⟨space, spaces.count space⟩

end Counted

namespace Source

def namespaces (source : Source) : List String :=
  source.topicIds.flatMap fun id =>
    let topic := source.topic id
    (topic.subjectIdentifiers ++ topic.subjectLocators).filterMap namespace?

def rankedNamespaces (source : Source) : List Counted :=
  ((Counted.ofSpaces source.namespaces).filter (1 < ·.count)).mergeSort Counted.ranksBefore

def detectNamespaces (source : Source) : List String :=
  source.rankedNamespaces.foldl
    (fun accepted c =>
      if accepted.any (overlaps · c.space) then accepted else accepted ++ [c.space]) []

end Source

abbrev Labelling := String → String

def splitAuthority (iri : List Char) : List Char × List Char :=
  let rest := (Text.after? [':', '/', '/'] iri).getD ((Text.after? [':'] iri).getD iri)
  (rest.takeWhile (· != '/'), rest.dropWhile (· != '/'))

def hostToken (host : List Char) : List Char :=
  let host := host.takeWhile (· != ':')
  let host := (['w', 'w', 'w', '.'].isPrefixOf? host).getD host
  host.takeWhile (· != '.')

/-- Labels a namespace by its last path segment, or by its host if it has none. -/
def labelByPath : Labelling := fun space =>
  let trimmed := Text.dropEndWhile (· == '/') (space.toList.takeWhile (· != '#'))
  let (host, path) := splitAuthority trimmed
  let segments := (Text.splitWhere (· == '/') path).filter (!·.isEmpty)
  .ofList (sanitize ['n', 's'] (segments.getLast?.getD (hostToken host)))

namespace PrefixTable

def detect (table : PrefixTable) (labelling : Labelling) (source : Source) :
    PrefixTable × List Binding :=
  source.detectNamespaces.foldl
    (fun (table, bound) space =>
      match table.labelOf? space with
      | some _ => (table, bound)
      | none =>
        let (table, label) := table.bindFresh (labelling space) space
        (table, bound ++ [⟨label, space⟩]))
    (table, [])

end PrefixTable
end CompactTopicMap
