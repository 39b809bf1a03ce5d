import CompactTopicMap.Template.Basic

/-! The order of entries by their keys, and the order of templates by what they invoke. -/

namespace CompactTopicMap

/-- Self-delimiting keys: an end mark is less than any item. -/
def listKey {α : Type} (key : α → List Nat) : List α → List Nat
  | [] => [0]
  | item :: items => 1 :: key item ++ listKey key items

def optionKey {α : Type} (key : α → List Nat) : Option α → List Nat
  | none => [0]
  | some item => 1 :: key item

def textKey (text : String) : List Nat := text.toList.map (·.toNat + 1) ++ [0]

def TopicRef.key : TopicRef → List Nat
  | fixed id => [0, id.index]
  | var token => 1 :: textKey token

def ScopePattern.key (scope : ScopePattern) : List Nat := optionKey (listKey TopicRef.key) scope

def ReifierPattern.key (reifier : ReifierPattern) : List Nat := optionKey TopicRef.key reifier

def VariantPattern.key (p : VariantPattern) : List Nat :=
  textKey p.value ++ textKey p.datatype ++ p.scope.key ++ p.reifier.key

def NamePattern.key (p : NamePattern) : List Nat :=
  p.type.key ++ textKey p.value ++ p.scope.key ++ p.reifier.key ++
    listKey VariantPattern.key p.variants

def OccurrencePattern.key (p : OccurrencePattern) : List Nat :=
  p.type.key ++ textKey p.value ++ textKey p.datatype ++ p.scope.key ++ p.reifier.key

def RolePattern.key (p : RolePattern) : List Nat :=
  p.type.key ++ p.player.key ++ p.reifier.key

def AssociationPattern.key (p : AssociationPattern) : List Nat :=
  p.type.key ++ listKey RolePattern.key p.roles ++ p.scope.key ++ p.reifier.key

def LocatorKind.rank : LocatorKind → Nat
  | subjectIdentifier => 0
  | subjectLocator => 1
  | itemIdentifier => 2

def TemplateKind.rank : TemplateKind → Nat
  | topic => 0
  | association => 1

def Statement.key : Statement → List Nat
  | isa type => 0 :: type.key
  | ako supertype => 1 :: supertype.key
  | name p => 2 :: p.key
  | occurrence p => 3 :: p.key
  | variant p => 4 :: p.key
  | role p => 5 :: p.key
  | association p => 6 :: p.key
  | identifier kind value => 7 :: kind.rank :: textKey value
  | reifier topic => 8 :: topic.key
  | scope themes => 9 :: listKey TopicRef.key themes

namespace Entry

mutual

def key : Entry → List Nat
  | statement s => s.key
  | invocation name kind body => 10 :: textKey name ++ kind.rank :: keyAll body
  | group entries => 11 :: keyAll entries

def keyAll : List Entry → List Nat
  | [] => [0]
  | entry :: entries => 1 :: key entry ++ keyAll entries

end

end Entry

/-- The names of the templates that were visited, and the templates that were placed. -/
structure Placement where
  visited : List String := []
  placed : List Template := []

namespace Entry

mutual

/-- Places the templates that an entry invokes, each behind those that it invokes. -/
def place : Entry → Placement → Placement
  | statement _, p => p
  | group entries, p => placeAll entries p
  | invocation name kind body, p =>
    if p.visited.contains name then p
    else
      let p := placeAll body { p with visited := name :: p.visited }
      { p with placed := p.placed ++ [⟨name, kind, body⟩] }

def placeAll : List Entry → Placement → Placement
  | [], p => p
  | entry :: entries, p => placeAll entries (place entry p)

end

end Entry

/-- The given templates and all that they invoke, each name once. -/
def dependencyOrder (templates : List Template) : List Template :=
  (Entry.placeAll (templates.map Template.invoke) {}).placed

end CompactTopicMap
