import CompactTopicMap.Fresh
import CompactTopicMap.Session.Basic
import CompactTopicMap.Text.Cut

/-! Mining templates from what a sufficient share of the instances of a type has. -/

namespace CompactTopicMap

structure NameSignature where
  type : TopicId
  scope : List TopicId
  deriving DecidableEq, Repr

structure OccurrenceSignature where
  type : TopicId
  datatype : String
  scope : List TopicId
  deriving DecidableEq, Repr

/-- Each item with the number of equal items before it. -/
def ordinals {α : Type} [DecidableEq α] (items : List α) : List (α × Nat) :=
  (items.foldl (fun (seen, out) item => (item :: seen, out ++ [(item, seen.count item)]))
    (([], []) : List α × List (α × Nat))).2

def reachesShare (threshold : Float) (total count : Nat) : Bool :=
  0 < total && threshold ≤ Float.ofNat count / Float.ofNat total

/-- The items with an ordinal that a sufficient share of the lists has, as first seen. -/
def relevant {α : Type} [DecidableEq α] (threshold : Float) (lists : List (List α)) : List α :=
  let keys := lists.flatMap ordinals
  ((firstSeen keys).filter fun key =>
    reachesShare threshold lists.length (keys.count key)).map Prod.fst

/-- Names that each item of a list is given: its stem, numbered where the name is taken. -/
def freshNames (taken : List String) : List String → List String
  | [] => []
  | stem :: stems =>
    let name := freshName taken stem
    name :: freshNames (name :: taken) stems

theorem length_freshNames (taken stems : List String) :
    (freshNames taken stems).length = stems.length := by
  induction stems generalizing taken with
  | nil => rfl
  | cons stem stems ih => simp [freshNames, ih]

theorem freshNames_not_mem {taken stems : List String} {name : String}
    (member : name ∈ freshNames taken stems) : name ∉ taken := by
  induction stems generalizing taken with
  | nil => cases member
  | cons stem stems ih =>
    rcases List.mem_cons.mp member with rfl | later
    · exact freshName_not_mem taken stem
    · exact fun old => ih later (List.mem_cons_of_mem _ old)

theorem freshNames_nodup (taken stems : List String) : (freshNames taken stems).Nodup := by
  induction stems generalizing taken with
  | nil => exact List.nodup_nil
  | cons stem stems ih =>
    exact List.nodup_cons.mpr ⟨fun later => freshNames_not_mem later (by simp), ih _⟩

namespace Session

def nameSignatures (s : Session) (id : TopicId) : List NameSignature :=
  let names := (s.source.topic id).names.map s.source.name
  (names.filter fun name => name.reifier.isNone && name.variants.isEmpty).map fun name =>
    ⟨name.type, name.scope⟩

def occurrenceSignatures (s : Session) (id : TopicId) : List OccurrenceSignature :=
  let occurrences := (s.source.topic id).occurrences.map s.source.occurrence
  (occurrences.filter (·.reifier.isNone)).map fun o => ⟨o.type, o.datatype, o.scope⟩

def roleTypes (s : Session) (id : AssociationId) : List TopicId :=
  let roles := (s.source.association id).roles.map s.source.role
  (roles.filter (·.reifier.isNone)).map Role.type

/-- The last part of the address that a topic is referred to by, as an identifier. -/
def localName? (s : Session) (id : TopicId) : Option String :=
  (s.identity? id).map fun identity =>
    let iri := Text.dropEndWhile isSpaceEnd identity.iri.toList
    let parts := Text.splitWhere (fun c => isSpaceEnd c || c == ':') iri
    .ofList (sanitize ['t'] (parts.getLast?.getD iri))
where
  isSpaceEnd (c : Char) : Bool := c == '/' || c == '#'

def areIdentifiable (s : Session) (ids : List TopicId) : Bool :=
  ids.all fun id => (s.identity? id).isSome

def scopePattern (scope : List TopicId) : ScopePattern :=
  if scope.isEmpty then none else some (scope.map TopicRef.fixed)

def nameStem (s : Session) (signature : NameSignature) : String :=
  let name :=
    if s.isDefaultNameType signature.type then "name"
    else (s.localName? signature.type).getD "name"
  "$" ++ name

def occurrenceStem (s : Session) (signature : OccurrenceSignature) : String :=
  "$" ++ (s.localName? signature.type).getD "value"

def minedName (signature : NameSignature) (token : String) : Statement :=
  .name { type := .fixed signature.type, value := token, scope := scopePattern signature.scope }

def minedOccurrence (signature : OccurrenceSignature) (token : String) : Statement :=
  .occurrence {
    type := .fixed signature.type
    value := token
    datatype := signature.datatype
    scope := scopePattern signature.scope }

def minedStatements (s : Session) (type : TopicId) (instances : List TopicId) : List Statement :=
  let threshold := s.settings.relevance
  let names := (relevant threshold (instances.map s.nameSignatures)).filter fun signature =>
    s.areIdentifiable (signature.type :: signature.scope)
  let occurrences := (relevant threshold (instances.map s.occurrenceSignatures)).filter
    fun signature => s.areIdentifiable (signature.type :: signature.scope)
  let tokens :=
    freshNames [subjectToken] (names.map s.nameStem ++ occurrences.map s.occurrenceStem)
  .isa (.fixed type) :: List.zipWith minedName names tokens ++
    List.zipWith minedOccurrence occurrences (tokens.drop names.length)

def minedInstances (s : Session) (type : TopicId) : List TopicId :=
  (s.typing.instancesOf s.source type).filter (!s.isReserved ·)

/-- The template of a topic type, given the names that are taken. It has at least two statements
besides the type. -/
def mineTopic (s : Session) (taken : List String) (type : TopicId) : Option Template :=
  if s.isReserved type then none
  else do
    let base ← s.localName? type
    let instances := s.minedInstances type
    let statements := s.minedStatements type instances
    if instances.isEmpty || statements.length ≤ 2 then none
    else some {
      name := freshName taken (base ++ "-template")
      kind := .topic
      entries := statements.map .statement }

def minedAssociations (s : Session) (type : TopicId) : List AssociationId :=
  (s.source.associationsOfType type).filter (!s.typing.isFolded ·)

def minedRoles (s : Session) (associations : List AssociationId) : List RolePattern :=
  let types := relevant s.settings.relevance (associations.map s.roleTypes)
  let named := types.filterMap fun type => (s.localName? type).map fun name => (type, "$" ++ name)
  List.zipWith (fun (type, _) token => { type := .fixed type, player := .var token }) named
    (freshNames [subjectToken] (named.map Prod.snd))

def mineAssociation (s : Session) (taken : List String) (type : TopicId) : Option Template :=
  if s.isReserved type then none
  else do
    let base ← s.localName? type
    let associations := s.minedAssociations type
    if associations.isEmpty then none
    else some {
      name := freshName taken (base ++ "-template")
      kind := .association
      entries := [.statement (.association {
        type := .fixed type, roles := s.minedRoles associations })] }

def mineEach (mine : List String → TopicId → Option Template) (taken : List String) :
    List TopicId → List Template
  | [] => []
  | type :: types =>
    match mine taken type with
    | some t => t :: mineEach mine (t.name :: taken) types
    | none => mineEach mine taken types

def mineAll (s : Session) (taken : List String) : List Template :=
  let topics :=
    if s.settings.mineTopics then mineEach s.mineTopic taken (s.typing.topicTypes s.source) else []
  let associations :=
    if s.settings.mineAssociations then
      mineEach s.mineAssociation (topics.map Template.name ++ taken) s.source.associationTypes
    else []
  topics ++ associations

end Session
end CompactTopicMap
