import CompactTopicMap.Proofs.Mining.Applicable
import CompactTopicMap.Proofs.Naming.FreshNames

namespace CompactTopicMap

/-- Each item has one variable, and these differ from each other and from the one for the
subject. -/
structure OwnTokens {α : Type} (tokensOf : α → List String) (items : List α) (tokens : List String) :
    Prop where
  each : List.Forall₂ (fun item token => tokensOf item = [token]) items tokens
  distinct : tokens.Nodup
  fresh : subjectToken ∉ tokens

namespace OwnTokens

variable {α : Type} {tokensOf : α → List String} {items : List α} {tokens : List String}

theorem flatMap_eq (own : OwnTokens tokensOf items tokens) : items.flatMap tokensOf = tokens := by
  have each := own.each
  clear own
  induction each with
  | nil => rfl
  | cons here _ ih => rw [List.flatMap_cons, here, ih, List.singleton_append]

theorem parameterTokens_eq (own : OwnTokens tokensOf items tokens) :
    parameterTokens (items.flatMap tokensOf) = tokens := by
  have kept : tokens.filter (· != subjectToken) = tokens := by
    rw [List.filter_eq_self]
    intro token member
    simpa using fun same : token = subjectToken => own.fresh (same ▸ member)
  rw [own.flatMap_eq, parameterTokens, kept, firstSeen_eq_self own.distinct]

end OwnTokens

/-- The template has nothing besides the type but statements, or roles, with a variable each. -/
inductive Template.Opens (type : TopicId) (tokens : List String) : Template → Prop
  | topic {name : String} {statements : List Statement}
    (own : OwnTokens Statement.tokens statements tokens) :
    Opens type tokens ⟨name, .topic, .statement (.isa (.fixed type)) :: statements.map .statement⟩
  | association {name : String} {roles : List RolePattern}
    (own : OwnTokens RolePattern.tokens roles tokens) :
    Opens type tokens
      ⟨name, .association, [.statement (.association { type := .fixed type, roles })]⟩

theorem Template.Opens.argumentTokens_eq {type : TopicId} {tokens : List String} {t : Template}
    (opens : t.Opens type tokens) : t.argumentTokens = tokens := by
  cases opens with
  | topic own =>
    rw [← own.parameterTokens_eq, argumentTokens, Entry.tokensAll, Entry.tokensAll_eq_flatMap,
      List.flatMap_map]
    rfl
  | association own =>
    rw [← own.parameterTokens_eq]
    simp [argumentTokens, Entry.tokensAll, Entry.tokens, Statement.tokens,
      AssociationPattern.tokens, TopicRef.tokens, ScopePattern.tokens, ScopePattern.themes,
      ReifierPattern.tokens]

namespace Session

variable {s : Session}

theorem tokens_statement {token : String} (variable_ : isVariable token = true)
    (signature : Signature) : (signature.statement token).tokens = [token] := by
  have themes (scope : List TopicId) : (scopePattern scope).tokens = [] := by
    rw [ScopePattern.tokens, themes_scopePattern, List.flatMap_map]
    simp [TopicRef.tokens]
  cases signature with
  | name of =>
    simp [Signature.statement, minedName, Statement.tokens, NamePattern.tokens, TopicRef.tokens,
      valueTokens, variable_, themes, ReifierPattern.tokens]
  | occurrence of =>
    simp [Signature.statement, minedOccurrence, Statement.tokens, OccurrencePattern.tokens,
      TopicRef.tokens, valueTokens, variable_, themes, ReifierPattern.tokens]

theorem forall₂_zipWith_tokens {α β : Type} {make : α → String → β} {tokensOf : β → List String}
    {items : List α} {tokens : List String} (lengths : tokens.length = items.length)
    (each : ∀ token ∈ tokens, ∀ item, tokensOf (make item token) = [token]) :
    List.Forall₂ (fun made token => tokensOf made = [token]) (List.zipWith make items tokens)
      tokens := by
  induction tokens generalizing items with
  | nil => rw [List.zipWith_nil_right]; exact .nil
  | cons token tokens ih =>
    cases items with
    | nil => cases lengths
    | cons item items =>
      have here := each token List.mem_cons_self item
      have rest := ih (Nat.succ.inj lengths) fun other member =>
        each other (List.mem_cons_of_mem token member)
      exact .cons here rest

theorem mineTopic_opens {taken : List String} {type : TopicId} {t : Template}
    (mined : s.mineTopic taken type = some t) : t.kind = .topic ∧ ∃ tokens, t.Opens type tokens := by
  obtain ⟨_, base, _, _, _, rfl⟩ := mineTopic_eq_some.mp mined
  refine ⟨rfl, s.minedTokens (s.minedInstances type), ?_⟩
  rw [minedStatements_eq]
  exact .topic {
    each := forall₂_zipWith_tokens (length_minedTokens _) fun token member signature =>
      tokens_statement (isVariable_minedTokens member) signature
    distinct := freshNames_nodup _ _
    fresh := fun again => freshNames_not_mem again (List.mem_singleton_self _) }

theorem mineAssociation_opens {taken : List String} {type : TopicId} {t : Template}
    (mined : s.mineAssociation taken type = some t) :
    t.kind = .association ∧ ∃ tokens, t.Opens type tokens := by
  obtain ⟨_, base, _, _, rfl⟩ := mineAssociation_eq_some.mp mined
  obtain ⟨types, tokens, roles, lengths, distinct, fresh⟩ :=
    minedRoles_eq (s := s) (s.minedAssociations type)
  refine ⟨rfl, tokens, ?_⟩
  rw [roles]
  exact .association {
    each := forall₂_zipWith_tokens lengths fun token _ type => by
      simp [minedRole, RolePattern.tokens, TopicRef.tokens, ReifierPattern.tokens]
    distinct
    fresh }

end Session

structure MiningRequest where
  session : Session
  kind : TemplateKind
  type : TopicId

def MiningRequest.mine (request : MiningRequest) (taken : List String) : Option Template :=
  match request.kind with
  | .topic => request.session.mineTopic taken request.type
  | .association => request.session.mineAssociation taken request.type

/-- The templates that requests give one after the other; each name is taken from then on. -/
def mineRequests (taken : List String) : List MiningRequest → List Template
  | [] => []
  | request :: requests =>
    match request.mine taken with
    | some t => t :: mineRequests (t.name :: taken) requests
    | none => mineRequests taken requests

namespace MiningRequest

variable {request : MiningRequest} {taken taken' : List String} {t : Template}

theorem mine_opens (mined : request.mine taken = some t) :
    t.kind = request.kind ∧ ∃ tokens, t.Opens request.type tokens := by
  rcases request with ⟨s, kind, type⟩
  cases kind with
  | topic => exact Session.mineTopic_opens mined
  | association => exact Session.mineAssociation_opens mined

theorem mine_fresh (mined : request.mine taken = some t) : t.name ∉ taken := by
  rcases request with ⟨s, kind, type⟩
  cases kind with
  | topic =>
    obtain ⟨_, base, _, _, _, rfl⟩ := Session.mineTopic_eq_some.mp mined
    exact freshName_not_mem _ _
  | association =>
    obtain ⟨_, base, _, _, rfl⟩ := Session.mineAssociation_eq_some.mp mined
    exact freshName_not_mem _ _

theorem mine_entries (request : MiningRequest) (taken taken' : List String) :
    (request.mine taken).map Template.entries = (request.mine taken').map Template.entries := by
  rcases request with ⟨s, kind, type⟩
  cases kind with
  | topic =>
    simp only [mine, Session.mineTopic]
    split
    · rfl
    · cases s.localName? type with
      | none => rfl
      | some base =>
        simp only [Option.bind_eq_bind, Option.bind_some]
        split <;> rfl
  | association =>
    simp only [mine, Session.mineAssociation]
    split
    · rfl
    · cases s.localName? type with
      | none => rfl
      | some base =>
        simp only [Option.bind_eq_bind, Option.bind_some]
        split <;> rfl

theorem mine_congr (same : ∀ name, name ∈ taken ↔ name ∈ taken') :
    request.mine taken = request.mine taken' := by
  rcases request with ⟨s, kind, type⟩
  cases kind <;>
    simp only [mine, Session.mineTopic, Session.mineAssociation, freshName_congr same]

end MiningRequest

section Requests

variable {taken taken' : List String}

theorem mineRequests_cons_of_some {request : MiningRequest} {t : Template}
    (mined : request.mine taken = some t) (requests : List MiningRequest) :
    mineRequests taken (request :: requests) = t :: mineRequests (t.name :: taken) requests := by
  rw [mineRequests, mined]

theorem mineRequests_cons_of_none {request : MiningRequest} (mined : request.mine taken = none)
    (requests : List MiningRequest) :
    mineRequests taken (request :: requests) = mineRequests taken requests := by
  rw [mineRequests, mined]

theorem mineRequests_not_taken (requests : List MiningRequest) :
    ∀ t ∈ mineRequests taken requests, t.name ∉ taken := by
  induction requests generalizing taken with
  | nil => exact nofun
  | cons request requests ih =>
    cases mined : request.mine taken with
    | none => exact mineRequests_cons_of_none mined requests ▸ ih
    | some t =>
      rw [mineRequests_cons_of_some mined, List.forall_mem_cons]
      exact ⟨MiningRequest.mine_fresh mined, fun other member old =>
        ih other member (List.mem_cons_of_mem t.name old)⟩

theorem mineRequests_names_nodup (requests : List MiningRequest) :
    ((mineRequests taken requests).map Template.name).Nodup := by
  induction requests generalizing taken with
  | nil => exact List.nodup_nil
  | cons request requests ih =>
    cases mined : request.mine taken with
    | none => exact mineRequests_cons_of_none mined requests ▸ ih
    | some t =>
      rw [mineRequests_cons_of_some mined, List.map_cons, List.nodup_cons]
      refine ⟨fun again => ?_, ih⟩
      obtain ⟨other, member, same⟩ := List.mem_map.mp again
      exact mineRequests_not_taken requests other member (same ▸ List.mem_cons_self)

theorem mineRequests_opens (requests : List MiningRequest) :
    ∀ t ∈ mineRequests taken requests, ∃ request ∈ requests, t.kind = request.kind ∧
      ∃ tokens, t.Opens request.type tokens := by
  induction requests generalizing taken with
  | nil => exact nofun
  | cons request requests ih =>
    have later : ∀ {taken}, ∀ t ∈ mineRequests taken requests, ∃ other ∈ request :: requests,
        t.kind = other.kind ∧ ∃ tokens, t.Opens other.type tokens := by
      intro taken t member
      obtain ⟨other, inside, opens⟩ := ih t member
      exact ⟨other, List.mem_cons_of_mem request inside, opens⟩
    cases mined : request.mine taken with
    | none => exact mineRequests_cons_of_none mined requests ▸ later
    | some t =>
      rw [mineRequests_cons_of_some mined, List.forall_mem_cons]
      exact ⟨⟨request, List.mem_cons_self, MiningRequest.mine_opens mined⟩, later⟩

theorem mineRequests_entries (requests : List MiningRequest) :
    (mineRequests taken requests).map Template.entries =
      requests.filterMap fun request => (request.mine []).map Template.entries := by
  induction requests generalizing taken with
  | nil => rfl
  | cons request requests ih =>
    rw [List.filterMap_cons, ← request.mine_entries taken]
    cases mined : request.mine taken with
    | none => rw [mineRequests_cons_of_none mined, ih]; rfl
    | some t => rw [mineRequests_cons_of_some mined, List.map_cons, ih]; rfl

theorem mineRequests_congr (same : ∀ name, name ∈ taken ↔ name ∈ taken')
    (requests : List MiningRequest) : mineRequests taken requests = mineRequests taken' requests := by
  induction requests generalizing taken taken' with
  | nil => rfl
  | cons request requests ih =>
    rw [mineRequests, mineRequests, MiningRequest.mine_congr same]
    cases request.mine taken' with
    | none => exact ih same
    | some t => exact congrArg (t :: ·) (ih (by simp [same]))

theorem mineRequests_append (first second : List MiningRequest) :
    mineRequests taken (first ++ second) = mineRequests taken first ++
      mineRequests ((mineRequests taken first).map Template.name ++ taken) second := by
  induction first generalizing taken with
  | nil => rfl
  | cons request requests ih =>
    rw [List.cons_append]
    cases mined : request.mine taken with
    | none => rw [mineRequests_cons_of_none mined, mineRequests_cons_of_none mined, ih]
    | some t =>
      rw [mineRequests_cons_of_some mined, mineRequests_cons_of_some mined, ih, List.cons_append]
      refine congrArg (t :: _ ++ ·) (mineRequests_congr (fun name => ?_) second)
      simp [or_left_comm]

theorem mineEach_eq_mineRequests (mine : List String → TopicId → Option Template)
    (request : TopicId → MiningRequest)
    (same : ∀ taken type, mine taken type = (request type).mine taken) (types : List TopicId) :
    Session.mineEach mine taken types = mineRequests taken (types.map request) := by
  induction types generalizing taken with
  | nil => rfl
  | cons type types ih =>
    rw [Session.mineEach, List.map_cons, mineRequests, same]
    cases (request type).mine taken with
    | none => exact ih
    | some t => exact congrArg (t :: ·) ih

def Session.miningRequests (s : Session) : List MiningRequest :=
  let topics :=
    if s.settings.mineTopics then (s.typing.topicTypes s.source).map (⟨s, .topic, ·⟩) else []
  let associations :=
    if s.settings.mineAssociations then s.source.associationTypes.map (⟨s, .association, ·⟩) else []
  topics ++ associations

theorem Session.mineAll_eq_mineRequests (s : Session) (taken : List String) :
    s.mineAll taken = mineRequests taken s.miningRequests := by
  have topics (types : List TopicId) : mineEach s.mineTopic taken types =
      mineRequests taken (types.map (⟨s, .topic, ·⟩)) :=
    mineEach_eq_mineRequests s.mineTopic (⟨s, .topic, ·⟩) (fun _ _ => rfl) types
  have associations (taken : List String) (types : List TopicId) :
      mineEach s.mineAssociation taken types =
        mineRequests taken (types.map (⟨s, .association, ·⟩)) :=
    mineEach_eq_mineRequests s.mineAssociation (⟨s, .association, ·⟩) (fun _ _ => rfl) types
  rw [mineAll, miningRequests, mineRequests_append]
  cases s.settings.mineTopics <;> cases s.settings.mineAssociations <;>
    simp [topics, associations, mineRequests]

end Requests

/-- Whatever is mined one after the other, the search for a name ends, the names of the templates
differ from each other and from those that were taken, and a template takes as arguments the
variables of its own that its statements or roles have. Which templates there are does not depend on
names. What is mined for a document is such a sequence. -/
theorem mined_names_fresh (taken : List String) (requests : List MiningRequest) :
    (∀ used stem, SearchEnds used stem 0 (freshName used stem)) ∧
      ((mineRequests taken requests).map Template.name).Nodup ∧
      (∀ t ∈ mineRequests taken requests, t.name ∉ taken ∧
        ∃ request ∈ requests, t.kind = request.kind ∧
          ∃ tokens, t.Opens request.type tokens ∧ t.argumentTokens = tokens) ∧
      (mineRequests taken requests).map Template.entries =
        requests.filterMap (fun request => (request.mine []).map Template.entries) ∧
      ∀ s : Session, s.mineAll taken = mineRequests taken s.miningRequests := by
  refine ⟨freshName_ends, mineRequests_names_nodup requests, fun t member => ?_,
    mineRequests_entries requests, fun s => s.mineAll_eq_mineRequests taken⟩
  obtain ⟨request, inside, kind, tokens, opens⟩ := mineRequests_opens requests t member
  exact ⟨mineRequests_not_taken requests t member, request, inside, kind, tokens, opens,
    opens.argumentTokens_eq⟩

def harbourRequests : List MiningRequest :=
  [⟨Session.harbourSession, .topic, ⟨0⟩⟩, ⟨Session.harbourSession, .topic, ⟨0⟩⟩,
    ⟨Session.harbourSession, .association, ⟨6⟩⟩]

theorem harbour_names_fresh :
    (mineRequests ["ship-template"] harbourRequests).map Template.name =
        ["ship-template1", "ship-template2", "meeting-template"] ∧
      ∃ t ∈ mineRequests ["ship-template"] harbourRequests, t.kind = .association ∧
        t.name ∉ ["ship-template"] ∧ t.Opens ⟨6⟩ ["$ship", "$ship1"] := by
  have mined : (mineRequests ["ship-template"] harbourRequests).map
      (fun t => (t.name, t.kind, t.argumentTokens)) =
        [("ship-template1", .topic, ["$mast", "$mast1", "$crew"]),
          ("ship-template2", .topic, ["$mast", "$mast1", "$crew"]),
          ("meeting-template", .association, ["$ship", "$ship1"])] := by
    decide +kernel
  obtain ⟨_, _, each, _, _⟩ := mined_names_fresh ["ship-template"] harbourRequests
  constructor
  · have names := congrArg (List.map Prod.fst) mined
    rwa [List.map_map] at names
  · have last : ("meeting-template", .association, ["$ship", "$ship1"]) ∈
        (mineRequests ["ship-template"] harbourRequests).map
          (fun t => (t.name, t.kind, t.argumentTokens)) := by
      simp [mined]
    obtain ⟨t, member, same⟩ := List.mem_map.mp last
    obtain ⟨_, kind, arguments⟩ := by simpa using same
    obtain ⟨free, request, inside, asked, tokens, opens, listed⟩ := each t member
    refine ⟨t, member, kind, free, ?_⟩
    obtain rfl : request = ⟨Session.harbourSession, .association, ⟨6⟩⟩ := by
      simp only [harbourRequests, List.mem_cons, List.not_mem_nil, or_false] at inside
      rcases inside with rfl | rfl | rfl
      · cases kind.symm.trans asked
      · cases kind.symm.trans asked
      · rfl
    rw [← arguments, listed]
    exact opens

end CompactTopicMap
