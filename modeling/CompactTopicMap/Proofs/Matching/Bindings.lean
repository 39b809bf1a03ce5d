import CompactTopicMap.Session.Match
import Mathlib.Data.List.Forall2

/-! What patterns denote under a match. -/

namespace CompactTopicMap

theorem exists_of_mem_forall₂ {α β : Type} {R : α → β → Prop} {as : List α} {bs : List β}
    (related : List.Forall₂ R as bs) {b : β} (member : b ∈ bs) : ∃ a ∈ as, R a b := by
  induction related with
  | nil => cases member
  | cons head _ ih =>
    rcases List.mem_cons.mp member with rfl | later
    · exact ⟨_, List.mem_cons_self, head⟩
    · obtain ⟨a, inside, related⟩ := ih later
      exact ⟨a, List.mem_cons_of_mem _ inside, related⟩

namespace Match

/-- The second match keeps the bindings of the first. A topic that it binds anew has a locator. -/
structure Grows (source : Source) (m m' : Match) : Prop where
  keeps : ∀ {token bound}, m.find? token = some bound → m'.find? token = some bound
  named : ∀ {token id}, m'.find? token = some (.topic id) →
    m.find? token = some (.topic id) ∨ (source.topic id).isAnonymous = false

theorem Grows.refl (source : Source) (m : Match) : m.Grows source m :=
  ⟨id, .inl⟩

theorem Grows.trans {source : Source} {m m' m'' : Match} (first : m.Grows source m')
    (second : m'.Grows source m'') : m.Grows source m'' := by
  refine ⟨fun found => second.keeps (first.keeps found), fun found => ?_⟩
  rcases second.named found with earlier | named
  · exact first.named earlier
  · exact .inr named

theorem grows_claim (source : Source) (m : Match) (c : Construct) :
    m.Grows source (m.claim c) :=
  ⟨id, .inl⟩

theorem find?_bind (m : Match) (token other : String) (bound : Bound) :
    (m.bind token bound).find? other = if other = token then some bound else m.find? other := by
  by_cases same : other = token
  · simp [find?, bind, same]
  · have differ : (other == token) = false := by simpa using same
    simp [find?, bind, List.lookup_cons, differ, same]

theorem find?_ofSubject (id : TopicId) (token : String) :
    (ofSubject id).find? token = if token = subjectToken then some (.topic id) else none :=
  find?_bind {} subjectToken token (.topic id)

theorem grows_bind {source : Source} {m : Match} {token : String} {bound : Bound}
    (free : m.find? token = none)
    (named : ∀ {id}, bound = .topic id → (source.topic id).isAnonymous = false) :
    m.Grows source (m.bind token bound) := by
  constructor
  · intro other value found
    have differ : other ≠ token := by
      rintro rfl
      rw [free] at found
      cases found
    rw [find?_bind, if_neg differ]
    exact found
  · intro other id found
    rw [find?_bind] at found
    split at found
    · exact .inr (named (Option.some.inj found))
    · exact .inl found

/-- What the first match says of a variable, the second says too; a literal may have another
datatype there. -/
structure KeepsAt (m m' : Match) (token : String) : Prop where
  topic : ∀ {id}, m.find? token = some (.topic id) → m'.find? token = some (.topic id)
  literal : ∀ {value datatype}, m.find? token = some (.literal value datatype) →
    ∃ datatype, m'.find? token = some (.literal value datatype)

theorem KeepsAt.of_eq {m m' : Match} {token : String} (same : m'.find? token = m.find? token) :
    m.KeepsAt m' token :=
  ⟨fun found => same.trans found, fun found => ⟨_, same.trans found⟩⟩

theorem Grows.keepsAt {source : Source} {m m' : Match} (grows : m.Grows source m')
    (token : String) : m.KeepsAt m' token :=
  ⟨grows.keeps, fun found => ⟨_, grows.keeps found⟩⟩

def IsBound (m : Match) (token : String) : Prop := (m.find? token).isSome

theorem IsBound.of_find? {m : Match} {token : String} {bound : Bound}
    (found : m.find? token = some bound) : m.IsBound token := by
  rw [IsBound, found]
  rfl

theorem IsBound.grow {source : Source} {m m' : Match} {token : String} (bound : m.IsBound token)
    (grows : m.Grows source m') : m'.IsBound token := by
  obtain ⟨value, found⟩ := Option.isSome_iff_exists.mp bound
  exact .of_find? (grows.keeps found)

end Match

variable {source : Source} {m m' : Match}

def TopicRef.Denotes (m : Match) : TopicRef → TopicId → Prop
  | .fixed id, actual => id = actual
  | .var token, actual => m.find? token = some (.topic actual)

def ValueDenotes (m : Match) (pattern value : String) : Prop :=
  if isVariable pattern then ∃ datatype, m.find? pattern = some (.literal value datatype)
  else pattern = value

def ScopePattern.Denotes (m : Match) (pattern : ScopePattern) (scope : List TopicId) : Prop :=
  List.Forall₂ (TopicRef.Denotes m) pattern.themes scope

def ReifierPattern.Denotes (m : Match) (pattern : ReifierPattern) (reifier : Option TopicId) :
    Prop :=
  Option.Rel (TopicRef.Denotes m) pattern reifier

structure VariantPattern.Denotes (m : Match) (pattern : VariantPattern) (v : Variant) : Prop where
  value : ValueDenotes m pattern.value v.value
  datatype : pattern.datatype = v.datatype
  scope : pattern.scope.Denotes m v.scope
  reifier : pattern.reifier.Denotes m v.reifier

structure NamePattern.Denotes (source : Source) (m : Match) (pattern : NamePattern) (n : Name) :
    Prop where
  type : pattern.type.Denotes m n.type
  value : ValueDenotes m pattern.value n.value
  scope : pattern.scope.Denotes m n.scope
  reifier : pattern.reifier.Denotes m n.reifier
  variants : List.Forall₂ (fun p id => p.Denotes m (source.variant id)) pattern.variants n.variants

structure OccurrencePattern.Denotes (m : Match) (pattern : OccurrencePattern) (o : Occurrence) :
    Prop where
  type : pattern.type.Denotes m o.type
  value : ValueDenotes m pattern.value o.value
  datatype : pattern.datatype = o.datatype
  scope : pattern.scope.Denotes m o.scope
  reifier : pattern.reifier.Denotes m o.reifier

structure RolePattern.Denotes (m : Match) (pattern : RolePattern) (r : Role) : Prop where
  type : pattern.type.Denotes m r.type
  player : pattern.player.Denotes m r.player
  reifier : pattern.reifier.Denotes m r.reifier

structure AssociationPattern.Denotes (source : Source) (m : Match) (pattern : AssociationPattern)
    (a : Association) : Prop where
  type : pattern.type.Denotes m a.type
  scope : pattern.scope.Denotes m a.scope
  reifier : pattern.reifier.Denotes m a.reifier
  roles : ∃ chosen : List RoleId, chosen.Perm a.roles ∧
    List.Forall₂ (fun p id => p.Denotes m (source.role id)) pattern.roles chosen

section Congruence

theorem TopicRef.Denotes.congr {pattern : TopicRef} {actual : TopicId}
    (denotes : pattern.Denotes m actual) (keeps : ∀ token ∈ pattern.tokens, m.KeepsAt m' token) :
    pattern.Denotes m' actual := by
  cases pattern with
  | fixed id => exact denotes
  | var token => exact (keeps token (List.mem_singleton_self token)).topic denotes

theorem ValueDenotes.congr {pattern value : String} (denotes : ValueDenotes m pattern value)
    (keeps : ∀ token ∈ valueTokens pattern, m.KeepsAt m' token) : ValueDenotes m' pattern value := by
  rw [ValueDenotes] at *
  by_cases free : isVariable pattern
  · rw [if_pos free] at *
    obtain ⟨_, found⟩ := denotes
    exact (keeps pattern (by simp [valueTokens, free])).literal found
  · rwa [if_neg free] at *

theorem denote_congr {α β : Type} {Before After : α → β → Prop} {tokens : α → List String}
    {patterns : List α} {items : List β} (denote : List.Forall₂ Before patterns items)
    (keeps : ∀ token ∈ patterns.flatMap tokens, m.KeepsAt m' token)
    (congr : ∀ {pattern item}, Before pattern item →
      (∀ token ∈ tokens pattern, m.KeepsAt m' token) → After pattern item) :
    List.Forall₂ After patterns items := by
  induction denote with
  | nil => exact .nil
  | cons head _ ih =>
    rw [List.flatMap_cons, List.forall_mem_append] at keeps
    exact .cons (congr head keeps.1) (ih keeps.2)

theorem ScopePattern.Denotes.congr {pattern : ScopePattern} {scope : List TopicId}
    (denotes : pattern.Denotes m scope) (keeps : ∀ token ∈ pattern.tokens, m.KeepsAt m' token) :
    pattern.Denotes m' scope :=
  denote_congr denotes keeps TopicRef.Denotes.congr

theorem ReifierPattern.Denotes.congr {pattern : ReifierPattern} {reifier : Option TopicId}
    (denotes : pattern.Denotes m reifier) (keeps : ∀ token ∈ pattern.tokens, m.KeepsAt m' token) :
    pattern.Denotes m' reifier := by
  cases denotes with
  | some topic => exact .some (topic.congr keeps)
  | none => exact .none

theorem VariantPattern.Denotes.congr {pattern : VariantPattern} {v : Variant}
    (denotes : pattern.Denotes m v) (keeps : ∀ token ∈ pattern.tokens, m.KeepsAt m' token) :
    pattern.Denotes m' v := by
  simp only [VariantPattern.tokens, List.forall_mem_append] at keeps
  exact {
    value := denotes.value.congr keeps.1.1
    datatype := denotes.datatype
    scope := denotes.scope.congr keeps.1.2
    reifier := denotes.reifier.congr keeps.2 }

theorem NamePattern.Denotes.congr {pattern : NamePattern} {n : Name}
    (denotes : pattern.Denotes source m n) (keeps : ∀ token ∈ pattern.tokens, m.KeepsAt m' token) :
    pattern.Denotes source m' n := by
  simp only [NamePattern.tokens, List.forall_mem_append] at keeps
  obtain ⟨⟨⟨⟨type, value⟩, scope⟩, reifier⟩, variants⟩ := keeps
  exact {
    type := denotes.type.congr type
    value := denotes.value.congr value
    scope := denotes.scope.congr scope
    reifier := denotes.reifier.congr reifier
    variants := denote_congr denotes.variants variants VariantPattern.Denotes.congr }

theorem OccurrencePattern.Denotes.congr {pattern : OccurrencePattern} {o : Occurrence}
    (denotes : pattern.Denotes m o) (keeps : ∀ token ∈ pattern.tokens, m.KeepsAt m' token) :
    pattern.Denotes m' o := by
  simp only [OccurrencePattern.tokens, List.forall_mem_append] at keeps
  obtain ⟨⟨⟨type, value⟩, scope⟩, reifier⟩ := keeps
  exact {
    type := denotes.type.congr type
    value := denotes.value.congr value
    datatype := denotes.datatype
    scope := denotes.scope.congr scope
    reifier := denotes.reifier.congr reifier }

theorem RolePattern.Denotes.congr {pattern : RolePattern} {r : Role}
    (denotes : pattern.Denotes m r) (keeps : ∀ token ∈ pattern.tokens, m.KeepsAt m' token) :
    pattern.Denotes m' r := by
  simp only [RolePattern.tokens, List.forall_mem_append] at keeps
  exact {
    type := denotes.type.congr keeps.1.1
    player := denotes.player.congr keeps.1.2
    reifier := denotes.reifier.congr keeps.2 }

theorem AssociationPattern.Denotes.congr {pattern : AssociationPattern} {a : Association}
    (denotes : pattern.Denotes source m a) (keeps : ∀ token ∈ pattern.tokens, m.KeepsAt m' token) :
    pattern.Denotes source m' a := by
  simp only [AssociationPattern.tokens, List.forall_mem_append] at keeps
  obtain ⟨⟨⟨type, roles⟩, scope⟩, reifier⟩ := keeps
  obtain ⟨chosen, perm, denote⟩ := denotes.roles
  exact {
    type := denotes.type.congr type
    scope := denotes.scope.congr scope
    reifier := denotes.reifier.congr reifier
    roles := ⟨chosen, perm, denote_congr denote roles RolePattern.Denotes.congr⟩ }

end Congruence

section Growing

theorem TopicRef.Denotes.grow {pattern : TopicRef} {actual : TopicId}
    (denotes : pattern.Denotes m actual) (grows : m.Grows source m') : pattern.Denotes m' actual :=
  denotes.congr fun token _ => grows.keepsAt token

theorem ValueDenotes.grow {pattern value : String} (denotes : ValueDenotes m pattern value)
    (grows : m.Grows source m') : ValueDenotes m' pattern value :=
  denotes.congr fun token _ => grows.keepsAt token

theorem ScopePattern.Denotes.grow {pattern : ScopePattern} {scope : List TopicId}
    (denotes : pattern.Denotes m scope) (grows : m.Grows source m') : pattern.Denotes m' scope :=
  denotes.congr fun token _ => grows.keepsAt token

theorem ReifierPattern.Denotes.grow {pattern : ReifierPattern} {reifier : Option TopicId}
    (denotes : pattern.Denotes m reifier) (grows : m.Grows source m') :
    pattern.Denotes m' reifier :=
  denotes.congr fun token _ => grows.keepsAt token

theorem VariantPattern.Denotes.grow {pattern : VariantPattern} {v : Variant}
    (denotes : pattern.Denotes m v) (grows : m.Grows source m') : pattern.Denotes m' v :=
  denotes.congr fun token _ => grows.keepsAt token

theorem RolePattern.Denotes.grow {pattern : RolePattern} {r : Role}
    (denotes : pattern.Denotes m r) (grows : m.Grows source m') : pattern.Denotes m' r :=
  denotes.congr fun token _ => grows.keepsAt token

end Growing

section Bound

variable {token : String}

theorem TopicRef.Denotes.bound {pattern : TopicRef} {actual : TopicId}
    (denotes : pattern.Denotes m actual) (member : token ∈ pattern.tokens) : m.IsBound token := by
  cases pattern with
  | fixed id => cases member
  | var name =>
    obtain rfl := List.mem_singleton.mp member
    exact .of_find? denotes

theorem ValueDenotes.bound {pattern value : String} (denotes : ValueDenotes m pattern value)
    (member : token ∈ valueTokens pattern) : m.IsBound token := by
  unfold valueTokens at member
  unfold ValueDenotes at denotes
  split at member
  · rename_i free
    obtain rfl := List.mem_singleton.mp member
    rw [if_pos free] at denotes
    rcases denotes with ⟨datatype, found⟩
    exact .of_find? found
  · cases member

theorem bound_of_forall₂ {α β : Type} {Denotes : α → β → Prop} {tokens : α → List String}
    {patterns : List α} {items : List β} (denote : List.Forall₂ Denotes patterns items)
    (bound : ∀ {pattern item}, Denotes pattern item → token ∈ tokens pattern → m.IsBound token)
    (member : token ∈ patterns.flatMap tokens) : m.IsBound token := by
  induction denote with
  | nil => cases member
  | cons head _ ih =>
    rw [List.flatMap_cons, List.mem_append] at member
    rcases member with here | later
    · exact bound head here
    · exact ih later

theorem ScopePattern.Denotes.bound {pattern : ScopePattern} {scope : List TopicId}
    (denotes : pattern.Denotes m scope) (member : token ∈ pattern.tokens) : m.IsBound token :=
  bound_of_forall₂ denotes TopicRef.Denotes.bound member

theorem ReifierPattern.Denotes.bound {pattern : ReifierPattern} {reifier : Option TopicId}
    (denotes : pattern.Denotes m reifier) (member : token ∈ pattern.tokens) :
    m.IsBound token := by
  cases denotes with
  | some topic => exact topic.bound member
  | none => cases member

theorem VariantPattern.Denotes.bound {pattern : VariantPattern} {v : Variant}
    (denotes : pattern.Denotes m v) (member : token ∈ pattern.tokens) : m.IsBound token := by
  simp only [VariantPattern.tokens, List.mem_append] at member
  rcases member with (value | scope) | reifier
  · exact denotes.value.bound value
  · exact denotes.scope.bound scope
  · exact denotes.reifier.bound reifier

theorem NamePattern.Denotes.bound {pattern : NamePattern} {n : Name}
    (denotes : pattern.Denotes source m n) (member : token ∈ pattern.tokens) :
    m.IsBound token := by
  simp only [NamePattern.tokens, List.mem_append] at member
  rcases member with (((type | value) | scope) | reifier) | variants
  · exact denotes.type.bound type
  · exact denotes.value.bound value
  · exact denotes.scope.bound scope
  · exact denotes.reifier.bound reifier
  · exact bound_of_forall₂ denotes.variants VariantPattern.Denotes.bound variants

theorem OccurrencePattern.Denotes.bound {pattern : OccurrencePattern} {o : Occurrence}
    (denotes : pattern.Denotes m o) (member : token ∈ pattern.tokens) : m.IsBound token := by
  simp only [OccurrencePattern.tokens, List.mem_append] at member
  rcases member with ((type | value) | scope) | reifier
  · exact denotes.type.bound type
  · exact denotes.value.bound value
  · exact denotes.scope.bound scope
  · exact denotes.reifier.bound reifier

theorem RolePattern.Denotes.bound {pattern : RolePattern} {r : Role}
    (denotes : pattern.Denotes m r) (member : token ∈ pattern.tokens) : m.IsBound token := by
  simp only [RolePattern.tokens, List.mem_append] at member
  rcases member with (type | player) | reifier
  · exact denotes.type.bound type
  · exact denotes.player.bound player
  · exact denotes.reifier.bound reifier

theorem AssociationPattern.Denotes.bound {pattern : AssociationPattern} {a : Association}
    (denotes : pattern.Denotes source m a) (member : token ∈ pattern.tokens) :
    m.IsBound token := by
  simp only [AssociationPattern.tokens, List.mem_append] at member
  obtain ⟨chosen, _, denote⟩ := denotes.roles
  rcases member with ((type | roles) | scope) | reifier
  · exact denotes.type.bound type
  · exact bound_of_forall₂ denote RolePattern.Denotes.bound roles
  · exact denotes.scope.bound scope
  · exact denotes.reifier.bound reifier

end Bound

namespace Match

/-- A step of a match that only binds variables. -/
structure Binds (source : Source) (m m' : Match) : Prop where
  grows : m.Grows source m'
  claims : m'.claims = m.claims

theorem Binds.trans {m'' : Match} (first : m.Binds source m') (second : m'.Binds source m'') :
    m.Binds source m'' :=
  ⟨first.grows.trans second.grows, second.claims.trans first.claims⟩

theorem topic?_spec {pattern : TopicRef} {actual : TopicId}
    (found : m.topic? source pattern actual = some m') :
    m.Binds source m' ∧ pattern.Denotes m' actual := by
  cases pattern with
  | fixed id =>
    simp only [topic?, Option.ite_none_right_eq_some, Option.some.injEq] at found
    rcases found with ⟨same, rfl⟩
    exact ⟨⟨.refl source m, rfl⟩, same⟩
  | var token =>
    simp only [topic?] at found
    split at found
    · rename_i id bound
      split at found
      · rename_i same
        obtain rfl := Option.some.inj found
        exact ⟨⟨.refl source m, rfl⟩, same ▸ bound⟩
      · cases found
    · cases found
    · rename_i free
      split at found
      · cases found
      · rename_i named
        obtain rfl := Option.some.inj found
        have grows : m.Grows source (m.bind token (.topic actual)) :=
          grows_bind free fun same => Bound.topic.inj same ▸ by simpa using named
        refine ⟨⟨grows, rfl⟩, ?_⟩
        simp [TopicRef.Denotes, find?_bind]

theorem themes?_spec {patterns : List TopicRef} {themes : List TopicId}
    (found : m.themes? source patterns themes = some m') :
    m.Binds source m' ∧ List.Forall₂ (TopicRef.Denotes m') patterns themes := by
  induction patterns generalizing themes m with
  | nil =>
    cases themes with
    | nil =>
      obtain rfl := Option.some.inj found
      exact ⟨⟨.refl source m, rfl⟩, .nil⟩
    | cons theme themes => cases found
  | cons pattern patterns ih =>
    cases themes with
    | nil => cases found
    | cons theme themes =>
      obtain ⟨middle, first, rest⟩ := Option.bind_eq_some_iff.mp found
      have here := topic?_spec first
      have later := ih rest
      exact ⟨here.1.trans later.1, .cons (here.2.grow later.1.grows) later.2⟩

theorem scope?_spec {pattern : ScopePattern} {scope : List TopicId}
    (found : m.scope? source pattern scope = some m') :
    m.Binds source m' ∧ pattern.Denotes m' scope :=
  themes?_spec found

theorem reifier?_spec {pattern : ReifierPattern} {reifier : Option TopicId}
    (found : m.reifier? source pattern reifier = some m') :
    m.Binds source m' ∧ pattern.Denotes m' reifier := by
  unfold reifier? at found
  split at found
  · obtain rfl := Option.some.inj found
    exact ⟨⟨.refl source m, rfl⟩, .none⟩
  · have topic := topic?_spec found
    exact ⟨topic.1, .some topic.2⟩
  · cases found

theorem value?_spec (source : Source) {pattern expected value datatype : String}
    (found : m.value? pattern expected value datatype = some m') :
    m.Binds source m' ∧ expected = datatype ∧ ValueDenotes m' pattern value := by
  by_cases same : expected = datatype
  · by_cases free : isVariable pattern
    · simp only [value?, same, free, ValueDenotes, ne_eq, not_true_eq_false, Bool.not_true,
        Bool.false_eq_true, if_true, if_false] at found ⊢
      split at found
      · rename_i bound kind earlier
        simp only [Option.ite_none_right_eq_some, Option.some.injEq] at found
        rcases found with ⟨rfl, rfl⟩
        exact ⟨⟨.refl source m, rfl⟩, trivial, kind, earlier⟩
      · cases found
      · rename_i unbound
        obtain rfl := Option.some.inj found
        have grows : m.Grows source (m.bind pattern (.literal value datatype)) :=
          grows_bind unbound nofun
        refine ⟨⟨grows, rfl⟩, trivial, datatype, ?_⟩
        simp [find?_bind]
    · simp only [value?, same, free, ValueDenotes, ne_eq, not_true_eq_false, Bool.not_false,
        Bool.false_eq_true, if_true, if_false, Option.ite_none_right_eq_some,
        Option.some.injEq] at found ⊢
      rcases found with ⟨equal, rfl⟩
      exact ⟨⟨.refl source m, rfl⟩, trivial, equal⟩
  · simp [value?, same] at found

end Match
end CompactTopicMap
