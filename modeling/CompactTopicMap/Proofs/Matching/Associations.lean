import CompactTopicMap.Proofs.Matching.Datatypes
import CompactTopicMap.Proofs.Matching.Search
import Mathlib.Data.List.FinRange

namespace CompactTopicMap

theorem exists_mem_picks {α : Type} {items : List α} {item : α} (member : item ∈ items) :
    ∃ others, (item, others) ∈ picks items := by
  induction items with
  | nil => cases member
  | cons first rest ih =>
    rcases List.mem_cons.mp member with rfl | later
    · exact ⟨rest, List.mem_cons_self⟩
    · obtain ⟨others, picked⟩ := ih later
      exact ⟨first :: others, List.mem_cons_of_mem _ (List.mem_map.mpr ⟨_, picked, rfl⟩)⟩

variable {source : Source} {m m' goal : Match}

/-- A match on its way from the first to one of an association: all that the pattern says besides the
roles is bound. -/
structure AssociationPattern.Frames (source : Source) (pattern : AssociationPattern)
    (a : Association) (m framed : Match) : Prop where
  grows : m.Grows source framed
  type : pattern.type.Denotes framed a.type
  scope : pattern.scope.Denotes framed a.scope
  reifier : pattern.reifier.Denotes framed a.reifier

namespace Matcher

variable {w : Matcher}

theorem role?_complete {pattern : RolePattern} {id : RoleId} (agrees : m.Agrees w.source goal)
    (denotes : pattern.Denotes goal (w.source.role id)) :
    ∃ m', w.role? pattern id m = some m' ∧ m'.Agrees w.source goal := by
  obtain ⟨typed, type, agrees⟩ := Match.topic?_complete agrees denotes.type
  obtain ⟨played, player, agrees⟩ := Match.topic?_complete agrees denotes.player
  obtain ⟨reified, reifier, agrees⟩ := Match.reifier?_complete agrees denotes.reifier
  exact ⟨reified.claim (.role id), by simp [role?, type, player, reifier], agrees.claim _⟩

/-- If the patterns denote some of the roles, each its own, then each is given a role; it need not be
the same one. -/
theorem roles?_complete {patterns : List RolePattern} {ids chosen others : List RoleId}
    (agrees : m.Agrees w.source goal) (perm : (chosen ++ others).Perm ids)
    (denote : List.Forall₂ (fun p id => p.Denotes goal (w.source.role id)) patterns chosen) :
    (w.roles? patterns ids m).isSome := by
  induction denote generalizing ids m with
  | nil => rfl
  | @cons pattern id patterns chosen head _ ih =>
    obtain ⟨rest, picked⟩ := exists_mem_picks (perm.subset List.mem_cons_self)
    have left : (chosen ++ others).Perm rest :=
      (perm.trans (perm_of_mem_picks picked).symm).cons_inv
    obtain ⟨next, first, closer⟩ := role?_complete agrees head
    apply List.findSome?_isSome_iff.mpr
    refine ⟨(id, rest), picked, ?_⟩
    simpa only [first, Option.bind_some] using ih closer left

theorem association?_complete {pattern : AssociationPattern} {id : AssociationId}
    (agrees : m.Agrees w.source goal)
    (denotes : pattern.Denotes w.source goal (w.source.association id)) :
    ∃ framed full, pattern.Frames w.source (w.source.association id) m framed ∧
      framed.Agrees w.source goal ∧
      w.roles? pattern.roles (w.source.association id).roles framed = some full ∧
      w.association? pattern id m = some (full.claim (.association id)) := by
  obtain ⟨chosen, perm, denote⟩ := denotes.roles
  have sameLength : pattern.roles.length = (w.source.association id).roles.length :=
    denote.length_eq.trans perm.length_eq
  obtain ⟨typed, htype, agrees⟩ := Match.topic?_complete agrees denotes.type
  obtain ⟨themed, hscope, agrees⟩ := Match.scope?_complete agrees denotes.scope
  obtain ⟨framed, hreifier, agrees⟩ := Match.reifier?_complete agrees denotes.reifier
  have type := Match.topic?_spec htype
  have scope := Match.scope?_spec hscope
  have reifier := Match.reifier?_spec hreifier
  have late := scope.1.grows.trans reifier.1.grows
  have frames : pattern.Frames w.source (w.source.association id) m framed :=
    ⟨type.1.grows.trans late, type.2.grow late, scope.2.grow reifier.1.grows, reifier.2⟩
  have all : (chosen ++ []).Perm (w.source.association id).roles := by rwa [List.append_nil]
  obtain ⟨full, roles⟩ := Option.isSome_iff_exists.mp (roles?_complete agrees all denote)
  refine ⟨framed, full, frames, agrees, roles, ?_⟩
  simp [association?, sameLength, htype, hscope, hreifier, roles]

end Matcher

def TopicRef.under (topics : String → TopicId) : TopicRef → TopicId
  | .fixed id => id
  | .var token => topics token

structure RolePattern.Fits (topics : String → TopicId) (pattern : RolePattern) (r : Role) :
    Prop where
  type : pattern.type.under topics = r.type
  player : pattern.player.under topics = r.player
  reifier : pattern.reifier.map (TopicRef.under topics) = r.reifier

/-- With the given topics for the variables, the association is what the pattern says, where each
role pattern is meant for the role at its position. -/
structure AssociationPattern.Fits (source : Source) (topics : String → TopicId)
    (pattern : AssociationPattern) (a : Association)
    (position : Fin pattern.roles.length ≃ Fin a.roles.length) : Prop where
  type : pattern.type.under topics = a.type
  scope : pattern.scope.themes.map (TopicRef.under topics) = a.scope
  reifier : pattern.reifier.map (TopicRef.under topics) = a.reifier
  roles : ∀ i : Fin pattern.roles.length,
    (pattern.roles[i]).Fits topics (source.role a.roles[position i])

section Fitting

variable {topics : String → TopicId} {tokens : List String}

def Match.ofTopics (topics : String → TopicId) (tokens : List String) : Match where
  bindings := tokens.map fun token => (token, .topic (topics token))

theorem Match.find?_ofTopics (token : String) :
    (ofTopics topics tokens).find? token =
      if token ∈ tokens then some (.topic (topics token)) else none := by
  induction tokens with
  | nil => rfl
  | cons first rest ih =>
    have step : ofTopics topics (first :: rest) =
        (ofTopics topics rest).bind first (.topic (topics first)) := rfl
    rw [step, find?_bind, ih]
    by_cases same : token = first <;> simp [same]

theorem Match.empty_agrees
    (named : ∀ token ∈ tokens, (source.topic (topics token)).isAnonymous = false) :
    ({} : Match).Agrees source (ofTopics topics tokens) := by
  refine ⟨nofun, nofun, fun found => .inr ?_⟩
  rw [find?_ofTopics, Option.ite_none_right_eq_some] at found
  obtain ⟨listed, same⟩ := found
  exact Bound.topic.inj (Option.some.inj same) ▸ named _ listed

theorem TopicRef.denotes_ofTopics (pattern : TopicRef) (listed : pattern.tokens ⊆ tokens) :
    pattern.Denotes (.ofTopics topics tokens) (pattern.under topics) := by
  cases pattern with
  | fixed id => rfl
  | var token =>
    have member : token ∈ tokens := listed (List.mem_singleton_self token)
    rw [Denotes, Match.find?_ofTopics, if_pos member, under]

theorem ReifierPattern.denotes_ofTopics (pattern : ReifierPattern)
    (listed : pattern.tokens ⊆ tokens) :
    pattern.Denotes (.ofTopics topics tokens) (pattern.map (TopicRef.under topics)) := by
  cases pattern with
  | none => exact .none
  | some topic => exact .some (topic.denotes_ofTopics listed)

theorem RolePattern.Fits.denotes {pattern : RolePattern} {r : Role} (fits : pattern.Fits topics r)
    (listed : pattern.tokens ⊆ tokens) : pattern.Denotes (.ofTopics topics tokens) r := by
  simp only [RolePattern.tokens, List.append_subset] at listed
  obtain ⟨⟨type, player⟩, reifier⟩ := listed
  exact {
    type := fits.type ▸ pattern.type.denotes_ofTopics type
    player := fits.player ▸ pattern.player.denotes_ofTopics player
    reifier := fits.reifier ▸ pattern.reifier.denotes_ofTopics reifier }

theorem ofFn_perm {α : Type} {n : Nat} {items : List α} (position : Fin n ≃ Fin items.length) :
    (List.ofFn fun i => items[position i]).Perm items := by
  have sameLength : n = items.length := Fin.equiv_iff_eq.mp ⟨position⟩
  subst sameLength
  have shuffled := Equiv.Perm.ofFn_comp_perm position fun i => items[i]
  have all : (List.ofFn fun i : Fin items.length => items[i]) = items := List.ofFn_getElem
  rwa [all] at shuffled

theorem AssociationPattern.Fits.denotes {pattern : AssociationPattern} {a : Association}
    {position : Fin pattern.roles.length ≃ Fin a.roles.length}
    (fits : pattern.Fits source topics a position) :
    pattern.Denotes source (.ofTopics topics pattern.tokens) a where
  type := by
    rw [← fits.type]
    apply pattern.type.denotes_ofTopics
    simp [tokens]
  scope := by
    rw [ScopePattern.Denotes, ← fits.scope, List.forall₂_map_right_iff, List.forall₂_same]
    intro theme member
    apply theme.denotes_ofTopics
    intro token used
    have inside : token ∈ pattern.scope.tokens := List.mem_flatMap.mpr ⟨theme, member, used⟩
    simp [tokens, inside]
  reifier := by
    rw [← fits.reifier]
    apply pattern.reifier.denotes_ofTopics
    exact List.subset_append_right _ _
  roles := by
    refine ⟨List.ofFn fun i => a.roles[position i], ofFn_perm position, ?_⟩
    rw [List.forall₂_iff_get]
    refine ⟨by simp, fun i bound _ => ?_⟩
    have fit := fits.roles ⟨i, bound⟩
    have listed : pattern.roles[i].tokens ⊆ pattern.tokens := by
      intro token used
      have inside : token ∈ pattern.roles.flatMap RolePattern.tokens :=
        List.mem_flatMap.mpr ⟨_, List.getElem_mem bound, used⟩
      simp only [tokens, List.mem_append]
      exact .inl (.inl (.inr inside))
    simpa using fit.denotes listed

end Fitting

section Assigning

def Match.topicOf (m : Match) (token : String) : TopicId :=
  match m.find? token with
  | some (.topic id) => id
  | _ => ⟨0⟩

theorem TopicRef.Denotes.under {pattern : TopicRef} {actual : TopicId}
    (denotes : pattern.Denotes m actual) : pattern.under m.topicOf = actual := by
  cases pattern with
  | fixed id => exact denotes
  | var token =>
    rw [Denotes] at denotes
    rw [TopicRef.under, Match.topicOf, denotes]

theorem ReifierPattern.Denotes.under {pattern : ReifierPattern} {reifier : Option TopicId}
    (denotes : pattern.Denotes m reifier) : pattern.map (TopicRef.under m.topicOf) = reifier := by
  cases denotes with
  | some topic => exact congrArg some topic.under
  | none => rfl

theorem RolePattern.Denotes.fits {pattern : RolePattern} {r : Role}
    (denotes : pattern.Denotes m r) : pattern.Fits m.topicOf r where
  type := denotes.type.under
  player := denotes.player.under
  reifier := denotes.reifier.under

theorem AssociationPattern.Denotes.fits {pattern : AssociationPattern} {a : Association}
    (denotes : pattern.Denotes source m a) : ∃ position, pattern.Fits source m.topicOf a position := by
  obtain ⟨chosen, perm, roles⟩ := denotes.roles
  let among : Fin chosen.length ≃ Fin a.roles.length :=
    ⟨perm.idxBij, perm.symm.idxBij, perm.idxBij_symm_leftInverse_idxBij,
      perm.idxBij_symm_rightInverse_idxBij⟩
  refine ⟨(finCongr roles.length_eq).trans among, ?_⟩
  exact {
    type := denotes.type.under
    scope := by
      rw [← List.forall₂_eq_eq_eq, List.forall₂_map_left_iff]
      exact denotes.scope.imp fun _ _ theme => theme.under
    reifier := denotes.reifier.under
    roles := by
      intro i
      have here := roles.get i.isLt (roles.length_eq ▸ i.isLt)
      have placed := perm.getElem_idxBij_eq_getElem (Fin.cast roles.length_eq i)
      simp only [List.get_eq_getElem, Fin.val_cast] at here placed
      rw [← placed] at here
      exact here.fits }

theorem Matcher.association?_named {w : Matcher} {pattern : AssociationPattern} {id : AssociationId}
    (found : w.association? pattern id {} = some m) {token : String}
    (member : token ∈ pattern.tokens) :
    (w.source.topic (m.topicOf token)).isAnonymous = false := by
  obtain ⟨_, _, takes, denotes⟩ := association?_spec found
  obtain ⟨value, bound⟩ := Option.isSome_iff_exists.mp (denotes.bound member)
  cases value with
  | topic topic =>
    rcases takes.grows.named bound with earlier | named
    · cases earlier
    · simpa only [Match.topicOf, bound] using named
  | literal value datatype =>
    rcases (association?_visits found).fills.literal bound with earlier | ⟨_, _, listed⟩
    · cases earlier
    · rw [AssociationPattern.slots_places] at listed
      cases listed

end Assigning

namespace Session

/-- A template that is one association pattern applies to an association exactly if that is open, and
there are topics with a locator for the variables and a position for each role pattern under which the
association is what the pattern says. -/
theorem isAdaptiveForAssociation_exact (s : Session) (p : Progress) (name : String)
    (pattern : AssociationPattern) (id : AssociationId) :
    s.isAdaptiveForAssociation p ⟨name, .association, [.statement (.association pattern)]⟩ id =
        true ↔
      .association id ∉ p.written ∧ s.typing.isFolded id = false ∧
        (s.source.association id).roles.length = pattern.roles.length ∧
        ∃ topics position, (∀ token ∈ pattern.tokens, s.IsNamed (topics token)) ∧
          pattern.Fits s.source topics (s.source.association id) position := by
  have isOpen : (s.matcher p).isOpen {} id = true ↔
      .association id ∉ p.written ∧ s.typing.isFolded id = false := by
    rw [Matcher.isOpen, Bool.and_eq_true, Matcher.available_iff, Bool.not_eq_true']
    exact and_congr_left fun _ => and_iff_left List.not_mem_nil
  constructor
  · intro adaptive
    obtain ⟨m, found⟩ := isAdaptiveForAssociation_iff.mp adaptive
    obtain ⟨_, _, body, unwritten, matched⟩ := Matcher.matchAssociation?_spec found
    cases body
    obtain ⟨_, _, _, denotes⟩ := Matcher.association?_spec matched
    obtain ⟨position, fits⟩ := denotes.fits
    obtain ⟨absent, unfolded⟩ := isOpen.mp unwritten
    have sameLength : pattern.roles.length = (s.source.association id).roles.length :=
      Fin.equiv_iff_eq.mp ⟨position⟩
    exact ⟨absent, unfolded, sameLength.symm, m.topicOf, position,
      fun _ member => Matcher.association?_named matched member, fits⟩
  · rintro ⟨absent, unfolded, _, topics, position, named, fits⟩
    obtain ⟨_, full, _, _, _, matched⟩ :=
      Matcher.association?_complete (w := s.matcher p) (Match.empty_agrees named) fits.denotes
    refine isAdaptiveForAssociation_iff.mpr ⟨full.claim (.association id), ?_⟩
    rw [Matcher.matchAssociation?]
    simp only [isOpen.mpr ⟨absent, unfolded⟩, matched, if_true]

end Session
end CompactTopicMap
