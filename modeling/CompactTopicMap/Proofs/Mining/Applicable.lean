import CompactTopicMap.Proofs.Exhaustion
import CompactTopicMap.Proofs.Matching.Associations
import CompactTopicMap.Proofs.Mining.Counts
import CompactTopicMap.Proofs.Mining.Variables

namespace CompactTopicMap

/-- If for each kind of item there are as many things as items of the kind, and no thing is there for
two kinds, then each item can have a thing of its own. -/
theorem exists_own_each {α β : Type} [DecidableEq α] [DecidableEq β] {pool : α → List β}
    {items : List α} (distinct : ∀ a, (pool a).Nodup)
    (apart : ∀ {a a' b}, b ∈ pool a → b ∈ pool a' → a = a')
    (enough : ∀ a, items.count a ≤ (pool a).length) :
    ∃ chosen, List.Forall₂ (fun a b => b ∈ pool a) items chosen ∧ chosen.Nodup := by
  induction items generalizing pool with
  | nil => exact ⟨[], .nil, List.nodup_nil⟩
  | cons item items ih =>
    have some_thing : pool item ≠ [] := by
      intro none
      have bound := enough item
      rw [none, List.count_cons_self] at bound
      cases bound
    obtain ⟨thing, inside⟩ := List.exists_mem_of_ne_nil _ some_thing
    have left : ∀ a, items.count a ≤ ((pool a).erase thing).length := by
      intro a
      have bound := enough a
      by_cases same : item = a
      · subst same
        rw [List.count_cons_self] at bound
        rw [List.length_erase_of_mem inside]
        omega
      · have other : thing ∉ pool a := fun inside' => same (apart inside inside')
        rw [List.erase_of_not_mem other]
        rwa [List.count_cons_of_ne same] at bound
    obtain ⟨chosen, belong, nodup⟩ := ih (fun a => (distinct a).erase thing)
      (fun first second => apart (List.mem_of_mem_erase first) (List.mem_of_mem_erase second)) left
    refine ⟨thing :: chosen, .cons inside ?_, List.nodup_cons.mpr ⟨fun again => ?_, nodup⟩⟩
    · exact belong.imp fun _ _ member => List.mem_of_mem_erase member
    · obtain ⟨a, _, member⟩ := exists_of_mem_forall₂ belong again
      exact ((distinct a).mem_erase_iff.mp member).1 rfl

theorem lookup_of_mem {α β : Type} [DecidableEq α] {pairs : List (α × β)} {a : α} {b : β}
    (distinct : (pairs.map Prod.fst).Nodup) (member : (a, b) ∈ pairs) : pairs.lookup a = some b := by
  induction pairs with
  | nil => cases member
  | cons pair pairs ih =>
    obtain ⟨fresh, distinct⟩ := List.nodup_cons.mp distinct
    rcases List.mem_cons.mp member with rfl | later
    · simp
    · have differ : a ≠ pair.1 := fun same => fresh (same ▸ List.mem_map_of_mem later)
      rw [List.lookup_cons, beq_false_of_ne differ]
      exact ih distinct later

namespace Match

variable {α : Type} {tokens : List String} {items : List α} {f : α → Bound}

def bindEach (tokens : List String) (items : List α) (f : α → Bound) : Match where
  bindings := tokens.zip (items.map f)

theorem find?_bindEach {token : String} {item : α} (distinct : tokens.Nodup)
    (lengths : tokens.length = items.length) (member : (token, item) ∈ tokens.zip items) :
    (bindEach tokens items f).find? token = some (f item) := by
  apply lookup_of_mem
  · rwa [bindEach, List.map_fst_zip (by rw [List.length_map, lengths])]
  · rw [bindEach, List.zip_map_right]
    exact List.mem_map.mpr ⟨(token, item), member, rfl⟩

theorem exists_of_find?_bindEach {token : String} {bound : Bound}
    (found : (bindEach tokens items f).find? token = some bound) : ∃ item ∈ items, f item = bound := by
  obtain ⟨first, rest, split, _⟩ := List.lookup_eq_some_iff.mp found
  have paired : (token, bound) ∈ tokens.zip (items.map f) := by
    have whole : tokens.zip (items.map f) = first ++ (token, bound) :: rest := split
    rw [whole]
    exact List.mem_append_right first List.mem_cons_self
  exact List.mem_map.mp (List.of_mem_zip paired).2

end Match

def Template.roleTypes (t : Template) : List TopicRef :=
  t.flattened.flatMap fun statement =>
    match statement with
    | .association pattern => pattern.roles.map RolePattern.type
    | _ => []

namespace Session

variable {s : Session} {p : Progress} {id : TopicId}

section Topics

theorem exists_stem (signature : Signature) :
    ∃ base, s.stem signature = "$" ++ base ∧ isIdentifierChars base.toList = true := by
  cases signature with
  | name of =>
    rw [stem, nameStem]
    cases s.isDefaultNameType of.type with
    | true => exact ⟨"name", rfl, by decide⟩
    | false =>
      cases found : s.localName? of.type with
      | none => exact ⟨"name", rfl, by decide⟩
      | some base => exact ⟨base, rfl, isIdentifierChars_localName? found⟩
  | occurrence of =>
    rw [stem, occurrenceStem]
    cases found : s.localName? of.type with
    | none => exact ⟨"value", rfl, by decide⟩
    | some base => exact ⟨base, rfl, isIdentifierChars_localName? found⟩

theorem isVariable_minedTokens {instances : List TopicId} {token : String}
    (member : token ∈ s.minedTokens instances) : isVariable token = true := by
  obtain ⟨stem, inside, n, rfl⟩ := exists_of_mem_freshNames member
  obtain ⟨signature, _, rfl⟩ := List.mem_map.mp inside
  obtain ⟨base, stem, identifier⟩ := exists_stem (s := s) signature
  rw [stem]
  exact isVariable_numbered identifier n

def boundOf (s : Session) (c : Construct) : Bound :=
  match s.source.literal? c with
  | some (value, datatype) => .literal value datatype
  | none => .literal "" ""

theorem scopePattern_denotes (goal : Match) (scope : List TopicId) :
    (scopePattern scope).Denotes goal scope := by
  rw [ScopePattern.Denotes, themes_scopePattern, List.forall₂_map_left_iff, List.forall₂_same]
  exact fun _ _ => rfl

theorem valueDenotes_of_literal {goal : Match} {token value datatype : String}
    (variable_ : isVariable token = true)
    (bound : goal.find? token = some (.literal value datatype)) : ValueDenotes goal token value := by
  rw [ValueDenotes, if_pos variable_]
  exact ⟨datatype, bound⟩

theorem mem_plain_name {of : NameSignature} {c : Construct} (member : c ∈ s.plain id (.name of)) :
    ∃ name ∈ (s.source.topic id).names, c = .name name ∧
      of = ⟨(s.source.name name).type, (s.source.name name).scope⟩ ∧
      (s.source.name name).reifier = none ∧ (s.source.name name).variants = [] := by
  obtain ⟨name, inside, rfl⟩ := List.mem_map.mp member
  obtain ⟨listed, plain⟩ := List.mem_filter.mp inside
  simp only [Bool.and_eq_true, decide_eq_true_eq, Option.isNone_iff_eq_none,
    List.isEmpty_iff] at plain
  obtain ⟨⟨⟨type, scope⟩, reifier⟩, variants⟩ := plain
  exact ⟨name, listed, rfl, by rw [type, scope], reifier, variants⟩

theorem mem_plain_occurrence {of : OccurrenceSignature} {c : Construct}
    (member : c ∈ s.plain id (.occurrence of)) :
    ∃ occurrence ∈ (s.source.topic id).occurrences, c = .occurrence occurrence ∧
      of = ⟨(s.source.occurrence occurrence).type, (s.source.occurrence occurrence).datatype,
        (s.source.occurrence occurrence).scope⟩ ∧
      (s.source.occurrence occurrence).reifier = none := by
  obtain ⟨occurrence, inside, rfl⟩ := List.mem_map.mp member
  obtain ⟨listed, plain⟩ := List.mem_filter.mp inside
  simp only [Bool.and_eq_true, decide_eq_true_eq, Option.isNone_iff_eq_none] at plain
  obtain ⟨⟨⟨type, datatype⟩, scope⟩, reifier⟩ := plain
  exact ⟨occurrence, listed, rfl, by rw [type, datatype, scope], reifier⟩

theorem plain_nodup (sound : s.source.map.Sound) (id : TopicId) (signature : Signature) :
    (s.plain id signature).Nodup := by
  cases signature with
  | name of => exact ((sound.names_nodup id).filter _).map fun _ _ => Construct.name.inj
  | occurrence of =>
    exact ((sound.occurrences_nodup id).filter _).map fun _ _ => Construct.occurrence.inj

theorem plain_apart {first second : Signature} {c : Construct} (member : c ∈ s.plain id first)
    (member' : c ∈ s.plain id second) : first = second := by
  cases first with
  | name of =>
    obtain ⟨name, _, rfl, rfl, _⟩ := mem_plain_name member
    cases second with
    | name of' =>
      obtain ⟨_, _, same, rfl, _⟩ := mem_plain_name member'
      cases same
      rfl
    | occurrence of' =>
      obtain ⟨_, _, same, _⟩ := mem_plain_occurrence member'
      cases same
  | occurrence of =>
    obtain ⟨occurrence, _, rfl, rfl, _⟩ := mem_plain_occurrence member
    cases second with
    | name of' =>
      obtain ⟨_, _, same, _⟩ := mem_plain_name member'
      cases same
    | occurrence of' =>
      obtain ⟨_, _, same, rfl, _⟩ := mem_plain_occurrence member'
      cases same
      rfl

theorem mem_topicConstructs_of_plain {signature : Signature} {c : Construct}
    (member : c ∈ s.plain id signature) : c ∈ s.topicConstructs id := by
  cases signature with
  | name of =>
    obtain ⟨name, listed, rfl, _⟩ := mem_plain_name member
    simp [topicConstructs, listed]
  | occurrence of =>
    obtain ⟨occurrence, listed, rfl, _⟩ := mem_plain_occurrence member
    simp [topicConstructs, listed]

theorem typing_not_plain {signature : Signature} {topic type : TopicId} :
    .typing topic type ∉ s.plain id signature := by
  intro member
  cases signature with
  | name of =>
    obtain ⟨_, _, same, _⟩ := mem_plain_name member
    cases same
  | occurrence of =>
    obtain ⟨_, _, same, _⟩ := mem_plain_occurrence member
    cases same

theorem stands_of_plain {goal : Match} {signature : Signature} {c : Construct} {token : String}
    (member : c ∈ s.plain id signature) (variable_ : isVariable token = true)
    (bound : goal.find? token = some (s.boundOf c)) :
    (s.matcher p).Stands id goal (signature.statement token) [c] := by
  cases signature with
  | name of =>
    obtain ⟨name, listed, rfl, rfl, reifier, variants⟩ := mem_plain_name member
    have stands : (s.matcher p).Stands id goal
        (minedName ⟨(s.source.name name).type, (s.source.name name).scope⟩ token)
        (.name name :: (s.source.name name).variants.reverse.map .variant) := .name listed {
      type := rfl
      value := valueDenotes_of_literal variable_ bound
      scope := scopePattern_denotes goal _
      reifier := reifier ▸ .none
      variants := variants ▸ .nil }
    rwa [variants] at stands
  | occurrence of =>
    obtain ⟨occurrence, listed, rfl, rfl, reifier⟩ := mem_plain_occurrence member
    exact .occurrence listed {
      type := rfl
      value := valueDenotes_of_literal variable_ bound
      datatype := rfl
      scope := scopePattern_denotes goal _
      reifier := reifier ▸ .none }

theorem stand_mined {goal : Match} {signatures : List Signature} {chosen : List Construct}
    {tokens : List String}
    (belong : List.Forall₂ (fun signature c => c ∈ s.plain id signature) signatures chosen)
    (lengths : tokens.length = signatures.length)
    (variable_ : ∀ token ∈ tokens, isVariable token = true)
    (bound : ∀ token c, (token, c) ∈ tokens.zip chosen → goal.find? token = some (s.boundOf c)) :
    List.Forall₂ ((s.matcher p).Stands id goal) (List.zipWith Signature.statement signatures tokens)
      (chosen.map ([·])) := by
  rw [List.forall₂_map_right_iff]
  apply forall₂_zipWith belong lengths
  intro signature token c member inside
  exact stands_of_plain member (variable_ token (List.of_mem_zip inside).1) (bound token c inside)

theorem flattenAll_statements (statements : List Statement) :
    Entry.flattenAll (statements.map .statement) = statements := by
  rw [Entry.flattenAll_eq_flatMap, List.flatMap_map]
  exact List.flatMap_singleton' statements

/-- The subject, and literals for the variables of a mined template. -/
def minedGoal (s : Session) (id : TopicId) (tokens : List String) (chosen : List Construct) : Match :=
  (Match.bindEach tokens chosen s.boundOf).bind subjectToken (.topic id)

theorem ofSubject_agrees_minedGoal (tokens : List String) (chosen : List Construct) :
    (Match.ofSubject id).Agrees s.source (s.minedGoal id tokens chosen) := by
  constructor
  · intro token actual found
    rw [Match.find?_ofSubject, Option.ite_none_right_eq_some] at found
    rw [minedGoal, Match.find?_bind, if_pos found.1, found.2]
  · intro token value datatype found
    rw [Match.find?_ofSubject, Option.ite_none_right_eq_some] at found
    cases found.2
  · intro token actual found
    rw [minedGoal, Match.find?_bind] at found
    split at found
    · rename_i subject
      exact .inl (by rw [Match.find?_ofSubject, if_pos subject, found])
    · obtain ⟨c, _, same⟩ := Match.exists_of_find?_bindEach found
      rw [boundOf] at same
      split at same <;> cases same

theorem find?_minedGoal {tokens : List String} {chosen : List Construct} {token : String}
    {c : Construct} (distinct : tokens.Nodup) (fresh : subjectToken ∉ tokens)
    (lengths : tokens.length = chosen.length) (member : (token, c) ∈ tokens.zip chosen) :
    (s.minedGoal id tokens chosen).find? token = some (s.boundOf c) := by
  have listed : token ∈ tokens := (List.of_mem_zip member).1
  have differ : token ≠ subjectToken := fun same => fresh (same ▸ listed)
  rw [minedGoal, Match.find?_bind, if_neg differ]
  exact Match.find?_bindEach distinct lengths member

/-- The statements of a mined template can be matched with distinct plain constructs, as each variable
stands in one statement only. -/
theorem mined_solves {type : TopicId} {signatures : List Signature} {tokens : List String}
    (sound : s.source.map.Sound) (lengths : tokens.length = signatures.length)
    (distinct : tokens.Nodup) (fresh : subjectToken ∉ tokens)
    (variable_ : ∀ token ∈ tokens, isVariable token = true) (typed : type ∈ s.typesOf id)
    (enough : ∀ signature, signatures.count signature ≤ (s.plain id signature).length)
    (unwritten : ∀ c ∈ s.topicConstructs id, c ∉ p.written) :
    ∃ goal groups, (s.matcher p).Solves id
      (.isa (.fixed type) :: List.zipWith Signature.statement signatures tokens) goal groups := by
  obtain ⟨chosen, belong, apart⟩ := exists_own_each (plain_nodup sound id) plain_apart enough
  have owned : ∀ c ∈ chosen, ∃ signature, c ∈ s.plain id signature := by
    intro c member
    obtain ⟨signature, _, inside⟩ := exists_of_mem_forall₂ belong member
    exact ⟨signature, inside⟩
  have bound : ∀ token c, (token, c) ∈ tokens.zip chosen →
      (s.minedGoal id tokens chosen).find? token = some (s.boundOf c) := fun token c member =>
    find?_minedGoal distinct fresh (lengths.trans belong.length_eq) member
  have stand := stand_mined (p := p) belong lengths variable_ bound
  have flat : ([.typing id type] :: chosen.map ([·])).flatten = .typing id type :: chosen := by
    simp [← List.flatMap_def]
  refine ⟨s.minedGoal id tokens chosen, [.typing id type] :: chosen.map ([·]), ?_⟩
  exact {
    agrees := ofSubject_agrees_minedGoal _ _
    stand := .cons (.isa typed rfl) stand
    distinct := by
      rw [flat, List.nodup_cons]
      refine ⟨fun again => ?_, apart⟩
      obtain ⟨signature, inside⟩ := owned _ again
      exact typing_not_plain inside
    unwritten := by
      rw [flat, List.forall_mem_cons]
      refine ⟨unwritten _ (by simp [topicConstructs, typed]), fun c member => ?_⟩
      obtain ⟨signature, inside⟩ := owned c member
      exact unwritten c (mem_topicConstructs_of_plain inside) }

theorem mineTopic_applies {taken : List String} {type : TopicId} {t : Template}
    (sound : s.source.map.Sound) (mined : s.mineTopic taken type = some t)
    (typed : type ∈ s.typesOf id)
    (enough : ∀ signature : Signature,
      t.flattened.countP signature.describes ≤ (s.plain id signature).length)
    (unwritten : ∀ c ∈ s.topicConstructs id, c ∉ p.written) :
    s.isAdaptiveForTopic p t id = true := by
  obtain ⟨_, base, _, _, _, rfl⟩ := mineTopic_eq_some.mp mined
  rw [Template.flattened, flattenAll_statements, minedStatements_eq] at enough
  have lengths := length_minedTokens (s := s) (s.minedInstances type)
  have counts : ∀ signature, (s.minedSignatures (s.minedInstances type)).count signature ≤
      (s.plain id signature).length := by
    intro signature
    apply Nat.le_trans _ (enough signature)
    rw [← Signature.countP_describes (Signature.forall₂_statements lengths)]
    exact (List.sublist_cons_self _ _).countP_le
  have fresh : subjectToken ∉ s.minedTokens (s.minedInstances type) :=
    fun again => freshNames_not_mem again (List.mem_singleton_self _)
  obtain ⟨goal, groups, solves⟩ := mined_solves sound lengths (freshNames_nodup _ _) fresh
    (fun _ => isVariable_minedTokens) typed counts unwritten
  rw [isAdaptiveForTopic, Matcher.matchTopic?, if_pos rfl, Template.flattened,
    flattenAll_statements, minedStatements_eq]
  apply (Matcher.search_isSome_iff ?_).mpr ⟨goal, groups, solves⟩
  intro statement member
  rcases List.mem_cons.mp member with rfl | later
  · rfl
  · obtain ⟨signature, _, token, _, rfl⟩ := exists_of_mem_zipWith later
    cases signature <;> rfl

end Topics

section Associations

def minedRole (type : TopicId) (token : String) : RolePattern :=
  { type := .fixed type, player := .var token }

theorem minedRoles_eq (associations : List AssociationId) :
    ∃ types tokens, s.minedRoles associations = List.zipWith minedRole types tokens ∧
      tokens.length = types.length ∧ tokens.Nodup ∧ subjectToken ∉ tokens := by
  let types := relevant s.settings.relevance (associations.map s.roleTypes)
  let named := types.filterMap fun type => (s.localName? type).map fun name => (type, "$" ++ name)
  refine ⟨named.map Prod.fst, freshNames [subjectToken] (named.map Prod.snd), ?_, ?_,
    freshNames_nodup _ _, fun again => freshNames_not_mem again (List.mem_singleton_self _)⟩
  · rw [List.zipWith_map_left]
    rfl
  · rw [length_freshNames, List.length_map, List.length_map]

theorem mineAssociation_eq_some {taken : List String} {type : TopicId} {t : Template} :
    s.mineAssociation taken type = some t ↔
      s.isReserved type = false ∧ ∃ base, s.localName? type = some base ∧
        s.minedAssociations type ≠ [] ∧
        t = { name := freshName taken (base ++ "-template"), kind := .association,
              entries := [.statement (.association {
                type := .fixed type, roles := s.minedRoles (s.minedAssociations type) })] } := by
  rw [mineAssociation]
  cases s.isReserved type with
  | true => simp
  | false =>
    simp only [Bool.false_eq_true, if_false, true_and, Option.bind_eq_bind, Option.bind_eq_some_iff,
      Option.ite_none_left_eq_some, Option.some.injEq, List.isEmpty_iff, eq_comm (b := t), ne_eq]

theorem roles_denote {source : Source} {goal : Match} {types : List TopicId} {tokens : List String}
    {chosen : List RoleId}
    (typed : List.Forall₂ (fun type role => type = (source.role role).type) types chosen)
    (lengths : tokens.length = types.length)
    (unreified : ∀ role ∈ chosen, (source.role role).reifier = none)
    (bound : ∀ token role, (token, role) ∈ tokens.zip chosen →
      goal.find? token = some (.topic (source.role role).player)) :
    List.Forall₂ (fun pattern role => RolePattern.Denotes goal pattern (source.role role))
      (List.zipWith minedRole types tokens) chosen := by
  apply forall₂_zipWith typed lengths
  intro type token role same inside
  exact {
    type := same
    player := bound token role inside
    reifier := unreified role (List.of_mem_zip inside).2 ▸ .none }

theorem map_type_zipWith {types : List TopicId} {tokens : List String}
    (lengths : tokens.length = types.length) :
    (List.zipWith minedRole types tokens).map RolePattern.type = types.map .fixed := by
  calc (List.zipWith minedRole types tokens).map RolePattern.type
      = List.zipWith (fun type _ => .fixed type) types tokens := List.map_zipWith
    _ = ((types.zip tokens).map Prod.fst).map .fixed := by
        rw [List.map_map, ← List.map_uncurry_zip_eq_zipWith]
        rfl
    _ = types.map .fixed := by rw [List.map_fst_zip (Nat.le_of_eq lengths.symm)]

/-- The association has the type and no scope or reifier, nor have its roles a reifier, and their
players have locators. -/
structure IsSimple (s : Session) (type : TopicId) (a : Association) : Prop where
  type : a.type = type
  scope : a.scope = []
  reifier : a.reifier = none
  unreified : ∀ role ∈ a.roles, (s.source.role role).reifier = none
  named : ∀ role ∈ a.roles, s.IsNamed (s.source.role role).player

theorem exists_denotes {type : TopicId} {types : List TopicId} {tokens : List String}
    {a : Association} (lengths : tokens.length = types.length) (distinct : tokens.Nodup)
    (simple : s.IsSimple type a)
    (same : (a.roles.map fun role => TopicRef.fixed (s.source.role role).type).Perm
      (types.map .fixed)) :
    ∃ goal, ({} : Match).Agrees s.source goal ∧
      AssociationPattern.Denotes s.source goal
        { type := .fixed type, roles := List.zipWith minedRole types tokens } a := by
  have own : List.Forall₂ (fun topic role => topic = TopicRef.fixed (s.source.role role).type)
      (a.roles.map fun role => .fixed (s.source.role role).type) a.roles := by
    rw [List.forall₂_map_left_iff, List.forall₂_same]
    exact fun _ _ => rfl
  obtain ⟨chosen, given, perm⟩ := List.perm_comp_forall₂ same.symm own
  have typed : List.Forall₂ (fun type role => type = (s.source.role role).type) types chosen :=
    (List.forall₂_map_left_iff.mp given).imp fun _ _ => TopicRef.fixed.inj
  refine ⟨.bindEach tokens chosen fun role => .topic (s.source.role role).player, ?_, ?_⟩
  · refine ⟨nofun, nofun, fun found => .inr ?_⟩
    obtain ⟨role, member, player⟩ := Match.exists_of_find?_bindEach found
    exact Bound.topic.inj player ▸ simple.named role (perm.subset member)
  · have denote := roles_denote typed lengths
      (fun role member => simple.unreified role (perm.subset member))
      fun token role member =>
        Match.find?_bindEach (f := fun role => .topic (s.source.role role).player) distinct
          (lengths.trans typed.length_eq) member
    exact {
      type := simple.type.symm
      scope := simple.scope ▸ .nil
      reifier := simple.reifier ▸ .none
      roles := ⟨chosen, perm, denote⟩ }

theorem mineAssociation_applies {taken : List String} {type : TopicId} {t : Template}
    {id : AssociationId} (mined : s.mineAssociation taken type = some t)
    (unwritten : .association id ∉ p.written) (unfolded : s.typing.isFolded id = false)
    (simple : s.IsSimple type (s.source.association id))
    (same : ((s.source.association id).roles.map fun role =>
      TopicRef.fixed (s.source.role role).type).Perm t.roleTypes) :
    s.isAdaptiveForAssociation p t id = true := by
  obtain ⟨_, base, _, _, rfl⟩ := mineAssociation_eq_some.mp mined
  obtain ⟨types, tokens, roles, lengths, distinct, _⟩ :=
    minedRoles_eq (s := s) (s.minedAssociations type)
  simp only [Template.roleTypes, Template.flattened, Entry.flattenAll, Entry.flatten, roles,
    List.append_nil, List.flatMap_singleton, map_type_zipWith lengths] at same ⊢
  obtain ⟨goal, agrees, denotes⟩ := exists_denotes lengths distinct simple same
  have isOpen : (s.matcher p).isOpen {} id = true := by
    rw [Matcher.isOpen, Bool.and_eq_true, Matcher.available_iff, Bool.not_eq_true']
    exact ⟨⟨unwritten, List.not_mem_nil⟩, unfolded⟩
  obtain ⟨_, full, _, _, _, matched⟩ :=
    Matcher.association?_complete (w := s.matcher p) agrees denotes
  apply isAdaptiveForAssociation_iff.mpr ⟨full.claim (.association id), ?_⟩
  rw [Matcher.matchAssociation?]
  simp only [isOpen, matched, if_true]

end Associations

theorem harbour_enough (signature : Signature) :
    (Statement.isa (.fixed ⟨0⟩) :: harbourStatements).countP signature.describes ≤
      (harbourSession.plain ⟨3⟩ signature).length := by
  by_cases mast : signature = mastSignature
  · subst mast
    decide
  · by_cases crew : signature = crewSignature
    · subst crew
      decide
    · have none : (Statement.isa (.fixed ⟨0⟩) :: harbourStatements).countP signature.describes = 0 := by
        rw [List.countP_eq_zero]
        intro statement member described
        simp only [harbourStatements, List.mem_cons, List.not_mem_nil, or_false] at member
        rcases member with rfl | rfl | rfl | rfl
        · cases signature <;> cases described
        · exact mast (Signature.describes_unique described (Signature.describes_statement _ _))
        · exact mast (Signature.describes_unique described (Signature.describes_statement _ _))
        · exact crew (Signature.describes_unique described (Signature.describes_statement _ _))
      rw [none]
      exact Nat.zero_le _

/-- What was counted is matched, if nothing of it is written: a mined topic template applies to every
topic of the type with as many plain constructs of each signature as it has statements, and a mined
association template to every simple association of the type with the same role types. -/
theorem mined_applicable (s : Session) (built : s.source.map.Built) (p : Progress)
    (taken : List String) (type : TopicId) (t : Template) :
    (s.mineTopic taken type = some t → ∀ id, type ∈ s.typesOf id →
      (∀ signature : Signature,
        t.flattened.countP signature.describes ≤ (s.plain id signature).length) →
      (∀ c ∈ s.topicConstructs id, c ∉ p.written) → s.isAdaptiveForTopic p t id = true) ∧
    (s.mineAssociation taken type = some t → ∀ id, .association id ∉ p.written →
      s.typing.isFolded id = false → s.IsSimple type (s.source.association id) →
      ((s.source.association id).roles.map fun role =>
        TopicRef.fixed (s.source.role role).type).Perm t.roleTypes →
      s.isAdaptiveForAssociation p t id = true) := by
  constructor
  · intro mined id typed enough unwritten
    exact mineTopic_applies built.sound mined typed enough unwritten
  · intro mined id unwritten unfolded simple same
    exact mineAssociation_applies mined unwritten unfolded simple same

theorem harbour_applicable :
    (∃ t, harbourSession.mineTopic [] ⟨0⟩ = some t ∧
      harbourSession.isAdaptiveForTopic {} t ⟨3⟩ = true) ∧
    ∃ t, harbourSession.mineAssociation [] ⟨6⟩ = some t ∧ t.roleTypes.length = 2 ∧
      harbourSession.isAdaptiveForAssociation {} t ⟨0⟩ = true := by
  constructor
  · obtain ⟨t, found, entries⟩ := Option.map_eq_some_iff.mp harbour_mined
    have flattened : t.flattened = .isa (.fixed ⟨0⟩) :: harbourStatements := by
      rw [Template.flattened, entries, flattenAll_statements]
    obtain ⟨topics, _⟩ := mined_applicable harbourSession harbour_built {} [] ⟨0⟩ t
    refine ⟨t, found, topics found ⟨3⟩ (by decide) ?_ fun c _ => Written.not_mem_empty c⟩
    rw [flattened]
    exact harbour_enough
  · have mined : (harbourSession.mineAssociation [] ⟨6⟩).map Template.roleTypes =
        some [.fixed ⟨0⟩, .fixed ⟨0⟩] := by
      decide +kernel
    obtain ⟨t, found, types⟩ := Option.map_eq_some_iff.mp mined
    have simple : harbourSession.IsSimple ⟨6⟩ (harbourSession.source.association ⟨0⟩) :=
      ⟨by decide, by decide, by decide, by decide, by decide⟩
    obtain ⟨_, associations⟩ := mined_applicable harbourSession harbour_built {} [] ⟨6⟩ t
    refine ⟨t, found, by rw [types]; rfl, associations found ⟨0⟩ (Written.not_mem_empty _) (by decide)
      simple ?_⟩
    rw [types]
    exact .refl _

end Session
end CompactTopicMap
