import CompactTopicMap.Proofs.Matching.Places
import CompactTopicMap.Proofs.Matching.Soundness

namespace CompactTopicMap

/-- A place where a value stands: the value or its variable, with the datatype that it must have. -/
abbrev ValueSlot := String × String

def VariantPattern.slot (p : VariantPattern) : ValueSlot := (p.value, p.datatype)

def NamePattern.slots (p : NamePattern) : List ValueSlot :=
  (p.value, Iri.string) :: p.variants.map VariantPattern.slot

namespace Statement

def slots : Statement → List ValueSlot
  | name p => p.slots
  | occurrence p => [(p.value, p.datatype)]
  | identifier _ value => [(value, Iri.anyUri)]
  | _ => []

end Statement

def Template.slots (t : Template) : List ValueSlot := t.flattened.flatMap Statement.slots

section Places

def Place.slots : Place → List ValueSlot
  | topic _ => []
  | value text datatype => [(text, datatype)]

theorem ScopePattern.slots_places (scope : ScopePattern) : scope.places.flatMap Place.slots = [] := by
  rw [places, List.flatMap_map]
  exact List.flatMap_eq_nil_iff.mpr fun _ _ => rfl

theorem ReifierPattern.slots_places (reifier : ReifierPattern) :
    reifier.places.flatMap Place.slots = [] := by
  cases reifier <;> rfl

theorem VariantPattern.slots_places (p : VariantPattern) :
    p.places.flatMap Place.slots = [p.slot] := by
  simp [places, slot, Place.slots, ScopePattern.slots_places, ReifierPattern.slots_places]

theorem NamePattern.slots_places (p : NamePattern) : p.places.flatMap Place.slots = p.slots := by
  simp [places, slots, Place.slots, ScopePattern.slots_places, ReifierPattern.slots_places,
    List.flatMap_assoc, VariantPattern.slots_places, List.map_eq_flatMap]

theorem RolePattern.slots_places (p : RolePattern) : p.places.flatMap Place.slots = [] := by
  simp [places, Place.slots, ReifierPattern.slots_places]

theorem AssociationPattern.slots_places (p : AssociationPattern) :
    p.places.flatMap Place.slots = [] := by
  simp [places, Place.slots, ScopePattern.slots_places, ReifierPattern.slots_places,
    List.flatMap_assoc, RolePattern.slots_places]

theorem Statement.slots_places (s : Statement) : s.places.flatMap Place.slots = s.slots := by
  cases s with
  | name p => exact p.slots_places
  | occurrence p =>
    simp [places, slots, OccurrencePattern.places, Place.slots, ScopePattern.slots_places,
      ReifierPattern.slots_places]
  | association p => exact p.slots_places
  | isa _ | ako _ | identifier _ _ | variant _ | role _ | reifier _ | scope _ => rfl

end Places

variable {source : Source} {m m' m'' : Match}

namespace Match

/-- A step of a match that goes through places for values. It keeps what is bound, binds the
variables in these places, and gives a new variable the datatype of the first of them. -/
structure Fills (slots : List ValueSlot) (m m' : Match) : Prop where
  keeps : ∀ {token bound}, m.find? token = some bound → m'.find? token = some bound
  bound : ∀ {token datatype}, (token, datatype) ∈ slots → isVariable token = true →
    m'.IsBound token
  literal : ∀ {token value datatype}, m'.find? token = some (.literal value datatype) →
    m.find? token = some (.literal value datatype) ∨
      m.find? token = none ∧ isVariable token = true ∧ slots.lookup token = some datatype

namespace Fills

theorem refl (m : Match) : Fills [] m m :=
  ⟨id, fun member => absurd member List.not_mem_nil, .inl⟩

theorem claim {slots : List ValueSlot} (fills : Fills slots m m') (c : Construct) :
    Fills slots m (m'.claim c) :=
  ⟨fills.keeps, fills.bound, fills.literal⟩

theorem none_of_none {slots : List ValueSlot} (fills : Fills slots m m') {token : String}
    (free : m'.find? token = none) : m.find? token = none := by
  cases earlier : m.find? token with
  | none => rfl
  | some bound =>
    rw [fills.keeps earlier] at free
    cases free

theorem trans {first second : List ValueSlot} (before : Fills first m m')
    (after : Fills second m' m'') : Fills (first ++ second) m m'' where
  keeps found := after.keeps (before.keeps found)
  bound := by
    intro token datatype member variable_
    rcases List.mem_append.mp member with early | late
    · obtain ⟨bound, found⟩ := Option.isSome_iff_exists.mp (before.bound early variable_)
      exact .of_find? (after.keeps found)
    · exact after.bound late variable_
  literal := by
    intro token value datatype found
    rw [List.lookup_append]
    rcases after.literal found with old | ⟨free, variable_, listed⟩
    · rcases before.literal old with older | ⟨free, variable_, listed⟩
      · exact .inl older
      · exact .inr ⟨free, variable_, by rw [listed, Option.some_or]⟩
    · -- A place gone through before would have bound the variable.
      have unlisted : first.lookup token = none := by
        cases earlier : first.lookup token with
        | none => rfl
        | some other =>
          obtain ⟨_, _, split, _⟩ := List.lookup_eq_some_iff.mp earlier
          have bound := before.bound (split ▸ by simp : (token, other) ∈ first) variable_
          rw [IsBound, free] at bound
          cases bound
      exact .inr ⟨before.none_of_none free, variable_, by rw [unlisted, Option.none_or, listed]⟩

end Fills

theorem topic?_fills {pattern : TopicRef} {actual : TopicId}
    (found : m.topic? source pattern actual = some m') : Fills [] m m' := by
  refine ⟨(topic?_spec found).1.grows.keeps, fun member => absurd member List.not_mem_nil, ?_⟩
  intro token value datatype literal
  left
  cases pattern with
  | fixed id =>
    simp only [topic?, Option.ite_none_right_eq_some, Option.some.injEq] at found
    exact found.2 ▸ literal
  | var name =>
    simp only [topic?] at found
    split at found
    · simp only [Option.ite_none_right_eq_some, Option.some.injEq] at found
      exact found.2 ▸ literal
    · cases found
    · simp only [Option.ite_none_left_eq_some, Option.some.injEq] at found
      rw [← found.2, find?_bind] at literal
      split at literal
      · cases literal
      · exact literal

theorem value?_fills (source : Source) {pattern expected value datatype : String}
    (found : m.value? pattern expected value datatype = some m') :
    Fills [(pattern, expected)] m m' := by
  obtain ⟨binds, same, denotes⟩ := value?_spec source found
  refine ⟨binds.grows.keeps, ?_, ?_⟩
  · intro token other member variable_
    obtain ⟨rfl, _⟩ := Prod.mk.inj (List.mem_singleton.mp member)
    exact denotes.bound (by simp [valueTokens, variable_])
  · intro token bound other literal
    subst same
    simp only [value?, ne_eq, not_true_eq_false, if_false] at found
    split at found
    · simp only [Option.ite_none_right_eq_some, Option.some.injEq] at found
      exact .inl (found.2 ▸ literal)
    · rename_i variable_
      split at found
      · simp only [Option.ite_none_right_eq_some, Option.some.injEq] at found
        exact .inl (found.2 ▸ literal)
      · cases found
      · rename_i free
        obtain rfl := Option.some.inj found
        rw [find?_bind] at literal
        split at literal
        · rename_i here
          obtain ⟨_, rfl⟩ := Bound.literal.inj (Option.some.inj literal)
          subst here
          exact .inr ⟨free, by simpa using variable_, List.lookup_cons_self⟩
        · exact .inl literal

theorem Visits.fills {places : List Place} (visits : Visits source places m m') :
    Fills (places.flatMap Place.slots) m m' := by
  induction visits with
  | refl m => exact .refl m
  | topic found => exact topic?_fills found
  | value found => exact value?_fills source found
  | trans _ _ before after =>
    rw [List.flatMap_append]
    exact before.trans after
  | claim _ c fills => exact fills.claim c

end Match

theorem Matcher.search_fills {w : Matcher} {subject : TopicId} {statements : List Statement}
    (found : w.search subject statements m = some m') :
    Match.Fills (statements.flatMap Statement.slots) m m' := by
  have fills := (search_visits found).fills
  rw [List.flatMap_assoc] at fills
  simpa only [Statement.slots_places] using fills

def Source.literal? (source : Source) : Construct → Option (String × String)
  | .name id => some ((source.name id).value, Iri.string)
  | .variant id => some ((source.variant id).value, (source.variant id).datatype)
  | .occurrence id => some ((source.occurrence id).value, (source.occurrence id).datatype)
  | .locator _ _ iri => some (iri, Iri.anyUri)
  | _ => none

namespace Session

variable {s : Session} {p : Progress} {t : Template} {subject : TopicId}

/-- The construct was claimed for a statement in which the variable stands for its value, in a place
that declares the datatype. -/
def Holds (s : Session) (t : Template) (subject : TopicId) (m : Match) (token declared : String)
    (c : Construct) : Prop :=
  ∃ statement ∈ t.flattened, ∃ main ∈ m.claims, s.Asserts subject m statement main ∧
    ((token, declared), c) ∈ statement.slots.zip (s.source.whole main)

theorem Asserts.literal {statement : Statement} {main : Construct}
    (asserts : s.Asserts subject m statement main) {slot : ValueSlot} {c : Construct}
    (paired : (slot, c) ∈ statement.slots.zip (s.source.whole main)) :
    ∃ value, ValueDenotes m slot.1 value ∧ s.source.literal? c = some (value, slot.2) := by
  cases asserts with
  | isa | ako | association => cases paired
  | @name pattern id own denotes =>
    rcases List.mem_cons.mp paired with same | later
    · obtain ⟨rfl, rfl⟩ := Prod.mk.inj same
      exact ⟨_, denotes.value, rfl⟩
    · have zipped : (slot, c) ∈ (pattern.variants.map VariantPattern.slot).zip
          ((s.source.name id).variants.map Construct.variant) := later
      rw [List.zip_map, List.mem_map] at zipped
      obtain ⟨⟨variantPattern, variant⟩, inside, same⟩ := zipped
      obtain ⟨rfl, rfl⟩ := Prod.mk.inj same
      have variantDenotes := (List.forall₂_iff_zip.mp denotes.variants).2 inside
      refine ⟨_, variantDenotes.value, ?_⟩
      rw [Source.literal?, VariantPattern.slot, variantDenotes.datatype]
  | @occurrence pattern id own denotes =>
    obtain ⟨rfl, rfl⟩ := Prod.mk.inj (List.mem_singleton.mp paired)
    exact ⟨_, denotes.value, by rw [Source.literal?, denotes.datatype]⟩
  | identifier own denotes =>
    obtain ⟨rfl, rfl⟩ := Prod.mk.inj (List.mem_singleton.mp paired)
    exact ⟨_, denotes, rfl⟩

theorem Asserts.length_slots {statement : Statement} {main : Construct}
    (asserts : s.Asserts subject m statement main) :
    statement.slots.length ≤ (s.source.whole main).length := by
  cases asserts with
  | isa | ako | association => exact Nat.zero_le _
  | name own denotes =>
    have variants := denotes.variants.length_eq
    simp only [Statement.slots, NamePattern.slots, Source.whole, Source.parts, List.length_cons,
      List.length_map]
    omega
  | occurrence | identifier => exact Nat.le_refl 1

theorem exists_holds (found : (s.matcher p).matchTopic? t subject = some m) {token declared : String}
    (listed : (token, declared) ∈ t.slots) : ∃ c, s.Holds t subject m token declared c := by
  obtain ⟨statement, inside, slot⟩ := List.mem_flatMap.mp listed
  obtain ⟨constructs, asserted, claims⟩ := matchTopic?_asserts found
  obtain ⟨main, member, asserts⟩ := exists_of_mem_forall₂ asserted.flip inside
  have claimed : main ∈ m.claims :=
    claims.mem_iff.mpr ((sublist_flatMap_whole _ _).subset member)
  rw [← List.map_fst_zip asserts.length_slots] at slot
  obtain ⟨⟨_, c⟩, paired, rfl⟩ := List.mem_map.mp slot
  exact ⟨c, statement, inside, main, claimed, asserts, paired⟩

theorem lookup_slots (found : (s.matcher p).matchTopic? t subject = some m)
    {token value datatype : String} (bound : m.find? token = some (.literal value datatype)) :
    isVariable token = true ∧ t.slots.lookup token = some datatype := by
  obtain ⟨_, search⟩ := Matcher.matchTopic?_eq_some.mp found
  rcases (Matcher.search_fills search).literal bound with given | ⟨_, variable_, first⟩
  · rw [Match.find?_ofSubject, Option.ite_none_right_eq_some] at given
    cases given.2
  · exact ⟨variable_, first⟩

theorem Holds.literal {token value datatype declared : String} {c : Construct}
    (holds : s.Holds t subject m token declared c) (variable_ : isVariable token = true)
    (bound : m.find? token = some (.literal value datatype)) :
    s.source.literal? c = some (value, declared) := by
  obtain ⟨statement, _, main, _, asserts, paired⟩ := holds
  obtain ⟨actual, denotes, literal⟩ := asserts.literal paired
  rw [ValueDenotes, if_pos variable_] at denotes
  obtain ⟨other, stored⟩ := denotes
  have same : Bound.literal value datatype = .literal actual other :=
    Option.some.inj (bound.symm.trans stored)
  rw [literal, (Bound.literal.inj same).1]

/-- The value of an argument is that of every construct that it stands for. Its datatype is that of
the first place of the variable, and that of every such construct exactly if all places of the
variable declare it. -/
theorem argument_keeps_datatype_iff (s : Session) (p : Progress) {t : Template} {subject : TopicId}
    {m : Match} (found : (s.matcher p).matchTopic? t subject = some m)
    {token value datatype : String} (bound : m.find? token = some (.literal value datatype)) :
    t.slots.lookup token = some datatype ∧
      (∀ declared c, s.Holds t subject m token declared c →
        s.source.literal? c = some (value, declared)) ∧
      ((∀ declared c, s.Holds t subject m token declared c →
          s.source.literal? c = some (value, datatype)) ↔
        ∀ declared, (token, declared) ∈ t.slots → declared = datatype) := by
  obtain ⟨variable_, first⟩ := lookup_slots found bound
  refine ⟨first, fun declared c holds => holds.literal variable_ bound, ?_, ?_⟩
  · intro keeps declared listed
    obtain ⟨c, holds⟩ := exists_holds found listed
    have actual := holds.literal variable_ bound
    rw [keeps declared c holds] at actual
    exact (Prod.mk.inj (Option.some.inj actual)).2.symm
  · intro one declared c holds
    have listed : (token, declared) ∈ t.slots := by
      obtain ⟨statement, inside, _, _, _, paired⟩ := holds
      exact List.mem_flatMap.mpr ⟨statement, inside, (List.of_mem_zip paired).1⟩
    rw [holds.literal variable_ bound, one declared listed]

theorem village_label_kept :
    (villageSession.matcher {}).matchTopic? namedLoopTemplate ⟨0⟩ = some namedLoopMatch ∧
      namedLoopMatch.find? "$label" = some (.literal "Village" Iri.string) ∧
      ∀ declared c, villageSession.Holds namedLoopTemplate ⟨0⟩ namedLoopMatch "$label" declared c →
        villageSession.source.literal? c = some ("Village", Iri.string) := by
  have found : (villageSession.matcher {}).matchTopic? namedLoopTemplate ⟨0⟩ =
      some namedLoopMatch := by rfl
  have bound : namedLoopMatch.find? "$label" = some (.literal "Village" Iri.string) := by rfl
  have one : ∀ slot ∈ namedLoopTemplate.slots, slot.1 = "$label" → slot.2 = Iri.string := by decide
  refine ⟨found, bound, (argument_keeps_datatype_iff villageSession {} found bound).2.2.mpr ?_⟩
  intro declared listed
  exact one _ listed rfl

def houseCalls : List BuildCall :=
  [.topicAt .subjectIdentifier "http://t.example/size",
    .topicAt .subjectIdentifier "http://t.example/count",
    .topicAt .subjectIdentifier "http://t.example/house",
    .createOccurrence ⟨2⟩ ⟨0⟩ "42" Iri.string [], .createOccurrence ⟨2⟩ ⟨1⟩ "42" Iri.integer []]

def house : TopicMap := houseCalls.foldl BuildCall.apply {}

def measuredTemplate : Template :=
  ⟨"measured", .topic,
    [.statement (.occurrence { type := .fixed ⟨0⟩, value := "$v", datatype := Iri.string }),
      .statement (.occurrence { type := .fixed ⟨1⟩, value := "$v", datatype := Iri.integer })]⟩

def houseSession : Session where
  source := house.source
  settings := {}
  table := .empty
  typing := {}

def measuredMatch : Match where
  bindings := [("$v", .literal "42" Iri.string), (subjectToken, .topic ⟨2⟩)]
  claims := [.occurrence ⟨1⟩, .occurrence ⟨0⟩]

/-- A valid template matches, and its argument is written as a string, though it also stands for a
number. -/
theorem number_written_as_string :
    house.Built ∧ measuredTemplate.validate = .ok () ∧
      (houseSession.matcher {}).matchTopic? measuredTemplate ⟨2⟩ = some measuredMatch ∧
      measuredMatch.find? "$v" = some (.literal "42" Iri.string) ∧
      (houseSession.extractTopic {} measuredTemplate ⟨2⟩).2 = .ok ["\"42\""] ∧
      houseSession.Holds measuredTemplate ⟨2⟩ measuredMatch "$v" Iri.integer (.occurrence ⟨1⟩) ∧
      houseSession.source.literal? (.occurrence ⟨1⟩) = some ("42", Iri.integer) ∧
      Iri.integer ≠ Iri.string := by
  refine ⟨?_, by rfl, by rfl, by rfl, by rfl, ?_, by rfl, by decide⟩
  · apply TopicMap.Built.calls .empty
    simp [houseCalls, BuildCall.AllValid, BuildCall.Valid, BuildCall.apply]
    decide
  · refine ⟨_, .tail _ (.head _), .occurrence ⟨1⟩, by decide, .occurrence (by decide) ?_, .head _⟩
    exact {
      type := rfl
      value := ⟨_, rfl⟩
      datatype := rfl
      scope := .nil
      reifier := .none }

end Session
end CompactTopicMap
