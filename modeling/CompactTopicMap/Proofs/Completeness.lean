import CompactTopicMap.Proofs.Built
import CompactTopicMap.Proofs.DocumentLayout
import Mathlib.Algebra.BigOperators.Group.Finset.Basic

namespace CompactTopicMap

/-- What is added to the constructs that are written, and how many are skipped. -/
structure Progress.Gains (p : Progress) (added : Construct → Prop) (dropped : Nat) (q : Progress) :
    Prop where
  mem : ∀ c, c ∈ q.written ↔ c ∈ p.written ∨ added c
  skipped : q.skipped = p.skipped + dropped

variable {p q r : Progress} {added more : Construct → Prop} {dropped later : Nat}

theorem Progress.Gains.trans (first : p.Gains added dropped q) (second : q.Gains more later r) :
    p.Gains (fun c => added c ∨ more c) (dropped + later) r := by
  constructor
  · intro c
    rw [second.mem, first.mem, or_assoc]
  · rw [second.skipped, first.skipped, Nat.add_assoc]

theorem Progress.Gains.keeps (gains : p.Gains added dropped q) {c : Construct}
    (apart : ¬ added c) : c ∈ q.written ↔ c ∈ p.written := by
  rw [gains.mem]
  exact or_iff_left apart

theorem Progress.mem_mark {c d : Construct} :
    c ∈ (p.mark d).written ↔ c = d ∨ c ∈ p.written :=
  Written.mem_insert

namespace Session

section Loops

variable {α : Type} {construct : α → Construct} {Encodable : α → Prop}
  {encode : Progress → α → Progress × Option String} {item : α} {items : List α} {p q : Progress}

def ItemsAdd (construct : α → Construct) (Encodable : α → Prop) (items : List α)
    (c : Construct) : Prop :=
  ∃ item ∈ items, Encodable item ∧ c = construct item

theorem items_gains_written (present : construct item ∈ p.written)
    (rest : p.Gains (ItemsAdd construct Encodable items)
      (items.countP fun item => construct item ∉ q.written) q) :
    p.Gains (ItemsAdd construct Encodable (item :: items))
      ((item :: items).countP fun item => construct item ∉ q.written) q := by
  have kept := (rest.mem (construct item)).mpr (.inl present)
  constructor
  · intro c
    rw [rest.mem]
    constructor
    · rintro (old | ⟨other, member, new⟩)
      · exact .inl old
      · exact .inr ⟨other, List.mem_cons_of_mem item member, new⟩
    · rintro (old | ⟨other, member, can, rfl⟩)
      · exact .inl old
      · rcases List.mem_cons.mp member with rfl | member
        · exact .inl present
        · exact .inr ⟨other, member, can, rfl⟩
  · rw [rest.skipped, List.countP_cons_of_neg (by simpa using kept)]

theorem items_gains_encoded (can : Encodable item)
    (rest : (p.mark (construct item)).Gains (ItemsAdd construct Encodable items)
      (items.countP fun item => construct item ∉ q.written) q) :
    p.Gains (ItemsAdd construct Encodable (item :: items))
      ((item :: items).countP fun item => construct item ∉ q.written) q := by
  have marked := (rest.mem (construct item)).mpr (.inl (Progress.mem_mark.mpr (.inl rfl)))
  constructor
  · intro c
    rw [rest.mem, Progress.mem_mark, or_assoc, or_left_comm]
    simp [ItemsAdd, can]
  · rw [rest.skipped, List.countP_cons_of_neg (by simpa using marked)]
    rfl

theorem items_gains_skipped (injective : ∀ x y, construct x = construct y → x = y)
    (fresh : construct item ∉ p.written) (cannot : ¬ Encodable item)
    (rest : p.skip.Gains (ItemsAdd construct Encodable items)
      (items.countP fun item => construct item ∉ q.written) q) :
    p.Gains (ItemsAdd construct Encodable (item :: items))
      ((item :: items).countP fun item => construct item ∉ q.written) q := by
  have missing : construct item ∉ q.written := by
    rw [rest.mem]
    rintro (old | ⟨other, _, can, same⟩)
    · exact fresh old
    · exact cannot (injective _ _ same ▸ can)
  constructor
  · intro c
    rw [rest.mem]
    simp [ItemsAdd, cannot, Progress.skip]
  · calc
      q.skipped = p.skipped + 1 + items.countP fun item => construct item ∉ q.written :=
        rest.skipped
      _ = p.skipped + (item :: items).countP fun item => construct item ∉ q.written := by
        rw [List.countP_cons_of_pos (by simpa using missing)]
        omega

theorem encodeUnwritten_gains
    (encodes : Encodes Encodable (fun p item => p.mark (construct item)) encode)
    (injective : ∀ x y, construct x = construct y → x = y) (items : List α) (p : Progress) :
    let q := (encodeUnwritten construct encode items p).1
    p.Gains (ItemsAdd construct Encodable items)
      (items.countP fun item => construct item ∉ q.written) q := by
  induction items generalizing p with
  | nil => exact ⟨by simp [encodeUnwritten, ItemsAdd], rfl⟩
  | cons item items ih =>
    by_cases present : construct item ∈ p.written
    · rw [encodeUnwritten_cons_of_mem present]
      exact items_gains_written present (ih p)
    · rcases encodes p item with ⟨can, text, encoded⟩ | ⟨cannot, encoded⟩
      · rw [encodeUnwritten_cons_of_some present encoded]
        exact items_gains_encoded can (ih _)
      · rw [encodeUnwritten_cons_of_none present encoded]
        exact items_gains_skipped injective present cannot (ih p.skip)

end Loops

variable (s : Session)

/-- What the text of a name adds: the name, and those of its variants that can be encoded. -/
def NameAdds (name : NameId) (c : Construct) : Prop :=
  c = .name name ∨
    ∃ v ∈ (s.source.name name).variants, s.VariantEncodable v ∧ c = .variant v

def missingVariants (q : Progress) (name : NameId) : Nat :=
  (s.source.name name).variants.countP fun v => .variant v ∉ q.written

theorem variants_gains (ids : List VariantId) (p : Progress) :
    let q := (s.encodeVariants ids p).1
    p.Gains (fun c => ∃ v ∈ ids, s.VariantEncodable v ∧ c = .variant v)
      (ids.countP fun v => .variant v ∉ q.written) q :=
  encodeUnwritten_gains s.encodeVariant_spec (fun _ _ => Construct.variant.inj) ids p

def writtenNames (p q : Progress) (names : List NameId) : Finset NameId :=
  names.toFinset.filter fun name => .name name ∉ p.written ∧ .name name ∈ q.written

theorem mem_writtenNames {p q : Progress} {names : List NameId} {name : NameId} :
    name ∈ writtenNames p q names ↔
      name ∈ names ∧ .name name ∉ p.written ∧ .name name ∈ q.written := by
  simp [writtenNames]

theorem name_gains (name : NameId) (p : Progress) :
    let q := (s.encodeVariants (s.source.name name).variants p).1.mark (.name name)
    p.Gains (s.NameAdds name) (s.missingVariants q name) q := by
  intro q
  have variants := s.variants_gains (s.source.name name).variants p
  constructor
  · intro c
    rw [Progress.mem_mark, variants.mem, or_left_comm]
    rfl
  · have same : s.missingVariants q name = (s.source.name name).variants.countP fun v =>
        .variant v ∉ (s.encodeVariants (s.source.name name).variants p).1.written := by
      simp [missingVariants, q, Progress.mem_mark]
    rw [same]
    exact variants.skipped

def NamesAdd (p : Progress) (names : List NameId) (c : Construct) : Prop :=
  ∃ name ∈ names, .name name ∉ p.written ∧ s.NameEncodable name ∧ s.NameAdds name c

/-- The names that are missing, and the variants that are missing of those written. -/
def namesDropped (p q : Progress) (names : List NameId) : Nat :=
  (names.countP fun name => .name name ∉ q.written) +
    ∑ name ∈ writtenNames p q names, s.missingVariants q name

variable {s}

theorem NameAdds.name {name other : NameId} (adds : s.NameAdds other (.name name)) :
    name = other := by
  rcases adds with same | ⟨v, _, _, impossible⟩
  · exact Construct.name.inj same
  · cases impossible

theorem NameAdds.variant {name : NameId} {v : VariantId} (adds : s.NameAdds name (.variant v)) :
    s.VariantEncodable v := by
  rcases adds with impossible | ⟨u, _, can, same⟩
  · cases impossible
  · exact Construct.variant.inj same ▸ can

section Encoded

variable {name : NameId} {names : List NameId} {p p' q : Progress} {dropped later : Nat}

theorem name_mem_iff (one : p.Gains (s.NameAdds name) dropped p') (other : NameId) :
    .name other ∈ p'.written ↔ other = name ∨ .name other ∈ p.written := by
  rw [one.mem, or_comm]
  refine or_congr_left ⟨NameAdds.name, ?_⟩
  rintro rfl
  exact .inl rfl

theorem writtenNames_cons (one : p.Gains (s.NameAdds name) dropped p')
    (fresh : .name name ∉ p.written) (marked : .name name ∈ q.written) :
    writtenNames p q (name :: names) = insert name (writtenNames p' q names) := by
  ext other
  by_cases same : other = name
  · simp [same, mem_writtenNames, fresh, marked]
  · simp [same, mem_writtenNames, name_mem_iff one]

theorem missingVariants_eq (one : p.Gains (s.NameAdds name) dropped p')
    (rest : p'.Gains (s.NamesAdd p' names) later q) :
    s.missingVariants p' name = s.missingVariants q name := by
  apply List.countP_congr
  intro v member
  have same : .variant v ∈ p'.written ↔ .variant v ∈ q.written := by
    rw [rest.mem]
    constructor
    · exact .inl
    · rintro (old | ⟨_, _, _, _, adds⟩)
      · exact old
      · exact (one.mem _).mpr (.inr (.inr ⟨v, member, adds.variant, rfl⟩))
  simp only [same]

theorem names_gains_encoded (fresh : .name name ∉ p.written) (can : s.NameEncodable name)
    (one : p.Gains (s.NameAdds name) (s.missingVariants p' name) p')
    (rest : p'.Gains (s.NamesAdd p' names) (s.namesDropped p' q names) q) :
    p.Gains (s.NamesAdd p (name :: names)) (s.namesDropped p q (name :: names)) q := by
  have first : .name name ∈ p'.written := (name_mem_iff one name).mpr (.inl rfl)
  have marked : .name name ∈ q.written := (rest.mem _).mpr (.inl first)
  constructor
  · intro c
    rw [rest.mem, one.mem]
    constructor
    · rintro ((old | adds) | ⟨other, member, absent, adds⟩)
      · exact .inl old
      · exact .inr ⟨name, List.mem_cons_self, fresh, can, adds⟩
      · have earlier : .name other ∉ p.written := fun old =>
          absent ((name_mem_iff one other).mpr (.inr old))
        exact .inr ⟨other, List.mem_cons_of_mem name member, earlier, adds⟩
    · rintro (old | ⟨other, member, absent, encodable, adds⟩)
      · exact .inl (.inl old)
      · -- A name that is listed twice is not written again.
        by_cases same : other = name
        · exact .inl (.inr (same ▸ adds))
        · have behind : .name other ∉ p'.written := by simp [name_mem_iff one, same, absent]
          have inside : other ∈ names := (List.mem_cons.mp member).resolve_left same
          exact .inr ⟨other, inside, behind, encodable, adds⟩
  · have count : (name :: names).countP (fun name => .name name ∉ q.written) =
        names.countP fun name => .name name ∉ q.written :=
      List.countP_cons_of_neg (by simpa using marked)
    have outside : name ∉ writtenNames p' q names := by simp [mem_writtenNames, first]
    calc
      q.skipped = p.skipped + s.missingVariants q name + s.namesDropped p' q names := by
        rw [rest.skipped, one.skipped, missingVariants_eq one rest]
      _ = p.skipped + s.namesDropped p q (name :: names) := by
        rw [namesDropped, namesDropped, writtenNames_cons one fresh marked, count,
          Finset.sum_insert outside]
        omega

end Encoded

theorem names_gains_skipped {name : NameId} {names : List NameId} {p q : Progress}
    (fresh : .name name ∉ p.written) (cannot : ¬ s.NameEncodable name)
    (rest : p.skip.Gains (s.NamesAdd p.skip names) (s.namesDropped p.skip q names) q) :
    p.Gains (s.NamesAdd p (name :: names)) (s.namesDropped p q (name :: names)) q := by
  have missing : .name name ∉ q.written := by
    rw [rest.mem]
    rintro (old | ⟨other, _, _, can, adds⟩)
    · exact fresh old
    · exact cannot (adds.name ▸ can)
  have written : writtenNames p q (name :: names) = writtenNames p.skip q names := by
    ext other
    by_cases same : other = name
    · simp [same, mem_writtenNames, missing]
    · simp [same, mem_writtenNames, Progress.skip]
  constructor
  · intro c
    rw [rest.mem]
    simp [NamesAdd, cannot, Progress.skip]
  · have count : (name :: names).countP (fun name => .name name ∉ q.written) =
        (names.countP fun name => .name name ∉ q.written) + 1 :=
      List.countP_cons_of_pos (by simpa using missing)
    calc
      q.skipped = p.skipped + 1 + s.namesDropped p.skip q names := rest.skipped
      _ = p.skipped + s.namesDropped p q (name :: names) := by
        rw [namesDropped, namesDropped, written, count]
        omega

theorem names_gains (names : List NameId) (p : Progress) :
    let q := (encodeUnwritten .name s.encodeName names p).1
    p.Gains (s.NamesAdd p names) (s.namesDropped p q names) q := by
  induction names generalizing p with
  | nil => exact ⟨by simp [encodeUnwritten, NamesAdd], rfl⟩
  | cons name names ih =>
    by_cases present : .name name ∈ p.written
    · rw [encodeUnwritten_cons_of_mem present]
      have rest := ih p
      have kept := (rest.mem (.name name)).mpr (.inl present)
      have written (q : Progress) : writtenNames p q (name :: names) = writtenNames p q names := by
        ext other
        by_cases same : other = name
        · simp [same, mem_writtenNames, present]
        · simp [same, mem_writtenNames]
      constructor
      · intro c
        rw [rest.mem]
        simp [NamesAdd, present]
      · rw [rest.skipped, namesDropped, namesDropped, written,
          List.countP_cons_of_neg (by simpa using kept)]
    · rcases s.encodeName_spec p name with ⟨can, text, encoded⟩ | ⟨cannot, encoded⟩
      · rw [encodeUnwritten_cons_of_some present encoded]
        exact names_gains_encoded present can (s.name_gains name p) (ih _)
      · rw [encodeUnwritten_cons_of_none present encoded]
        exact names_gains_skipped present cannot (ih p.skip)

theorem namesDropped_congr {p p' q q' : Progress} (names : List NameId)
    (before : ∀ name, .name name ∈ p.written ↔ .name name ∈ p'.written)
    (after : ∀ name, .name name ∈ q.written ↔ .name name ∈ q'.written)
    (variants : ∀ v, .variant v ∈ q.written ↔ .variant v ∈ q'.written) :
    s.namesDropped p q names = s.namesDropped p' q' names := by
  have missing : s.missingVariants q = s.missingVariants q' := by
    funext name
    simp only [missingVariants, variants]
  simp only [namesDropped, writtenNames, before, after, missing]

variable (s)

theorem encodeLocators_gains (id : TopicId) (kind : LocatorKind) (p : Progress) :
    p.Gains
      (fun c => ∃ iri ∈ (s.source.topic id).locators kind, s.writesLocator kind iri = true ∧
        c = .locator id kind iri) 0 (s.encodeLocators id kind p).1 := by
  have injective : ∀ x y, Construct.locator id kind x = .locator id kind y → x = y := by
    intro x y same
    injection same
  have gains := encodeUnwritten_gains (s.encodeLocator_spec id kind) injective
    (((s.source.topic id).locators kind).filter (s.writesLocator kind)) p
  constructor
  · intro c
    rw [encodeLocators, gains.mem]
    simp [ItemsAdd, and_assoc]
  · rw [encodeLocators, gains.skipped]
    congr 1
    rw [List.countP_eq_zero]
    intro iri member
    have written := (gains.mem (.locator id kind iri)).mpr (.inr ⟨iri, member, trivial, rfl⟩)
    simpa using written

theorem encodeEachLocators_gains (id : TopicId) (p : Progress) :
    p.Gains
      (fun c => ∃ kind, ∃ iri ∈ (s.source.topic id).locators kind,
        s.writesLocator kind iri = true ∧ c = .locator id kind iri) 0
      (s.encodeLocators id .itemIdentifier
        (s.encodeLocators id .subjectLocator
          (s.encodeLocators id .subjectIdentifier p).1).1).1 := by
  have indicators := s.encodeLocators_gains id .subjectIdentifier p
  have places := s.encodeLocators_gains id .subjectLocator
    (s.encodeLocators id .subjectIdentifier p).1
  have all := (indicators.trans places).trans (s.encodeLocators_gains id .itemIdentifier _)
  refine ⟨?_, all.skipped⟩
  intro c
  rw [all.mem]
  constructor
  · rintro (old | (indicator | place) | item)
    · exact .inl old
    · exact .inr ⟨_, indicator⟩
    · exact .inr ⟨_, place⟩
    · exact .inr ⟨_, item⟩
  · rintro (old | ⟨kind, found⟩)
    · exact .inl old
    · cases kind with
      | subjectIdentifier => exact .inr (.inl (.inl found))
      | subjectLocator => exact .inr (.inl (.inr found))
      | itemIdentifier => exact .inr (.inr found)

def TypesAdd (id : TopicId) (c : Construct) : Prop :=
  (∃ type ∈ s.typesOf id, s.IsNamed type ∧ c = .typing id type) ∨
    ∃ supertype ∈ s.supertypesOf id, s.IsNamed supertype ∧ c = .subtyping id supertype

def typesDropped (id : TopicId) (q : Progress) : Nat :=
  ((s.typesOf id).countP fun type => .typing id type ∉ q.written) +
    (s.supertypesOf id).countP fun supertype => .subtyping id supertype ∉ q.written

theorem encodeTypes_gains (id : TopicId) (p : Progress) :
    let q := (s.encodeTypes id p).1
    p.Gains (s.TypesAdd id) (s.typesDropped id q) q := by
  intro q
  have types := encodeUnwritten_gains (s.encodeRelation_spec "isa " (.typing id))
    (fun _ _ same => (Construct.typing.inj same).2) (s.typesOf id) p
  have supertypes := encodeUnwritten_gains (s.encodeRelation_spec "ako " (.subtyping id))
    (fun _ _ same => (Construct.subtyping.inj same).2) (s.supertypesOf id)
    (encodeUnwritten (.typing id) (s.encodeRelation "isa " (.typing id)) (s.typesOf id) p).1
  have both := types.trans supertypes
  refine ⟨both.mem, both.skipped.trans ?_⟩
  have same : ∀ type, .typing id type ∈ q.written ↔ .typing id type ∈
      (encodeUnwritten (.typing id) (s.encodeRelation "isa " (.typing id)) (s.typesOf id)
        p).1.written := by
    intro type
    exact supertypes.keeps (by simp [ItemsAdd])
  simp only [typesDropped, same]
  rfl

/-- What a block adds behind the invocations, apart from types. -/
def CharacteristicsAdd (p : Progress) (id : TopicId) (c : Construct) : Prop :=
  s.NamesAdd p (s.source.topic id).names c ∨
    (∃ o ∈ (s.source.topic id).occurrences, s.OccurrenceEncodable o ∧ c = .occurrence o) ∨
    ∃ kind, ∃ iri ∈ (s.source.topic id).locators kind, s.writesLocator kind iri = true ∧
      c = .locator id kind iri

def characteristicsDropped (p q : Progress) (id : TopicId) : Nat :=
  s.namesDropped p q (s.source.topic id).names +
    (s.source.topic id).occurrences.countP fun o => .occurrence o ∉ q.written

theorem encodeCharacteristics_gains (id : TopicId) (p : Progress) :
    let q := (s.encodeCharacteristics id p).1
    p.Gains (s.CharacteristicsAdd p id) (s.characteristicsDropped p q id) q := by
  intro q
  have names := s.names_gains (s.source.topic id).names p
  have occurrences := encodeUnwritten_gains s.encodeOccurrence_spec
    (fun _ _ => Construct.occurrence.inj) (s.source.topic id).occurrences
    (encodeUnwritten .name s.encodeName (s.source.topic id).names p).1
  have locators := s.encodeEachLocators_gains id (encodeUnwritten .occurrence s.encodeOccurrence
    (s.source.topic id).occurrences
    (encodeUnwritten .name s.encodeName (s.source.topic id).names p).1).1
  have rest := occurrences.trans locators
  have all := names.trans rest
  refine ⟨all.mem, all.skipped.trans ?_⟩
  have dropped : s.namesDropped p (encodeUnwritten .name s.encodeName
      (s.source.topic id).names p).1 (s.source.topic id).names =
        s.namesDropped p q (s.source.topic id).names := by
    apply namesDropped_congr
    · intro name
      rfl
    · intro name
      exact (rest.keeps (by simp [ItemsAdd])).symm
    · intro v
      exact (rest.keeps (by simp [ItemsAdd])).symm
  have same : ∀ o, .occurrence o ∈ q.written ↔ .occurrence o ∈ (encodeUnwritten .occurrence
      s.encodeOccurrence (s.source.topic id).occurrences (encodeUnwritten .name s.encodeName
        (s.source.topic id).names p).1).1.written := by
    intro o
    exact locators.keeps (by simp)
  simp only [characteristicsDropped, same, ← dropped]
  rfl

def afterInvocations (p : Progress) (id : TopicId) : Progress :=
  match s.identity? id with
  | none => p
  | some identity =>
    (s.invokeTemplates id s.templates (p.mark (.locator id identity.kind identity.iri))).1

theorem afterInvocations_skipped (p : Progress) (id : TopicId) :
    (s.afterInvocations p id).skipped = p.skipped := by
  rw [afterInvocations]
  cases s.identity? id with
  | none => rfl
  | some identity =>
    have step : ∀ t ∈ s.templates, ∀ q m, (s.matcher q).matchTopic? t id = some m →
        q.skipped = p.skipped → (q.markAll m.claims).skipped = p.skipped :=
      fun _ _ _ _ _ same => same
    obtain ⟨q, texts, invoked, same⟩ := invokeTemplates_induction
      (motive := fun q => q.skipped = p.skipped) step
      (p.mark (.locator id identity.kind identity.iri)) rfl
    simp only [invoked]
    exact same

theorem writeTopic_of_reserved {id : TopicId} (p : Progress) (reserved : s.isReserved id = true) :
    s.writeTopic p id = (p, .ok none) := by
  rw [writeTopic, if_pos reserved]

theorem writeTopic_of_anonymous {id : TopicId} (p : Progress)
    (unreserved : s.isReserved id = false) (anonymous : ¬ s.IsNamed id) :
    s.writeTopic p id = (p.skip, .ok none) := by
  have missing : s.identity? id = none := by
    rw [← Option.not_isSome_iff_eq_none, identity?_isSome]
    exact anonymous
  simp only [writeTopic, unreserved, missing]
  rfl

theorem writeTopic_gains {id : TopicId} (p : Progress) (unreserved : s.isReserved id = false)
    (named : s.IsNamed id) :
    ∃ q piece, s.writeTopic p id = (q, .ok (some piece)) ∧
      (s.afterInvocations p id).Gains
        (fun c => s.TypesAdd id c ∨ s.CharacteristicsAdd (s.afterInvocations p id) id c)
        (s.typesDropped id q + s.characteristicsDropped (s.afterInvocations p id) q id) q := by
  obtain ⟨identity, identified⟩ := Option.isSome_iff_exists.mp ((s.identity?_isSome id).mpr named)
  obtain ⟨p₁, invocations, invoked⟩ := s.invokeTemplates_ok id s.templates
    (p.mark (.locator id identity.kind identity.iri))
  have after : s.afterInvocations p id = p₁ := by
    simp only [afterInvocations, identified, invoked]
  rw [after]
  have types := s.encodeTypes_gains id p₁
  have rest := s.encodeCharacteristics_gains id (s.encodeTypes id p₁).1
  have written : ∃ piece, s.writeTopic p id =
      ((s.encodeCharacteristics id (s.encodeTypes id p₁).1).1, .ok (some piece)) := by
    simp only [writeTopic, unreserved, identified, invoked]
    exact ⟨_, rfl⟩
  rcases written with ⟨piece, written⟩
  refine ⟨_, piece, written, ?_⟩
  generalize (s.encodeTypes id p₁).1 = p₂ at types rest
  generalize (s.encodeCharacteristics id p₂).1 = q at rest
  have names : ∀ name, .name name ∈ p₂.written ↔ .name name ∈ p₁.written := by
    intro name
    exact types.keeps (by simp [TypesAdd])
  have added : s.CharacteristicsAdd p₂ id = s.CharacteristicsAdd p₁ id := by
    funext c
    simp only [CharacteristicsAdd, NamesAdd, names]
  have dropped : s.characteristicsDropped p₂ q id = s.characteristicsDropped p₁ q id := by
    rw [characteristicsDropped, characteristicsDropped,
      namesDropped_congr _ names (fun _ => Iff.rfl) fun _ => Iff.rfl]
  have typesKept : s.typesDropped id p₂ = s.typesDropped id q := by
    have typings : ∀ type, .typing id type ∈ q.written ↔ .typing id type ∈ p₂.written := by
      intro type
      exact rest.keeps (by simp [CharacteristicsAdd, NamesAdd, NameAdds])
    have subtypings : ∀ supertype,
        .subtyping id supertype ∈ q.written ↔ .subtyping id supertype ∈ p₂.written := by
      intro supertype
      exact rest.keeps (by simp [CharacteristicsAdd, NamesAdd, NameAdds])
    simp only [typesDropped, typings, subtypings]
  have both := types.trans rest
  rw [added, dropped, typesKept] at both
  exact both

/-- The names of a topic that a literal statement writes. -/
def literalNames (p q : Progress) (id : TopicId) : Finset NameId :=
  writtenNames (s.afterInvocations p id) q (s.source.topic id).names

/-- Nothing of a topic is missing without a reason, and what is missing has been counted. -/
structure Complete (p q : Progress) (id : TopicId) : Prop where
  types : ∀ type ∈ s.typesOf id, s.IsNamed type → .typing id type ∈ q.written
  supertypes : ∀ supertype ∈ s.supertypesOf id, s.IsNamed supertype →
    .subtyping id supertype ∈ q.written
  names : ∀ name ∈ (s.source.topic id).names, s.NameEncodable name → .name name ∈ q.written
  variants : ∀ name ∈ s.literalNames p q id, ∀ v ∈ (s.source.name name).variants,
    s.VariantEncodable v → .variant v ∈ q.written
  occurrences : ∀ o ∈ (s.source.topic id).occurrences, s.OccurrenceEncodable o →
    .occurrence o ∈ q.written
  subjectIdentifiers : ∀ iri ∈ (s.source.topic id).subjectIdentifiers,
    .locator id .subjectIdentifier iri ∈ q.written
  subjectLocators : ∀ iri ∈ (s.source.topic id).subjectLocators,
    .locator id .subjectLocator iri ∈ q.written
  itemIdentifiers : ∀ iri ∈ (s.source.topic id).itemIdentifiers,
    s.settings.writeItemIdentifiers = true → s.isSystem iri = false →
      .locator id .itemIdentifier iri ∈ q.written
  skipped : q.skipped = p.skipped +
    ((s.typesOf id).countP fun type => .typing id type ∉ q.written) +
    ((s.supertypesOf id).countP fun supertype => .subtyping id supertype ∉ q.written) +
    ((s.source.topic id).names.countP fun name => .name name ∉ q.written) +
    ((s.source.topic id).occurrences.countP fun o => .occurrence o ∉ q.written) +
    ∑ name ∈ s.literalNames p q id,
      (s.source.name name).variants.countP fun v => .variant v ∉ q.written

theorem writeTopic_complete {id : TopicId} (p : Progress) (unreserved : s.isReserved id = false)
    (named : s.IsNamed id) :
    ∃ q piece, s.writeTopic p id = (q, .ok (some piece)) ∧ s.Complete p q id := by
  obtain ⟨q, piece, written, gains⟩ := s.writeTopic_gains p unreserved named
  have added : ∀ c, s.TypesAdd id c ∨ s.CharacteristicsAdd (s.afterInvocations p id) id c →
      c ∈ q.written := fun c adds => (gains.mem c).mpr (.inr adds)
  have located : ∀ kind, ∀ iri ∈ (s.source.topic id).locators kind,
      s.writesLocator kind iri = true → .locator id kind iri ∈ q.written := by
    intro kind iri member allowed
    exact added _ (.inr (.inr (.inr ⟨kind, iri, member, allowed, rfl⟩)))
  refine ⟨q, piece, written, ?_⟩
  constructor
  · intro type member can
    exact added _ (.inl (.inl ⟨type, member, can, rfl⟩))
  · intro supertype member can
    exact added _ (.inl (.inr ⟨supertype, member, can, rfl⟩))
  · intro name member can
    by_cases earlier : .name name ∈ (s.afterInvocations p id).written
    · exact (gains.mem _).mpr (.inl earlier)
    · exact added _ (.inr (.inl ⟨name, member, earlier, can, .inl rfl⟩))
  · intro name literal v member can
    obtain ⟨listed, fresh, marked⟩ := mem_writtenNames.mp literal
    have encodable : s.NameEncodable name := by
      rcases (gains.mem _).mp marked with old | types | names | others
      · exact absurd old fresh
      · simp [TypesAdd] at types
      · rcases names with ⟨other, _, _, encodable, adds⟩
        exact adds.name ▸ encodable
      · simp at others
    exact added _ (.inr (.inl ⟨name, listed, fresh, encodable, .inr ⟨v, member, can, rfl⟩⟩))
  · intro o member can
    exact added _ (.inr (.inr (.inl ⟨o, member, can, rfl⟩)))
  · intro iri member
    exact located .subjectIdentifier iri member rfl
  · intro iri member
    exact located .subjectLocator iri member rfl
  · intro iri member allowed foreign
    exact located .itemIdentifier iri member (by simp [writesLocator, allowed, foreign])
  · rw [gains.skipped, afterInvocations_skipped, typesDropped, characteristicsDropped, namesDropped,
      literalNames]
    simp only [missingVariants]
    omega

theorem invokeForAssociation_of_mem (templates : List Template) {p : Progress} {id : AssociationId}
    (present : .association id ∈ p.written) :
    s.invokeForAssociation id templates p = (p, .ok []) := by
  induction templates with
  | nil => rfl
  | cons t ts ih =>
    have unadaptive : ¬ s.isAdaptiveForAssociation p t id = true := by
      intro adaptive
      obtain ⟨m, found⟩ := isAdaptiveForAssociation_iff.mp adaptive
      obtain ⟨_, _, _, isOpen, _⟩ := Matcher.matchAssociation?_spec found
      simp only [Matcher.isOpen, Bool.and_eq_true] at isOpen
      exact (Matcher.available_iff.mp isOpen.1).1 present
    rw [invokeForAssociation, if_neg unadaptive]
    exact ih

/-- The first template that applies claims an association with all its roles, so that no other
applies. -/
theorem invokeForAssociation_spec (templates : List Template) (p : Progress)
    (id : AssociationId) :
    s.invokeForAssociation id templates p = (p, .ok []) ∨
      ∃ t ∈ templates, ∃ m line, (s.matcher p).matchAssociation? t id = some m ∧
        s.invokeForAssociation id templates p = (p.markAll m.claims, .ok [line]) ∧
        ∃ chosen : List RoleId, chosen.Perm (s.source.association id).roles ∧
          m.claims = .association id :: chosen.map .role := by
  induction templates with
  | nil => exact .inl rfl
  | cons t ts ih =>
    rw [invokeForAssociation]
    split
    · rename_i adaptive
      obtain ⟨m, found⟩ := isAdaptiveForAssociation_iff.mp adaptive
      obtain ⟨arguments, extracted, _⟩ := extractAssociation_ok found
      obtain ⟨_, _, _, _, matched⟩ := Matcher.matchAssociation?_spec found
      obtain ⟨chosen, perm, takes, _⟩ := Matcher.association?_spec matched
      have claims : m.claims = .association id :: chosen.map .role := by
        simpa using takes.claims
      have present : .association id ∈ (p.markAll m.claims).written :=
        Written.mem_insertAll.mpr (.inl (by simp [claims]))
      simp only [extracted, s.invokeForAssociation_of_mem ts present]
      exact .inr ⟨t, List.mem_cons_self, m, _, found, rfl, chosen, perm, claims⟩
    · rcases ih with none | ⟨u, member, found⟩
      · exact .inl none
      · exact .inr ⟨u, List.mem_cons_of_mem t member, found⟩

theorem writeAssociation_of_closed {p : Progress} {id : AssociationId}
    (closed : .association id ∈ p.written ∨ s.typing.isFolded id = true) :
    s.writeAssociation p id = (p, .ok none) := by
  rw [writeAssociation, if_pos (by simpa using closed)]

def AssociationAdds (id : AssociationId) (c : Construct) : Prop :=
  c = .association id ∨ ∃ role ∈ (s.source.association id).roles, c = .role role

theorem writeAssociation_gains {p : Progress} {id : AssociationId}
    (absent : .association id ∉ p.written) (unfolded : s.typing.isFolded id = false) :
    (∃ q piece, s.writeAssociation p id = (q, .ok (some piece)) ∧
      p.Gains (s.AssociationAdds id) 0 q ∧
      (s.AssociationEncodable id ∨
        ∃ t ∈ s.templates, s.isAdaptiveForAssociation p t id = true)) ∨
      (¬ s.AssociationEncodable id ∧ s.writeAssociation p id = (p.skip, .ok none)) := by
  have isOpen : ¬ (decide (.association id ∈ p.written) || s.typing.isFolded id) = true := by
    simp [absent, unfolded]
  rw [writeAssociation, if_neg isOpen]
  rcases s.invokeForAssociation_spec s.templates p id with
    none | ⟨t, member, m, line, found, invoked, chosen, perm, claims⟩
  · rw [none]
    rcases s.encodeAssociation_spec p id with ⟨can, text, encoded⟩ | ⟨cannot, encoded⟩
    · simp only [encoded]
      refine .inl ⟨_, _, rfl, ⟨?_, rfl⟩, .inl can⟩
      intro c
      simp only [Progress.markAll, Written.mem_insertAll, Progress.mem_mark, List.mem_map,
        AssociationAdds, eq_comm (a := Construct.role _)]
      rw [or_comm, or_comm (a := c = .association id), or_assoc]
    · simp only [encoded]
      exact .inr ⟨cannot, trivial⟩
  · rw [invoked]
    have adaptive : s.isAdaptiveForAssociation p t id = true :=
      isAdaptiveForAssociation_iff.mpr ⟨m, found⟩
    refine .inl ⟨_, _, rfl, ⟨?_, rfl⟩, .inr ⟨t, member, adaptive⟩⟩
    intro c
    simp only [Progress.markAll, Written.mem_insertAll, claims, List.mem_cons, List.mem_map,
      perm.mem_iff, AssociationAdds, eq_comm (a := Construct.role _)]
    rw [or_comm]

/-- A topic that has a locator and is not reserved gets a block under its identity, after which
nothing of it is missing without a reason; an association that is open gets its line or invocations
with all its roles, or is skipped for a reason. -/
theorem no_silent_loss (s : Session) (p : Progress) :
    (∀ id, s.isReserved id = false → s.IsNamed id →
      ∃ q trace, s.traceTopic p id = (q, trace) ∧ s.IsBlock id trace ∧
        s.writeTopic p id = (q, .ok (some ⟨trace.text, trace.invocations.length⟩)) ∧
        s.Complete p q id) ∧
    ∀ id, .association id ∉ p.written → s.typing.isFolded id = false →
      (∃ q trace, s.traceAssociation p id = (q, trace) ∧ s.IsEntry id trace ∧
        s.writeAssociation p id = (q, .ok (some ⟨trace.text, trace.invocations.length⟩)) ∧
        .association id ∈ q.written ∧
        (∀ role ∈ (s.source.association id).roles, .role role ∈ q.written) ∧
        q.skipped = p.skipped) ∨
      (¬ s.AssociationEncodable id ∧ s.writeAssociation p id = (p.skip, .ok none)) := by
  constructor
  · intro id unreserved named
    obtain ⟨q, piece, written, complete⟩ := s.writeTopic_complete p unreserved named
    obtain ⟨trace, traced, block, rfl⟩ := s.writeTopic_block written
    exact ⟨q, trace, traced, block, written, complete⟩
  · intro id absent unfolded
    rcases s.writeAssociation_gains absent unfolded with ⟨q, piece, written, gains, _⟩ | skipped
    · obtain ⟨trace, traced, entry, rfl⟩ := s.writeAssociation_entry written
      have association : .association id ∈ q.written := (gains.mem _).mpr (.inr (.inl rfl))
      have roles : ∀ role ∈ (s.source.association id).roles, .role role ∈ q.written :=
        fun role member => (gains.mem _).mpr (.inr (.inr ⟨role, member, rfl⟩))
      exact .inl ⟨q, trace, traced, entry, written, association, roles, gains.skipped⟩
    · exact .inr skipped

/-- The village without templates; the type of its occurrence has no locator. -/
def plainVillage : Session :=
  { source := village.source, settings := {}, table := .empty, typing := {} }

theorem village_complete :
    plainVillage.isReserved ⟨0⟩ = false ∧ plainVillage.IsNamed ⟨0⟩ ∧
      (∃ q trace, plainVillage.IsBlock ⟨0⟩ trace ∧
        plainVillage.writeTopic {} ⟨0⟩ =
          (q, .ok (some ⟨trace.text, trace.invocations.length⟩)) ∧
        q.skipped = 1 ∧ plainVillage.Complete {} q ⟨0⟩) ∧
      .association ⟨0⟩ ∉ ({} : Progress).written ∧
      ∃ q trace, plainVillage.IsEntry ⟨0⟩ trace ∧
        plainVillage.writeAssociation {} ⟨0⟩ =
          (q, .ok (some ⟨trace.text, trace.invocations.length⟩)) ∧
        .role ⟨0⟩ ∈ q.written := by
  have unreserved : plainVillage.isReserved ⟨0⟩ = false := by rfl
  have named : plainVillage.IsNamed ⟨0⟩ := by decide
  have absent : .association ⟨0⟩ ∉ ({} : Progress).written := by decide
  have encodable : plainVillage.AssociationEncodable ⟨0⟩ := by
    unfold AssociationEncodable RoleEncodable
    decide
  have both := no_silent_loss plainVillage {}
  refine ⟨unreserved, named, ?_, absent, ?_⟩
  · obtain ⟨q, trace, _, block, written, complete⟩ := both.1 ⟨0⟩ unreserved named
    have once : (plainVillage.writeTopic {} ⟨0⟩).1.skipped = 1 := by rfl
    rw [written] at once
    exact ⟨q, trace, block, written, once, complete⟩
  · rcases both.2 ⟨0⟩ absent rfl with ⟨q, trace, _, entry, written, _, roles, _⟩ | ⟨cannot, _⟩
    · exact ⟨q, trace, entry, written, roles ⟨0⟩ (by decide)⟩
    · exact absurd encodable cannot

end Session
end CompactTopicMap
