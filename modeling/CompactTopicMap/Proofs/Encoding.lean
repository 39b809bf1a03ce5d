import CompactTopicMap.Proofs.Completeness

namespace CompactTopicMap.Session

variable (s : Session)

/-- The topics that the text of a variant must refer to; and so for the other constructs. -/
def variantReferences (id : VariantId) : List TopicId := (s.source.variant id).scope

def nameReferences (id : NameId) : List TopicId :=
  let name := s.source.name id
  (if s.isDefaultNameType name.type then [] else [name.type]) ++ name.scope

def occurrenceReferences (id : OccurrenceId) : List TopicId :=
  let occurrence := s.source.occurrence id
  occurrence.type :: occurrence.scope

def roleReferences (id : RoleId) : List TopicId :=
  let role := s.source.role id
  [role.type, role.player]

def associationReferences (id : AssociationId) : List TopicId :=
  let association := s.source.association id
  association.type :: association.roles.flatMap s.roleReferences ++ association.scope

theorem variantEncodable_iff (id : VariantId) :
    s.VariantEncodable id ↔ ∀ topic ∈ s.variantReferences id, s.IsNamed topic :=
  Iff.rfl

theorem nameEncodable_iff (id : NameId) :
    s.NameEncodable id ↔ ∀ topic ∈ s.nameReferences id, s.IsNamed topic := by
  rw [NameEncodable, nameReferences, List.forall_mem_append]
  by_cases standard : s.isDefaultNameType (s.source.name id).type = true <;> simp [standard]

theorem occurrenceEncodable_iff (id : OccurrenceId) :
    s.OccurrenceEncodable id ↔ ∀ topic ∈ s.occurrenceReferences id, s.IsNamed topic := by
  rw [OccurrenceEncodable, occurrenceReferences, List.forall_mem_cons]

theorem roleEncodable_iff (id : RoleId) :
    s.RoleEncodable id ↔ ∀ topic ∈ s.roleReferences id, s.IsNamed topic := by
  simp [RoleEncodable, roleReferences]

theorem associationEncodable_iff (id : AssociationId) :
    s.AssociationEncodable id ↔ ∀ topic ∈ s.associationReferences id, s.IsNamed topic := by
  simp only [AssociationEncodable, associationReferences, roleEncodable_iff, List.cons_append,
    List.forall_mem_cons, List.forall_mem_append, List.forall_mem_flatMap]

/-- The outcome of an encoder. It fails exactly if one of the topics has no locator, and then the
progress is what it was; with a text, it has marked what is `added` and skipped what is dropped. -/
structure AllOrNothing (p : Progress) (references : List TopicId) (added : Construct → Prop)
    (dropped : Nat) (outcome : Progress × Option String) : Prop where
  fails : outcome.2 = none ↔ ∃ topic ∈ references, ¬s.IsNamed topic
  unchanged : outcome.2 = none → outcome.1 = p
  gains : outcome.2.isSome → p.Gains added dropped outcome.1

variable {s}

theorem allOrNothing_of_encodes {α : Type} {Encodable : α → Prop}
    {after : Progress → α → Progress} {encode : Progress → α → Progress × Option String}
    (encodes : Encodes Encodable after encode) {p : Progress} {item : α}
    {references : List TopicId} {added : Construct → Prop} {dropped : Nat}
    (needs : Encodable item ↔ ∀ topic ∈ references, s.IsNamed topic)
    (gains : p.Gains added dropped (after p item)) :
    s.AllOrNothing p references added dropped (encode p item) := by
  have missing : ¬Encodable item ↔ ∃ topic ∈ references, ¬s.IsNamed topic := by
    rw [needs]
    push Not
    rfl
  rcases encodes p item with ⟨can, text, encoded⟩ | ⟨cannot, encoded⟩
  · rw [encoded]
    refine ⟨⟨nofun, fun lost => absurd can (missing.mpr lost)⟩, nofun, fun _ => gains⟩
  · rw [encoded]
    exact ⟨⟨fun _ => missing.mp cannot, fun _ => rfl⟩, fun _ => rfl, nofun⟩

theorem mark_gains (p : Progress) (c : Construct) : p.Gains (· = c) 0 (p.mark c) where
  mem other := by rw [Progress.mem_mark, or_comm]
  skipped := rfl

theorem mark_markAll_gains (p : Progress) (c : Construct) (parts : List Construct) :
    p.Gains (fun other => other = c ∨ other ∈ parts) 0 ((p.mark c).markAll parts) where
  mem other := by
    rw [Progress.markAll, Written.mem_insertAll, Progress.mem_mark]
    tauto
  skipped := rfl

variable (s)

/-- What the text of a name adds to the constructs written before: the name, and those of its variants
that were not written and have only themes with locators. -/
def NameMarks (p : Progress) (name : NameId) (c : Construct) : Prop :=
  c = .name name ∨ ∃ v ∈ (s.source.name name).variants, .variant v ∉ p.written ∧
    (∀ topic ∈ s.variantReferences v, s.IsNamed topic) ∧ c = .variant v

def lostVariants (p : Progress) (name : NameId) : Nat :=
  (s.source.name name).variants.countP fun v =>
    .variant v ∉ p.written ∧ ∃ topic ∈ s.variantReferences v, ¬s.IsNamed topic

theorem name_marks (p : Progress) (name : NameId) :
    p.Gains (s.NameMarks p name) (s.lostVariants p name)
      ((s.encodeVariants (s.source.name name).variants p).1.mark (.name name)) := by
  have gains := s.name_gains name p
  constructor
  · intro c
    rw [gains.mem]
    constructor
    · rintro (old | rfl | ⟨v, listed, can, rfl⟩)
      · exact .inl old
      · exact .inr (.inl rfl)
      · by_cases old : .variant v ∈ p.written
        · exact .inl old
        · exact .inr (.inr ⟨v, listed, old, can, rfl⟩)
    · rintro (old | rfl | ⟨v, listed, _, can, rfl⟩)
      · exact .inl old
      · exact .inr (.inl rfl)
      · exact .inr (.inr ⟨v, listed, can, rfl⟩)
  · rw [gains.skipped, missingVariants, lostVariants]
    congr 1
    apply List.countP_congr
    intro v listed
    have adds : s.NameAdds name (.variant v) ↔ s.VariantEncodable v :=
      ⟨NameAdds.variant, fun can => .inr ⟨v, listed, can, rfl⟩⟩
    rw [decide_eq_true_iff, decide_eq_true_iff, gains.mem, adds, s.variantEncodable_iff]
    push Not
    rfl

/-- A variant, a name, an occurrence or an association is encoded, with all that is marked with it, or
nothing happens. -/
theorem encoders_all_or_nothing (s : Session) (p : Progress) :
    (∀ id, s.AllOrNothing p (s.variantReferences id) (· = .variant id) 0 (s.encodeVariant p id)) ∧
    (∀ id, s.AllOrNothing p (s.nameReferences id) (s.NameMarks p id) (s.lostVariants p id)
      (s.encodeName p id)) ∧
    (∀ id, s.AllOrNothing p (s.occurrenceReferences id) (· = .occurrence id) 0
      (s.encodeOccurrence p id)) ∧
    ∀ id, s.AllOrNothing p (s.associationReferences id)
      (fun c => c = .association id ∨ c ∈ (s.source.association id).roles.map .role) 0
      (s.encodeAssociation p id) := by
  refine ⟨fun id => ?_, fun id => ?_, fun id => ?_, fun id => ?_⟩
  · exact allOrNothing_of_encodes s.encodeVariant_spec (s.variantEncodable_iff id) (mark_gains p _)
  · exact allOrNothing_of_encodes s.encodeName_spec (s.nameEncodable_iff id) (s.name_marks p id)
  · exact allOrNothing_of_encodes s.encodeOccurrence_spec (s.occurrenceEncodable_iff id)
      (mark_gains p _)
  · exact allOrNothing_of_encodes s.encodeAssociation_spec (s.associationEncodable_iff id)
      (mark_markAll_gains p _ _)

def quietVillage : Session :=
  { plainVillage with
    source := (village.createVariant ⟨0⟩ "hamlet" Iri.string [⟨1⟩]).1.source }

theorem village_all_or_nothing :
    quietVillage.encodeOccurrence {} ⟨0⟩ = ({}, none) ∧
      ∃ q text, quietVillage.encodeName {} ⟨0⟩ = (q, some text) ∧ q.skipped = 1 ∧
        .name ⟨0⟩ ∈ q.written ∧ .variant ⟨0⟩ ∈ q.written ∧ .variant ⟨1⟩ ∉ q.written := by
  obtain ⟨_, names, occurrences, _⟩ := encoders_all_or_nothing quietVillage {}
  constructor
  · have fails := (occurrences ⟨0⟩).fails.mpr ⟨⟨1⟩, by decide, by decide⟩
    exact Prod.ext ((occurrences ⟨0⟩).unchanged fails) fails
  · have written : ((quietVillage.encodeName {} ⟨0⟩).2).isSome = true := by
      rw [Option.isSome_iff_ne_none, ne_eq, (names ⟨0⟩).fails]
      decide
    have gains := (names ⟨0⟩).gains written
    obtain ⟨text, encoded⟩ := Option.isSome_iff_exists.mp written
    refine ⟨_, text, Prod.ext rfl encoded, ?_, ?_, ?_, ?_⟩
    · rw [gains.skipped]
      decide
    · exact (gains.mem _).mpr (.inr (.inl rfl))
    · exact (gains.mem _).mpr (.inr (.inr ⟨⟨0⟩, by decide⟩))
    · rw [gains.mem]
      unfold NameMarks
      decide

end CompactTopicMap.Session
