import CompactTopicMap.Session.Encode

namespace CompactTopicMap

/-- An encoder that gives a text and goes on as `after` says for what is `Encodable`, and otherwise
changes nothing. -/
def Encodes {α : Type} (Encodable : α → Prop) (after : Progress → α → Progress)
    (encode : Progress → α → Progress × Option String) : Prop :=
  ∀ p item,
    (Encodable item ∧ ∃ text, encode p item = (after p item, some text)) ∨
      (¬ Encodable item ∧ encode p item = (p, none))

theorem Naming.select?_isSome (naming : Naming) (topic : Topic) :
    (naming.select? topic).isSome = !topic.isAnonymous := by
  cases indicators : topic.subjectIdentifiers with
  | cons iri rest =>
    simp [select?, Topic.isAnonymous, LocatorKind.all, Topic.locators, indicators]
  | nil =>
    cases places : topic.subjectLocators with
    | cons iri rest =>
      simp [select?, Topic.isAnonymous, LocatorKind.all, Topic.locators, indicators, places]
    | nil =>
      cases items : topic.itemIdentifiers with
      | cons iri rest =>
        simp [select?, Topic.isAnonymous, LocatorKind.all, Topic.locators, indicators, places,
          items]
      | nil =>
        simp [select?, Topic.isAnonymous, LocatorKind.all, Topic.locators, indicators, places,
          items]

theorem mapM_isSome {α β : Type} (f : α → Option β) (items : List α) :
    (items.mapM f).isSome = items.all fun item => (f item).isSome := by
  induction items with
  | nil => rfl
  | cons item items ih =>
    rw [List.mapM_cons, List.all_cons, ← ih]
    cases f item with
    | none => rfl
    | some x => cases items.mapM f <;> rfl

namespace Session

section Loop

variable {α β : Type} {construct : α → Construct}
  {encode : Progress → α → Progress × Option β} {p q : Progress} {item : α}

theorem encodeUnwritten_cons_of_mem (present : construct item ∈ p.written) (items : List α) :
    encodeUnwritten construct encode (item :: items) p =
      encodeUnwritten construct encode items p := by
  rw [encodeUnwritten, if_pos present]

theorem encodeUnwritten_cons_of_some (fresh : construct item ∉ p.written) {text : β}
    (encoded : encode p item = (q, some text)) (items : List α) :
    encodeUnwritten construct encode (item :: items) p =
      ((encodeUnwritten construct encode items q).1,
        text :: (encodeUnwritten construct encode items q).2) := by
  rw [encodeUnwritten, if_neg fresh, encoded]

theorem encodeUnwritten_cons_of_none (fresh : construct item ∉ p.written)
    (encoded : encode p item = (q, none)) (items : List α) :
    encodeUnwritten construct encode (item :: items) p =
      encodeUnwritten construct encode items q.skip := by
  rw [encodeUnwritten, if_neg fresh, encoded]

end Loop

variable (s : Session)

/-- The topic has a locator, by which it can be referred to. -/
def IsNamed (id : TopicId) : Prop := (s.source.topic id).isAnonymous = false

instance (id : TopicId) : Decidable (s.IsNamed id) :=
  inferInstanceAs (Decidable ((s.source.topic id).isAnonymous = false))

theorem identity?_isSome (id : TopicId) : (s.identity? id).isSome ↔ s.IsNamed id := by
  simp [identity?, Naming.identity?, Naming.select?_isSome, IsNamed]

theorem reference?_isSome (id : TopicId) : (s.reference? id).isSome ↔ s.IsNamed id := by
  rw [← identity?_isSome]
  simp [reference?]

theorem encodeScope_isSome (themes : List TopicId) :
    (s.encodeScope themes).isSome ↔ ∀ theme ∈ themes, s.IsNamed theme := by
  simp [encodeScope, mapM_isSome, reference?_isSome]

theorem encodeNameType_isSome (type : TopicId) :
    (s.encodeNameType type).isSome ↔ s.isDefaultNameType type = true ∨ s.IsNamed type := by
  rw [encodeNameType]
  by_cases standard : s.isDefaultNameType type <;> simp [standard, reference?_isSome]

/-- The topics that a variant must refer to have locators. -/
def VariantEncodable (id : VariantId) : Prop :=
  ∀ theme ∈ (s.source.variant id).scope, s.IsNamed theme

def NameEncodable (id : NameId) : Prop :=
  (s.isDefaultNameType (s.source.name id).type = true ∨ s.IsNamed (s.source.name id).type) ∧
    ∀ theme ∈ (s.source.name id).scope, s.IsNamed theme

def OccurrenceEncodable (id : OccurrenceId) : Prop :=
  s.IsNamed (s.source.occurrence id).type ∧
    ∀ theme ∈ (s.source.occurrence id).scope, s.IsNamed theme

def RoleEncodable (id : RoleId) : Prop :=
  s.IsNamed (s.source.role id).type ∧ s.IsNamed (s.source.role id).player

def AssociationEncodable (id : AssociationId) : Prop :=
  s.IsNamed (s.source.association id).type ∧
    (∀ role ∈ (s.source.association id).roles, s.RoleEncodable role) ∧
    ∀ theme ∈ (s.source.association id).scope, s.IsNamed theme

theorem variantParts?_isSome (id : VariantId) :
    (s.variantParts? id).isSome ↔ s.VariantEncodable id := by
  unfold VariantEncodable variantParts?
  rw [← encodeScope_isSome]
  cases scope : s.encodeScope (s.source.variant id).scope <;> simp [scope]

theorem encodeRole_isSome (id : RoleId) : (s.encodeRole id).isSome ↔ s.RoleEncodable id := by
  unfold RoleEncodable encodeRole
  rw [← reference?_isSome, ← reference?_isSome]
  cases type : s.reference? (s.source.role id).type with
  | none => simp [type]
  | some text =>
    cases player : s.reference? (s.source.role id).player <;> simp [type, player]

theorem encodeVariant_spec :
    Encodes s.VariantEncodable (fun p id => p.mark (.variant id)) s.encodeVariant := by
  intro p id
  rw [← variantParts?_isSome]
  rw [encodeVariant]
  cases s.variantParts? id <;> simp

theorem encodeName_spec :
    Encodes s.NameEncodable
      (fun p id => (s.encodeVariants (s.source.name id).variants p).1.mark (.name id))
      s.encodeName := by
  intro p id
  rw [NameEncodable]
  rw [← encodeNameType_isSome, ← encodeScope_isSome]
  simp only [encodeName]
  cases type : s.encodeNameType (s.source.name id).type with
  | none => simp
  | some text => cases scope : s.encodeScope (s.source.name id).scope <;> simp

theorem encodeOccurrence_spec :
    Encodes s.OccurrenceEncodable (fun p id => p.mark (.occurrence id)) s.encodeOccurrence := by
  intro p id
  rw [OccurrenceEncodable]
  rw [← reference?_isSome, ← encodeScope_isSome]
  simp only [encodeOccurrence]
  cases type : s.reference? (s.source.occurrence id).type with
  | none => simp
  | some text => cases scope : s.encodeScope (s.source.occurrence id).scope <;> simp

theorem encodeRelation_spec (keyword : String) (construct : TopicId → Construct) :
    Encodes s.IsNamed (fun p other => p.mark (construct other))
      (s.encodeRelation keyword construct) := by
  intro p other
  rw [← reference?_isSome]
  rw [encodeRelation]
  cases s.reference? other <;> simp

theorem encodeLocator_spec (id : TopicId) (kind : LocatorKind) :
    Encodes (fun _ => True) (fun p iri => p.mark (.locator id kind iri))
      (s.encodeLocator id kind) :=
  fun _ _ => .inl ⟨trivial, _, rfl⟩

theorem encodeRoles_isSome (roles : List RoleId) :
    (roles.mapM s.encodeRole).isSome ↔ ∀ role ∈ roles, s.RoleEncodable role := by
  simp [mapM_isSome, encodeRole_isSome]

theorem encodeAssociation_spec :
    Encodes s.AssociationEncodable
      (fun p id =>
        (p.mark (.association id)).markAll ((s.source.association id).roles.map .role))
      s.encodeAssociation := by
  intro p id
  rw [AssociationEncodable]
  rw [← reference?_isSome, ← encodeRoles_isSome, ← encodeScope_isSome]
  simp only [encodeAssociation]
  cases type : s.reference? (s.source.association id).type with
  | none => simp
  | some text =>
    cases roles : (s.source.association id).roles.mapM s.encodeRole with
    | none => simp
    | some texts => cases scope : s.encodeScope (s.source.association id).scope <;> simp

end Session
end CompactTopicMap
