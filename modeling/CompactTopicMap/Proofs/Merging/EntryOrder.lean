import CompactTopicMap.Template.Order
import Mathlib.Data.List.Basic

namespace CompactTopicMap

section Orders

instance : Ord TopicRef where
  compare
    | .fixed a, .fixed b => compare a.index b.index
    | .fixed _, .var _ => .lt
    | .var _, .fixed _ => .gt
    | .var a, .var b => compare a b

instance : Ord VariantPattern where
  compare a b := (((compare a.value b.value).then (compare a.datatype b.datatype)).then
    (compare a.scope b.scope)).then (compare a.reifier b.reifier)

instance : Ord NamePattern where
  compare a b := ((((compare a.type b.type).then (compare a.value b.value)).then
    (compare a.scope b.scope)).then (compare a.reifier b.reifier)).then (compare a.variants b.variants)

instance : Ord OccurrencePattern where
  compare a b := ((((compare a.type b.type).then (compare a.value b.value)).then
    (compare a.datatype b.datatype)).then (compare a.scope b.scope)).then (compare a.reifier b.reifier)

instance : Ord RolePattern where
  compare a b := ((compare a.type b.type).then (compare a.player b.player)).then
    (compare a.reifier b.reifier)

instance : Ord AssociationPattern where
  compare a b := (((compare a.type b.type).then (compare a.roles b.roles)).then
    (compare a.scope b.scope)).then (compare a.reifier b.reifier)

instance : Ord LocatorKind := ⟨compareOn LocatorKind.rank⟩

instance : Ord TemplateKind := ⟨compareOn TemplateKind.rank⟩

def Statement.place : Statement → Nat
  | isa _ => 0
  | ako _ => 1
  | name _ => 2
  | occurrence _ => 3
  | variant _ => 4
  | role _ => 5
  | association _ => 6
  | identifier _ _ => 7
  | reifier _ => 8
  | scope _ => 9

instance : Ord Statement where
  compare
    | .isa a, .isa b => compare a b
    | .ako a, .ako b => compare a b
    | .name a, .name b => compare a b
    | .occurrence a, .occurrence b => compare a b
    | .variant a, .variant b => compare a b
    | .role a, .role b => compare a b
    | .association a, .association b => compare a b
    | .identifier k a, .identifier l b => (compare k l).then (compare a b)
    | .reifier a, .reifier b => compare a b
    | .scope a, .scope b => compare a b
    | a, b => compare a.place b.place

namespace Entry

mutual

def order : Entry → Entry → Ordering
  | statement a, statement b => compare a b
  | statement _, _ => .lt
  | invocation _ _ _, statement _ => .gt
  | invocation n k es, invocation m l fs =>
    ((compare n m).then (compare k l)).then (orderAll es fs)
  | invocation _ _ _, group _ => .lt
  | group es, group fs => orderAll es fs
  | group _, _ => .gt

def orderAll : List Entry → List Entry → Ordering
  | [], [] => .eq
  | [], _ :: _ => .lt
  | _ :: _, [] => .gt
  | a :: as, b :: bs => (order a b).then (orderAll as bs)

end

end Entry

instance : Ord Entry := ⟨Entry.order⟩

end Orders

section Codes

/-- Keys with something behind them are compared as the items with these keys, and then as what stands
behind. -/
structure Codes {α : Type} [Ord α] (key : α → List Nat) : Prop where
  compare_append : ∀ a b u v,
    compare (key a ++ u) (key b ++ v) = (compare a b).then (compare u v)

variable {α : Type} [Ord α] {key : α → List Nat}

theorem compare_cons_self (n : Nat) (u v : List Nat) : compare (n :: u) (n :: v) = compare u v := by
  rw [List.compare_cons_cons, Nat.compare_eq_eq.mpr rfl, Ordering.eq_then]

theorem compare_cons_of_lt {m n : Nat} (less : m < n) (u v : List Nat) :
    compare (m :: u) (n :: v) = .lt := by
  rw [List.compare_cons_cons, Nat.compare_eq_lt.mpr less, Ordering.lt_then]

theorem compare_cons_of_gt {m n : Nat} (greater : n < m) (u v : List Nat) :
    compare (m :: u) (n :: v) = .gt := by
  rw [List.compare_cons_cons, Nat.compare_eq_gt.mpr greater, Ordering.gt_then]

theorem Codes.compare_key (codes : Codes key) (a b : α) : compare (key a) (key b) = compare a b := by
  have whole := codes.compare_append a b [] []
  rwa [List.append_nil, List.append_nil, List.compare_nil_nil, Ordering.then_eq] at whole

theorem listKey_codes (codes : Codes key) : Codes (listKey key) where
  compare_append as bs u v := by
    induction as generalizing bs with
    | nil =>
      cases bs with
      | nil => exact compare_cons_self 0 u v
      | cons b bs => exact compare_cons_of_lt Nat.zero_lt_one _ _
    | cons a as ih =>
      cases bs with
      | nil => exact compare_cons_of_gt Nat.zero_lt_one _ _
      | cons b bs =>
        rw [listKey, listKey, List.cons_append, List.cons_append, List.cons_append, List.cons_append,
          compare_cons_self, List.append_assoc, List.append_assoc, codes.compare_append, ih,
          List.compare_cons_cons, Ordering.then_assoc]

theorem optionKey_codes (codes : Codes key) : Codes (optionKey key) where
  compare_append a b u v := by
    cases a with
    | none =>
      cases b with
      | none => exact compare_cons_self 0 u v
      | some b => exact compare_cons_of_lt Nat.zero_lt_one _ _
    | some a =>
      cases b with
      | none => exact compare_cons_of_gt Nat.zero_lt_one _ _
      | some b =>
        simp only [optionKey, List.cons_append, compare_cons_self, codes.compare_append]
        rfl

theorem compare_chars (cs ds : List Char) (u v : List Nat) :
    compare (cs.map (·.toNat + 1) ++ 0 :: u) (ds.map (·.toNat + 1) ++ 0 :: v) =
      (compareOfLessAndEq cs ds).then (compare u v) := by
  induction cs generalizing ds with
  | nil =>
    cases ds with
    | nil => exact compare_cons_self 0 u v
    | cons d ds => exact compare_cons_of_lt (Nat.succ_pos _) _ _
  | cons c cs ih =>
    cases ds with
    | nil => exact compare_cons_of_gt (Nat.succ_pos _) _ _
    | cons d ds =>
      rw [List.map_cons, List.map_cons, List.cons_append, List.cons_append]
      rcases Nat.lt_trichotomy c.toNat d.toNat with less | same | greater
      · have before : c :: cs < d :: ds := List.cons_lt_cons_iff.mpr (.inl less)
        rw [compare_cons_of_lt (Nat.succ_lt_succ less), compareOfLessAndEq, if_pos before]
        rfl
      · obtain rfl := Char.toNat_inj.mp same
        have tails : compareOfLessAndEq (c :: cs) (c :: ds) = compareOfLessAndEq cs ds := by
          simp [compareOfLessAndEq]
        rw [compare_cons_self, ih, tails]
      · have behind : ¬ c :: cs < d :: ds := by
          rw [List.cons_lt_cons_iff, not_or, not_and]
          exact ⟨Nat.lt_asymm greater, fun same => absurd (same ▸ greater) (Nat.lt_irrefl _)⟩
        have differ : c :: cs ≠ d :: ds := fun same =>
          Nat.lt_irrefl _ ((List.cons.inj same).1 ▸ greater)
        rw [compare_cons_of_gt (Nat.succ_lt_succ greater), compareOfLessAndEq, if_neg behind,
          if_neg differ]
        rfl

theorem textKey_codes : Codes textKey where
  compare_append a b u v := by
    have texts : compare a b = compareOfLessAndEq a.toList b.toList := by
      show compareOfLessAndEq a b = _
      simp only [compareOfLessAndEq, String.lt_iff, String.toList_inj]
    rw [texts, textKey, textKey, List.append_assoc, List.append_assoc]
    exact compare_chars a.toList b.toList u v

theorem TopicRef.codes : Codes TopicRef.key where
  compare_append
    | .fixed _, .fixed _, _, _ => (compare_cons_self 0 _ _).trans List.compare_cons_cons
    | .fixed _, .var _, _, _ => compare_cons_of_lt Nat.zero_lt_one _ _
    | .var _, .fixed _, _, _ => compare_cons_of_gt Nat.zero_lt_one _ _
    | .var a, .var b, u, v => (compare_cons_self 1 _ _).trans (textKey_codes.compare_append a b u v)

theorem ScopePattern.codes : Codes ScopePattern.key :=
  optionKey_codes (listKey_codes TopicRef.codes)

theorem ReifierPattern.codes : Codes ReifierPattern.key := optionKey_codes TopicRef.codes

theorem VariantPattern.codes : Codes VariantPattern.key where
  compare_append a b u v := by
    simp only [key, List.append_assoc, textKey_codes.compare_append, ScopePattern.codes.compare_append,
      ReifierPattern.codes.compare_append, ← Ordering.then_assoc]
    rfl

theorem NamePattern.codes : Codes NamePattern.key where
  compare_append a b u v := by
    simp only [key, List.append_assoc, TopicRef.codes.compare_append, textKey_codes.compare_append,
      ScopePattern.codes.compare_append, ReifierPattern.codes.compare_append,
      (listKey_codes VariantPattern.codes).compare_append, ← Ordering.then_assoc]
    rfl

theorem OccurrencePattern.codes : Codes OccurrencePattern.key where
  compare_append a b u v := by
    simp only [key, List.append_assoc, TopicRef.codes.compare_append, textKey_codes.compare_append,
      ScopePattern.codes.compare_append, ReifierPattern.codes.compare_append, ← Ordering.then_assoc]
    rfl

theorem RolePattern.codes : Codes RolePattern.key where
  compare_append a b u v := by
    simp only [key, List.append_assoc, TopicRef.codes.compare_append,
      ReifierPattern.codes.compare_append, ← Ordering.then_assoc]
    rfl

theorem AssociationPattern.codes : Codes AssociationPattern.key where
  compare_append a b u v := by
    simp only [key, List.append_assoc, TopicRef.codes.compare_append, ScopePattern.codes.compare_append,
      (listKey_codes RolePattern.codes).compare_append, ReifierPattern.codes.compare_append,
      ← Ordering.then_assoc]
    rfl

theorem Statement.key_eq (s : Statement) : s.key = s.place :: s.key.tail := by
  cases s <;> rfl

theorem Statement.compare_of_place_ne {a b : Statement} (differ : a.place ≠ b.place) :
    compare a b = compare a.place b.place := by
  cases a <;> cases b <;> first | exact absurd rfl differ | rfl

theorem Statement.compare_append_of_place_eq (a b : Statement) (u v : List Nat)
    (same : a.place = b.place) :
    compare (a.key ++ u) (b.key ++ v) = (compare a b).then (compare u v) := by
  cases a <;> cases b <;> try exact absurd same (Nat.ne_of_beq_eq_false rfl)
  case isa.isa a b => exact (compare_cons_self 0 _ _).trans (TopicRef.codes.compare_append a b u v)
  case ako.ako a b => exact (compare_cons_self 1 _ _).trans (TopicRef.codes.compare_append a b u v)
  case name.name a b =>
    exact (compare_cons_self 2 _ _).trans (NamePattern.codes.compare_append a b u v)
  case occurrence.occurrence a b =>
    exact (compare_cons_self 3 _ _).trans (OccurrencePattern.codes.compare_append a b u v)
  case variant.variant a b =>
    exact (compare_cons_self 4 _ _).trans (VariantPattern.codes.compare_append a b u v)
  case role.role a b =>
    exact (compare_cons_self 5 _ _).trans (RolePattern.codes.compare_append a b u v)
  case association.association a b =>
    exact (compare_cons_self 6 _ _).trans (AssociationPattern.codes.compare_append a b u v)
  case identifier.identifier k a l b =>
    calc compare (7 :: k.rank :: (textKey a ++ u)) (7 :: l.rank :: (textKey b ++ v))
        = (compare k.rank l.rank).then (compare (textKey a ++ u) (textKey b ++ v)) := by
          rw [compare_cons_self, List.compare_cons_cons]
      _ = ((compare k l).then (compare a b)).then (compare u v) := by
          rw [textKey_codes.compare_append, Ordering.then_assoc]
          rfl
  case reifier.reifier a b =>
    exact (compare_cons_self 8 _ _).trans (TopicRef.codes.compare_append a b u v)
  case scope.scope a b =>
    exact (compare_cons_self 9 _ _).trans ((listKey_codes TopicRef.codes).compare_append a b u v)

theorem Statement.codes : Codes Statement.key where
  compare_append a b u v := by
    by_cases same : a.place = b.place
    · exact Statement.compare_append_of_place_eq a b u v same
    · rw [key_eq a, key_eq b, compare_of_place_ne same, List.cons_append, List.cons_append,
        List.compare_cons_cons]
      cases decided : compare a.place b.place with
      | lt | gt => rfl
      | eq => exact absurd (Nat.compare_eq_eq.mp decided) same

theorem Statement.place_lt (s : Statement) : s.place < 10 := by
  cases s <;> exact Nat.le_of_ble_eq_true rfl

theorem Statement.compare_key_lt (s : Statement) {place : Nat} (behind : 10 ≤ place)
    (u v : List Nat) : compare (s.key ++ u) (place :: v) = .lt := by
  rw [s.key_eq]
  exact compare_cons_of_lt (Nat.lt_of_lt_of_le s.place_lt behind) _ _

theorem Statement.compare_key_gt (s : Statement) {place : Nat} (behind : 10 ≤ place)
    (u v : List Nat) : compare (place :: u) (s.key ++ v) = .gt := by
  rw [s.key_eq]
  exact compare_cons_of_gt (Nat.lt_of_lt_of_le s.place_lt behind) _ _

namespace Entry

mutual

theorem key_compare_append : (a b : Entry) → (u v : List Nat) →
    compare (a.key ++ u) (b.key ++ v) = (a.order b).then (compare u v)
  | .statement a, .statement b, u, v => Statement.codes.compare_append a b u v
  | .statement a, .invocation _ _ _, _, _ | .statement a, .group _, _, _ =>
    a.compare_key_lt (by decide) _ _
  | .invocation _ _ _, .statement b, _, _ | .group _, .statement b, _, _ =>
    b.compare_key_gt (by decide) _ _
  | .invocation _ _ _, .group _, _, _ => compare_cons_of_lt (by decide) _ _
  | .group _, .invocation _ _ _, _, _ => compare_cons_of_gt (by decide) _ _
  | .invocation n k es, .invocation m l fs, u, v => by
    show compare (10 :: (textKey n ++ k.rank :: keyAll es ++ u))
      (10 :: (textKey m ++ l.rank :: keyAll fs ++ v)) = _
    rw [compare_cons_self, List.append_assoc, List.append_assoc, textKey_codes.compare_append,
      List.cons_append, List.cons_append, List.compare_cons_cons, keyAll_compare_append es fs, order,
      Ordering.then_assoc, Ordering.then_assoc]
    rfl
  | .group es, .group fs, u, v =>
    (compare_cons_self 11 _ _).trans (keyAll_compare_append es fs u v)

theorem keyAll_compare_append : (as bs : List Entry) → (u v : List Nat) →
    compare (keyAll as ++ u) (keyAll bs ++ v) = (orderAll as bs).then (compare u v)
  | [], [], u, v => compare_cons_self 0 u v
  | [], _ :: _, _, _ => compare_cons_of_lt Nat.zero_lt_one _ _
  | _ :: _, [], _, _ => compare_cons_of_gt Nat.zero_lt_one _ _
  | a :: as, b :: bs, u, v => by
    show compare (1 :: (a.key ++ keyAll as ++ u)) (1 :: (b.key ++ keyAll bs ++ v)) = _
    rw [compare_cons_self, List.append_assoc, List.append_assoc, key_compare_append a b,
      keyAll_compare_append as bs, orderAll, Ordering.then_assoc]

end

theorem codes : Codes Entry.key := ⟨key_compare_append⟩

end Entry

end Codes

section Equality

theorem Codes.lawfulEqOrd {α : Type} [Ord α] {key : α → List Nat} (codes : Codes key)
    (equal : ∀ a b : α, compare a b = .eq → a = b) : Std.LawfulEqOrd α where
  compare_self {a} := by rw [← codes.compare_key, Std.compare_eq_iff_eq]
  eq_of_compare := equal _ _

instance : Std.LawfulEqOrd TopicRef := TopicRef.codes.lawfulEqOrd fun
  | .fixed _, .fixed _, same => congrArg (TopicRef.fixed ⟨·⟩) (Nat.compare_eq_eq.mp same)
  | .var _, .var _, same => congrArg TopicRef.var (Std.compare_eq_iff_eq.mp same)

instance : Std.LawfulEqOrd VariantPattern := VariantPattern.codes.lawfulEqOrd fun a b same => by
  rcases a with ⟨v, d, s, r⟩
  rcases b with ⟨v', d', s', r'⟩
  replace same : (((compare v v').then (compare d d')).then (compare s s')).then
    (compare r r') = .eq := same
  simp only [Ordering.then_eq_eq, Std.compare_eq_iff_eq] at same
  simp [same]

instance : Std.LawfulEqOrd NamePattern := NamePattern.codes.lawfulEqOrd fun a b same => by
  rcases a with ⟨t, v, s, r, vs⟩
  rcases b with ⟨t', v', s', r', vs'⟩
  replace same : ((((compare t t').then (compare v v')).then (compare s s')).then
    (compare r r')).then (compare vs vs') = .eq := same
  simp only [Ordering.then_eq_eq, Std.compare_eq_iff_eq] at same
  simp [same]

instance : Std.LawfulEqOrd OccurrencePattern := OccurrencePattern.codes.lawfulEqOrd fun a b same => by
  rcases a with ⟨t, v, d, s, r⟩
  rcases b with ⟨t', v', d', s', r'⟩
  replace same : ((((compare t t').then (compare v v')).then (compare d d')).then
    (compare s s')).then (compare r r') = .eq := same
  simp only [Ordering.then_eq_eq, Std.compare_eq_iff_eq] at same
  simp [same]

instance : Std.LawfulEqOrd RolePattern := RolePattern.codes.lawfulEqOrd fun a b same => by
  rcases a with ⟨t, p, r⟩
  rcases b with ⟨t', p', r'⟩
  replace same : ((compare t t').then (compare p p')).then (compare r r') = .eq := same
  simp only [Ordering.then_eq_eq, Std.compare_eq_iff_eq] at same
  simp [same]

instance : Std.LawfulEqOrd AssociationPattern :=
  AssociationPattern.codes.lawfulEqOrd fun a b same => by
    rcases a with ⟨t, rs, s, r⟩
    rcases b with ⟨t', rs', s', r'⟩
    replace same : (((compare t t').then (compare rs rs')).then (compare s s')).then
      (compare r r') = .eq := same
    simp only [Ordering.then_eq_eq, Std.compare_eq_iff_eq] at same
    simp [same]

theorem LocatorKind.compare_eq_eq {k l : LocatorKind} : compare k l = .eq ↔ k = l := by
  cases k <;> cases l <;> decide

theorem TemplateKind.compare_eq_eq {k l : TemplateKind} : compare k l = .eq ↔ k = l := by
  cases k <;> cases l <;> decide

theorem Statement.eq_of_compare (a b : Statement) (same : compare a b = .eq) : a = b := by
  by_cases places : a.place = b.place
  · cases a <;> cases b <;> try exact absurd places (Nat.ne_of_beq_eq_false rfl)
    case isa.isa => exact congrArg isa (Std.compare_eq_iff_eq.mp same)
    case ako.ako => exact congrArg ako (Std.compare_eq_iff_eq.mp same)
    case name.name => exact congrArg name (Std.compare_eq_iff_eq.mp same)
    case occurrence.occurrence => exact congrArg occurrence (Std.compare_eq_iff_eq.mp same)
    case variant.variant => exact congrArg variant (Std.compare_eq_iff_eq.mp same)
    case role.role => exact congrArg role (Std.compare_eq_iff_eq.mp same)
    case association.association => exact congrArg association (Std.compare_eq_iff_eq.mp same)
    case identifier.identifier =>
      obtain ⟨kinds, values⟩ := Ordering.then_eq_eq.mp same
      rw [LocatorKind.compare_eq_eq.mp kinds, Std.compare_eq_iff_eq.mp values]
    case reifier.reifier => exact congrArg reifier (Std.compare_eq_iff_eq.mp same)
    case scope.scope => exact congrArg scope (Std.compare_eq_iff_eq.mp same)
  · rw [compare_of_place_ne places] at same
    exact absurd (Nat.compare_eq_eq.mp same) places

instance : Std.LawfulEqOrd Statement := Statement.codes.lawfulEqOrd Statement.eq_of_compare

namespace Entry

mutual

theorem eq_of_order : (a b : Entry) → a.order b = .eq → a = b
  | .statement _, .statement _, same => congrArg statement (Std.compare_eq_iff_eq.mp same)
  | .invocation n k es, .invocation m l fs, same => by
    obtain ⟨heads, bodies⟩ := Ordering.then_eq_eq.mp same
    obtain ⟨names, kinds⟩ := Ordering.then_eq_eq.mp heads
    rw [Std.compare_eq_iff_eq.mp names, TemplateKind.compare_eq_eq.mp kinds,
      eq_of_orderAll es fs bodies]
  | .group es, .group fs, same => congrArg group (eq_of_orderAll es fs same)

theorem eq_of_orderAll : (as bs : List Entry) → orderAll as bs = .eq → as = bs
  | [], [], _ => rfl
  | a :: as, b :: bs, same => by
    obtain ⟨heads, tails⟩ := Ordering.then_eq_eq.mp same
    rw [eq_of_order a b heads, eq_of_orderAll as bs tails]

end

instance : Std.LawfulEqOrd Entry := codes.lawfulEqOrd eq_of_order

instance : Std.TransOrd Entry where
  eq_swap {a b} := by
    rw [← codes.compare_key, ← codes.compare_key]
    exact Std.OrientedCmp.eq_swap
  isLE_trans {a b c} first second := by
    rw [← codes.compare_key] at *
    exact Std.TransCmp.isLE_trans first second

end Entry

end Equality

end CompactTopicMap
