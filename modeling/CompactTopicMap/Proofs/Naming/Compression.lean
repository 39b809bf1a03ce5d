import CompactTopicMap.Proofs.Naming.PercentDecoding
import Mathlib.Data.List.Basic

namespace CompactTopicMap

namespace Text

theorem isInert_of_ge {octet : UInt8} (high : 128 ≤ octet.toNat) : IsInert octet := by
  constructor
  · rintro rfl
    exact absurd high (by decide)
  · have above : ¬ octet.toNat ≤ 57 ∧ ¬ octet.toNat ≤ 70 ∧ ¬ octet.toNat ≤ 102 := by omega
    simp only [hexValue?, above.1, above.2.1, above.2.2, and_false, if_false]

theorem ge_of_mem_utf8EncodeChar {c : Char} (beyond : 128 ≤ c.toNat) {octet : UInt8}
    (member : octet ∈ String.utf8EncodeChar c) : 128 ≤ octet.toNat := by
  have wide : ¬ c.val.toNat ≤ 127 := by
    have : c.toNat = c.val.toNat := rfl
    omega
  simp only [String.utf8EncodeChar, wide, if_false] at member
  split at member
  · simp only [List.mem_cons, List.not_mem_nil, or_false] at member
    rcases member with rfl | rfl <;> simp <;> omega
  · split at member
    · simp only [List.mem_cons, List.not_mem_nil, or_false] at member
      rcases member with rfl | rfl | rfl <;> simp <;> omega
    · simp only [List.mem_cons, List.not_mem_nil, or_false] at member
      rcases member with rfl | rfl | rfl | rfl <;> simp <;> omega

end Text

section Brackets

theorem escapedInBrackets_ascii : ∀ code < 128, escapedInBrackets (.ofNat code) = true →
    ∀ octet ∈ String.utf8EncodeChar (.ofNat code),
      octet ≠ Text.percentSign ∧ Text.hexValue? octet = none := by
  decide +kernel

theorem isInert_of_escapedInBrackets (c : Char) (escaped : escapedInBrackets c = true) :
    ∀ octet ∈ String.utf8EncodeChar c, Text.IsInert octet := by
  intro octet member
  by_cases ascii : c.toNat < 128
  · have small := escapedInBrackets_ascii c.toNat ascii
    rw [Char.ofNat_toNat] at small
    exact small escaped octet member
  · exact Text.isInert_of_ge (Text.ge_of_mem_utf8EncodeChar (by omega) member)

theorem unescaped_ascii : ∀ code < 128, isNameChar (.ofNat code) = true →
    escapedInBrackets (.ofNat code) = false ∧ escapedInLocalPart (.ofNat code) = false := by
  decide +kernel

theorem unescaped_of_isNameChar {c : Char} (nameChar : isNameChar c = true) :
    escapedInBrackets c = false ∧ escapedInLocalPart c = false := by
  have range := toNat_of_isNameChar nameChar
  have ascii := unescaped_ascii c.toNat (by omega)
  rw [Char.ofNat_toNat] at ascii
  exact ascii nameChar

/-- What stands in angle brackets for an address: no blank and no delimiter, and read with its encoded
octets it is the address. -/
structure Bracketed (iri body : String) : Prop where
  plain : ∀ c ∈ body.toList, Text.isBlank c = false ∧ c ∉ bracketEscapes
  decoded : Text.percentDecode (Text.octets body.toList) =
    Text.percentDecode (Text.octets iri.toList)

theorem absoluteReference_bracketed (iri : String) :
    ∃ body, absoluteReference iri = "<" ++ body ++ ">" ∧ Bracketed iri body := by
  refine ⟨.ofList (Text.percentWhere escapedInBrackets iri.toList), ?_, ?_, ?_⟩
  · apply String.toList_inj.mp
    simp [absoluteReference]
  · intro c member
    rw [String.toList_ofList] at member
    have kept : escapedInBrackets c = false := by
      rcases Text.mem_percentWhere member with ⟨_, kept⟩ | rfl | alphanumeric
      · exact kept
      · decide
      · exact (unescaped_of_isNameChar (by simp [isNameChar, alphanumeric])).1
    simpa [escapedInBrackets] using kept
  · rw [String.toList_ofList]
    exact Text.percentDecode_percentWhere isInert_of_escapedInBrackets iri.toList

end Brackets

section Parts

structure PlainPart (part : List Char) : Prop where
  nonempty : part ≠ []
  chars : ∀ c ∈ part, c.isAlphanum = true ∨ c = '_' ∨ c = '-' ∨ c = '.'
  ended : part.getLast? ≠ some '.'

theorem isLocalPart_iff {part : List Char} : isLocalPart part = true ↔ PlainPart part := by
  have chars (c : Char) : (isNameChar c || c == '.') = true ↔
      c.isAlphanum = true ∨ c = '_' ∨ c = '-' ∨ c = '.' := by
    simp [isNameChar, or_assoc]
  simp only [isLocalPart, Bool.and_eq_true, List.all_eq_true, chars]
  constructor
  · rintro ⟨⟨nonempty, ended⟩, chars⟩
    exact ⟨by simpa using nonempty, chars, by simpa using ended⟩
  · rintro ⟨nonempty, chars, ended⟩
    exact ⟨⟨by simpa using nonempty, by simpa using ended⟩, chars⟩

theorem escapeLocalPart_eq_self {text : String}
    (plain : isLocalPart (escapeLocalPart text).toList = true) : escapeLocalPart text = text := by
  have none_escaped : ∀ c ∈ text.toList, escapedInLocalPart c = false := by
    intro c member
    cases escaped : escapedInLocalPart c with
    | false => rfl
    | true =>
      obtain ⟨octet, octets, coded⟩ : ∃ octet octets, String.utf8EncodeChar c = octet :: octets :=
        List.exists_cons_of_ne_nil (by simp [String.utf8EncodeChar_ne_nil])
      have sign : '%' ∈ (escapeLocalPart text).toList := by
        simp only [escapeLocalPart, String.toList_ofList, Text.percentWhere, List.mem_flatMap]
        exact ⟨c, member, by simp [escaped, Text.percentChar, coded, Text.percentOctet]⟩
      simp only [isLocalPart, Bool.and_eq_true, List.all_eq_true] at plain
      exact absurd (plain.2 '%' sign) (by decide)
  rw [escapeLocalPart, Text.percentWhere_eq_self none_escaped, String.ofList_toList]

theorem PlainPart.escapeLocalPart_eq {text : String} (plain : PlainPart text.toList) :
    escapeLocalPart text = text := by
  have none_escaped : ∀ c ∈ text.toList, escapedInLocalPart c = false := by
    intro c member
    rcases plain.chars c member with alphanumeric | rfl | rfl | rfl
    · exact (unescaped_of_isNameChar (by simp [isNameChar, alphanumeric])).2
    all_goals decide
  rw [escapeLocalPart, Text.percentWhere_eq_self none_escaped, String.ofList_toList]

theorem isLocalPart_escapeLocalPart_iff {text : String} :
    isLocalPart (escapeLocalPart text).toList = true ↔ PlainPart text.toList := by
  constructor
  · intro plain
    have same := escapeLocalPart_eq_self plain
    exact isLocalPart_iff.mp (same ▸ plain)
  · intro plain
    rw [plain.escapeLocalPart_eq]
    exact isLocalPart_iff.mpr plain

end Parts

namespace PrefixTable

variable {table : PrefixTable} {iri : String} {b : Binding}

section Longest

/-- The namespace of the binding is longer than that of the other one, or as long and its label is not
before the other one. -/
def Outranks (b other : Binding) : Prop :=
  other.space.length < b.space.length ∨
    other.space.length = b.space.length ∧ other.label ≤ b.label

inductive Chooses (bindings : List Binding) : Option Binding → Prop
  | none (empty : bindings = []) : Chooses bindings none
  | some {b : Binding} (member : b ∈ bindings) (greatest : ∀ other ∈ bindings, Outranks b other) :
    Chooses bindings (some b)

def longer (best : Option Binding) (b : Binding) : Option Binding :=
  match best with
  | none => some b
  | some best => if best.space.length ≤ b.space.length then some b else some best

theorem longest?_eq (table : PrefixTable) (iri : String) : table.longest? iri =
    (table.bindings.filter fun b => Iri.startsWith iri b.space).foldl longer none := rfl

theorem Chooses.next {seen : List Binding} {best : Option Binding} (chooses : Chooses seen best)
    (last : ∀ other ∈ seen, other.label < b.label) : Chooses (seen ++ [b]) (longer best b) := by
  have member : b ∈ seen ++ [b] := List.mem_append_right _ (List.mem_singleton_self b)
  have itself : Outranks b b := .inr ⟨rfl, String.le_refl _⟩
  cases chooses with
  | none empty =>
    subst empty
    exact .some member fun other inside => List.mem_singleton.mp inside ▸ itself
  | @some best inside greatest =>
    rw [longer]
    split
    · rename_i longer
      refine .some member fun other here => ?_
      rcases List.mem_append.mp here with earlier | same
      · have before : other.label ≤ b.label := String.not_lt.mp (String.lt_asymm (last other earlier))
        rcases greatest other earlier with shorter | ⟨same, _⟩
        · exact .inl (by omega)
        · rcases Nat.lt_or_eq_of_le longer with less | equal
          · exact .inl (by omega)
          · exact .inr ⟨by omega, before⟩
      · exact List.mem_singleton.mp same ▸ itself
    · rename_i shorter
      refine .some (List.mem_append_left _ inside) fun other here => ?_
      rcases List.mem_append.mp here with earlier | same
      · exact greatest other earlier
      · exact .inl (List.mem_singleton.mp same ▸ Nat.lt_of_not_le shorter)

theorem Chooses.foldl {seen rest : List Binding} {best : Option Binding}
    (chooses : Chooses seen best) (ordered : (seen ++ rest).Pairwise (·.label < ·.label)) :
    Chooses (seen ++ rest) (rest.foldl longer best) := by
  induction rest generalizing seen best with
  | nil => rwa [List.append_nil]
  | cons b rest ih =>
    rw [List.append_cons] at ordered ⊢
    have last : ∀ other ∈ seen, other.label < b.label := fun other member =>
      (List.pairwise_append.mp (List.pairwise_append.mp ordered).1).2.2 other member b
        (List.mem_singleton_self b)
    exact ih (chooses.next last) ordered

/-- No longer bound namespace starts the address, and of the labels of this one, the binding has the
last. -/
structure LongestFor (table : PrefixTable) (iri : String) (b : Binding) : Prop where
  bound : b ∈ table.bindings
  starts : b.space.toList <+: iri.toList
  longest : ∀ other ∈ table.bindings, other.space.toList <+: iri.toList →
    other.space.length ≤ b.space.length
  last : ∀ other ∈ table.bindings, other.space = b.space → other.label ≤ b.label

theorem mem_filter_startsWith {other : Binding} :
    other ∈ table.bindings.filter (fun b => Iri.startsWith iri b.space) ↔
      other ∈ table.bindings ∧ other.space.toList <+: iri.toList := by
  rw [List.mem_filter, Iri.startsWith, List.isPrefixOf_iff_prefix]

theorem space_eq_of_length_eq {b b' : Binding} (starts : b.space.toList <+: iri.toList)
    (starts' : b'.space.toList <+: iri.toList) (same : b.space.length = b'.space.length) :
    b.space = b'.space := by
  apply String.toList_inj.mp
  rw [← String.length_toList, ← String.length_toList] at same
  exact (List.prefix_of_prefix_length_le starts starts' (Nat.le_of_eq same)).eq_of_length same

theorem longest?_chooses (table : PrefixTable) (iri : String) :
    Chooses (table.bindings.filter fun b => Iri.startsWith iri b.space) (table.longest? iri) := by
  have start : Chooses [] none := .none rfl
  rw [longest?_eq]
  exact start.foldl (table.ordered.filter _)

theorem longest?_eq_some_iff : table.longest? iri = some b ↔ table.LongestFor iri b := by
  have chooses := table.longest?_chooses iri
  generalize table.longest? iri = chosen at chooses
  cases chooses with
  | none empty =>
    refine ⟨nofun, fun longest => ?_⟩
    have inside := mem_filter_startsWith.mpr ⟨longest.bound, longest.starts⟩
    rw [empty] at inside
    cases inside
  | @some best member greatest =>
    obtain ⟨bound, starts⟩ := mem_filter_startsWith.mp member
    have chosen : table.LongestFor iri best := by
      refine ⟨bound, starts, fun other known begins => ?_, fun other known same => ?_⟩
      · have outranks := greatest other (mem_filter_startsWith.mpr ⟨known, begins⟩)
        exact outranks.elim Nat.le_of_lt fun equal => Nat.le_of_eq equal.1
      · have outranks := greatest other (mem_filter_startsWith.mpr ⟨known, same ▸ starts⟩)
        exact outranks.elim (fun less => absurd (same ▸ less) (Nat.lt_irrefl _)) fun equal => equal.2
    constructor
    · rintro ⟨rfl⟩
      exact chosen
    · intro other
      have length := Nat.le_antisymm (other.longest best bound starts)
        (chosen.longest b other.bound other.starts)
      have space := space_eq_of_length_eq starts other.starts length
      have label := String.le_antisymm (other.last best bound space)
        (chosen.last b other.bound space.symm)
      obtain ⟨bestLabel, bestSpace⟩ := best
      obtain ⟨label', space'⟩ := b
      simp_all

end Longest

/-- The address consists of the longest namespace that starts it, and a part that may stand behind the
label of that namespace as it is. -/
structure Splits (table : PrefixTable) (iri : String) (b : Binding) (part : String) : Prop where
  longest : table.LongestFor iri b
  whole : iri = b.space ++ part
  plain : PlainPart part.toList

inductive Compresses (table : PrefixTable) (iri : String) : String × IdentityForm → Prop
  | qualifiedName {b : Binding} {part : String} (splits : table.Splits iri b part) :
    Compresses table iri (b.label ++ ":" ++ part, .qualifiedName)
  | absolute (whole : ∀ b part, ¬ table.Splits iri b part) :
    Compresses table iri (absoluteReference iri, .absolute)

theorem part_eq_of_whole {part : String} (whole : iri = b.space ++ part) :
    String.ofList (iri.toList.drop b.space.length) = part := by
  apply String.toList_inj.mp
  rw [whole, String.toList_append, String.toList_ofList, ← String.length_toList,
    List.drop_left]

theorem Splits.unique {other : Binding} {part part' : String} (splits : table.Splits iri b part)
    (splits' : table.Splits iri other part') : b = other ∧ part = part' := by
  have found := longest?_eq_some_iff.mpr splits.longest
  obtain rfl := Option.some.inj (found.symm.trans (longest?_eq_some_iff.mpr splits'.longest))
  exact ⟨rfl, (part_eq_of_whole splits.whole).symm.trans (part_eq_of_whole splits'.whole)⟩

theorem compress_compresses (table : PrefixTable) (iri : String) :
    table.Compresses iri (table.compress iri) := by
  rw [compress]
  cases found : table.longest? iri with
  | none =>
    refine .absolute fun b part splits => ?_
    rw [longest?_eq_some_iff.mpr splits.longest] at found
    cases found
  | some b =>
    have longest := longest?_eq_some_iff.mp found
    obtain ⟨rest, starts⟩ := longest.starts
    have whole : iri = b.space ++ .ofList rest := by
      apply String.toList_inj.mp
      rw [← starts, String.toList_append, String.toList_ofList]
    dsimp only
    rw [part_eq_of_whole whole]
    split
    · rename_i local_part
      rw [escapeLocalPart_eq_self local_part]
      exact .qualifiedName ⟨longest, whole, isLocalPart_escapeLocalPart_iff.mp local_part⟩
    · rename_i no_local_part
      refine .absolute fun other part splits => no_local_part ?_
      obtain rfl : b = other := Option.some.inj
        (found.symm.trans (longest?_eq_some_iff.mpr splits.longest))
      obtain rfl := (part_eq_of_whole whole).symm.trans (part_eq_of_whole splits.whole)
      exact isLocalPart_escapeLocalPart_iff.mpr splits.plain

theorem Splits.compress {part : String} (splits : table.Splits iri b part) :
    table.compress iri = (b.label ++ ":" ++ part, .qualifiedName) := by
  have compresses := table.compress_compresses iri
  generalize table.compress iri = written at compresses
  cases compresses with
  | qualifiedName splits' =>
    obtain ⟨rfl, rfl⟩ := splits.unique splits'
    rfl
  | absolute whole => exact absurd splits (whole b part)

/-- An address is written as a qualified name exactly if something is left of it behind the longest
namespace that starts it, of ASCII letters, digits, underscores, hyphens and points but with no point at
the end; and then as the label, a colon and this part. Otherwise it is written in angle brackets without
blanks and delimiters, and decodes as it did. -/
theorem compress_exact (table : PrefixTable) (iri : String) :
    (∀ text, table.compress iri = (text, .qualifiedName) ↔
      ∃ b part, table.Splits iri b part ∧ text = b.label ++ ":" ++ part) ∧
    ((∀ b part, ¬ table.Splits iri b part) →
      ∃ body, table.compress iri = ("<" ++ body ++ ">", .absolute) ∧ Bracketed iri body) := by
  constructor
  · intro text
    constructor
    · intro qualified
      have compresses := table.compress_compresses iri
      rw [qualified] at compresses
      cases compresses with
      | qualifiedName splits => exact ⟨_, _, splits, rfl⟩
    · rintro ⟨b, part, splits, rfl⟩
      exact splits.compress
  · intro whole
    have compresses := table.compress_compresses iri
    generalize table.compress iri = written at compresses
    cases compresses with
    | qualifiedName splits => exact absurd splits (whole _ _)
    | absolute =>
      obtain ⟨body, written, bracketed⟩ := absoluteReference_bracketed iri
      exact ⟨body, by rw [written], bracketed⟩

/-- A garden, whose beds have a namespace of their own under two labels. -/
def garden : PrefixTable :=
  ((empty.insert "garden" "t:garden/").insert "bed" "t:garden/bed/").insert "plot" "t:garden/bed/"

/-- The last label of the beds is taken. What the namespace of the garden would leave is of no account,
and a percent sign that encodes nothing stands for itself. -/
theorem garden_compressed :
    garden.Splits "t:garden/bed/rose-2.b" ⟨"plot", "t:garden/bed/"⟩ "rose-2.b" ∧
    garden.compress "t:garden/bed/rose-2.b" = ("plot:rose-2.b", .qualifiedName) ∧
    (∀ b part, ¬ garden.Splits "t:garden/bed/50% <new>" b part) ∧
    ∃ body, garden.compress "t:garden/bed/50% <new>" = ("<" ++ body ++ ">", .absolute) ∧
      Bracketed "t:garden/bed/50% <new>" body := by
  have splits : garden.Splits "t:garden/bed/rose-2.b" ⟨"plot", "t:garden/bed/"⟩ "rose-2.b" :=
    ⟨⟨by decide, by decide, by decide, by decide⟩, by decide, isLocalPart_iff.mp (by decide)⟩
  have whole : ∀ b part, ¬ garden.Splits "t:garden/bed/50% <new>" b part := by
    intro b part splits
    have short := ((compress_exact garden _).1 _).mpr ⟨b, part, splits, rfl⟩
    have form : (garden.compress "t:garden/bed/50% <new>").2 = .qualifiedName :=
      congrArg Prod.snd short
    exact absurd form (by decide +kernel)
  exact ⟨splits, ((compress_exact garden _).1 _).mpr ⟨_, _, splits, by decide⟩, whole,
    (compress_exact garden _).2 whole⟩

end PrefixTable
end CompactTopicMap
