import CompactTopicMap.Fresh
import CompactTopicMap.Identifier

namespace CompactTopicMap

theorem isNameChar_of_isNameStart {c : Char} (start : isNameStart c = true) :
    isNameChar c = true := by
  simp only [isNameStart, isNameChar, Char.isAlphanum, Bool.or_eq_true] at *
  rcases start with letter | underscore
  · exact .inl (.inl (.inl letter))
  · exact .inl (.inr underscore)

theorem isIdentifierChars_append {text more : List Char} (starts : isIdentifierChars text = true)
    (follow : ∀ c ∈ more, isNameChar c = true) : isIdentifierChars (text ++ more) = true := by
  cases text with
  | nil => cases starts
  | cons c rest =>
    simp only [isIdentifierChars, List.cons_append, Bool.and_eq_true, List.all_append,
      List.all_eq_true] at starts ⊢
    exact ⟨starts.1, starts.2, follow⟩

theorem isIdentifierChars_sanitize {start : List Char} (starts : isIdentifierChars start = true)
    (text : List Char) : isIdentifierChars (sanitize start text) = true := by
  have chars : ∀ c ∈ text.filter isNameChar, isNameChar c = true :=
    fun c member => (List.mem_filter.mp member).2
  simp only [sanitize]
  generalize text.filter isNameChar = kept at chars
  by_cases good : kept.head?.any isNameStart = true
  · rw [if_pos good]
    cases kept with
    | nil => cases good
    | cons c rest =>
      have others : rest.all isNameChar = true :=
        List.all_eq_true.mpr fun d member => chars d (List.mem_cons_of_mem c member)
      simp only [isIdentifierChars, others, Bool.and_true]
      exact good
  · rw [if_neg good]
    exact isIdentifierChars_append starts chars

theorem isDigit_of_mem_repr {n : Nat} {c : Char} (member : c ∈ (Nat.repr n).toList) :
    c.isDigit = true := by
  rw [Nat.toList_repr] at member
  exact Nat.isDigit_of_mem_toDigits (by decide) (by decide) member

theorem isNameChar_of_mem_repr {n : Nat} {c : Char} (member : c ∈ (Nat.repr n).toList) :
    isNameChar c = true := by
  simp [isNameChar, Char.isAlphanum, isDigit_of_mem_repr member]

theorem isIdentifierChars_numbered {stem : String} (starts : isIdentifierChars stem.toList = true)
    (n : Nat) : isIdentifierChars (numbered stem n).toList = true := by
  cases n with
  | zero => exact starts
  | succ n =>
    rw [numbered, String.toList_append]
    exact isIdentifierChars_append starts fun c member => isNameChar_of_mem_repr member

theorem isIdentifier_iff {text : String} :
    isIdentifier text = true ↔ isIdentifierChars text.toList = true ∧ text ∉ keywords := by
  simp [isIdentifier]

theorem isIdentifierChars_of_isIdentifier {text : String} (identifier : isIdentifier text = true) :
    isIdentifierChars text.toList = true :=
  (isIdentifier_iff.mp identifier).1

theorem numbered_succ_not_mem_keywords (stem : String) (n : Nat) :
    numbered stem (n + 1) ∉ keywords := by
  intro keyword
  have no_digit : ∀ word ∈ keywords, word.toList.all (!·.isDigit) = true := by decide
  obtain ⟨digit, digits, written⟩ : ∃ digit digits, Nat.toDigits 10 (n + 1) = digit :: digits :=
    List.exists_cons_of_ne_nil Nat.toDigits_ne_nil
  have inside : digit ∈ (Nat.repr (n + 1)).toList := by simp [written]
  have last : digit ∈ (numbered stem (n + 1)).toList := by
    rw [numbered, String.toList_append]
    exact List.mem_append_right _ inside
  have other := List.all_eq_true.mp (no_digit _ keyword) digit last
  simp [isDigit_of_mem_repr inside] at other

end CompactTopicMap
