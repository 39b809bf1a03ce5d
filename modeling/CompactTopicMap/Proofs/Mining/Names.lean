import CompactTopicMap.Proofs.Naming.Identifiers

namespace CompactTopicMap

structure Hyphenated (text : String) : Prop where
  chars : isIdentifierChars text.toList = true
  hyphen : '-' ∈ text.toList

namespace Hyphenated

variable {text : String}

theorem isIdentifier (hyphenated : Hyphenated text) : isIdentifier text = true := by
  have plain : ∀ keyword ∈ keywords, '-' ∉ keyword.toList := by decide
  exact isIdentifier_iff.mpr ⟨hyphenated.chars, fun member => plain text member hyphenated.hyphen⟩

theorem of_append {base more : String} (starts : isIdentifierChars base.toList = true)
    (follow : more.toList.all isNameChar = true) (hyphen : '-' ∈ more.toList) :
    Hyphenated (base ++ more) := by
  constructor
  · rw [String.toList_append]
    exact isIdentifierChars_append starts (List.all_eq_true.mp follow)
  · rw [String.toList_append]
    exact List.mem_append_right _ hyphen

theorem append_repr (hyphenated : Hyphenated text) (n : Nat) :
    Hyphenated (text ++ Nat.repr n) := by
  constructor
  · rw [String.toList_append]
    exact isIdentifierChars_append hyphenated.chars fun c member => isNameChar_of_mem_repr member
  · rw [String.toList_append]
    exact List.mem_append_left _ hyphenated.hyphen

theorem freshName (hyphenated : Hyphenated text) (taken : List String) :
    Hyphenated (freshName taken text) := by
  rw [CompactTopicMap.freshName]
  cases freshNumber taken text with
  | zero => exact hyphenated
  | succ n => exact hyphenated.append_repr (n + 1)

end Hyphenated
end CompactTopicMap
