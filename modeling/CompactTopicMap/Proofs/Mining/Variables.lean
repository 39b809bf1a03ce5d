import CompactTopicMap.Literal
import CompactTopicMap.Proofs.Naming.Identifiers
import CompactTopicMap.Session.Mining

namespace CompactTopicMap

theorem isBlank_of_isNameChar {c : Char} (nameChar : isNameChar c = true) :
    Text.isBlank c = false := by
  have range := toNat_of_isNameChar nameChar
  simp only [Text.isBlank, Text.blankRanges, List.any_cons, List.any_nil, Bool.or_eq_false_iff,
    Bool.and_eq_false_iff, decide_eq_false_iff_not, and_true]
  omega

theorem isVariable_of_isIdentifierChars {text : String} {chars : List Char}
    (split : text.toList = '$' :: chars) (identifier : isIdentifierChars chars = true) :
    isVariable text = true := by
  cases chars with
  | nil => cases identifier
  | cons c rest =>
    simp only [isIdentifierChars, Bool.and_eq_true, List.all_eq_true] at identifier
    have nameChars : ∀ d ∈ c :: rest, isNameChar d = true := by
      intro d member
      rcases List.mem_cons.mp member with rfl | later
      · exact isNameChar_of_isNameStart identifier.1
      · exact identifier.2 d later
    rw [isVariable, split]
    simp only [Bool.not_eq_true', List.any_eq_false]
    intro d member
    rw [isBlank_of_isNameChar (nameChars d member)]
    exact Bool.false_ne_true

theorem isVariable_numbered {base : String} (identifier : isIdentifierChars base.toList = true)
    (n : Nat) : isVariable (numbered ("$" ++ base) n) = true := by
  have split : (numbered ("$" ++ base) n).toList = '$' :: (numbered base n).toList := by
    cases n <;> simp [numbered]
  exact isVariable_of_isIdentifierChars split (isIdentifierChars_numbered identifier n)

theorem exists_of_mem_freshNames {taken stems : List String} {name : String}
    (member : name ∈ freshNames taken stems) : ∃ stem ∈ stems, ∃ n, name = numbered stem n := by
  induction stems generalizing taken with
  | nil => cases member
  | cons stem stems ih =>
    rcases List.mem_cons.mp member with rfl | later
    · exact ⟨stem, List.mem_cons_self, _, rfl⟩
    · obtain ⟨other, inside, n, same⟩ := ih later
      exact ⟨other, List.mem_cons_of_mem stem inside, n, same⟩

end CompactTopicMap
