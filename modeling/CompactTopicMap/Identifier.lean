namespace CompactTopicMap

def isNameStart (c : Char) : Bool := c.isAlpha || c == '_'

def isNameChar (c : Char) : Bool := c.isAlphanum || c == '_' || c == '-'

theorem toNat_of_isNameChar {c : Char} (nameChar : isNameChar c = true) :
    45 ≤ c.toNat ∧ c.toNat ≤ 122 := by
  simp only [isNameChar, Bool.or_eq_true, beq_iff_eq] at nameChar
  rcases nameChar with (alphanumeric | rfl) | rfl
  · have codes : ((decide (c.val ≥ 'A'.val ∧ c.val ≤ 'Z'.val) ||
          c.val ≥ 'a'.val && c.val ≤ 'z'.val) ||
        c.val ≥ '0'.val && c.val ≤ '9'.val) = true := alphanumeric
    simp only [Bool.or_eq_true, Bool.and_eq_true, decide_eq_true_eq, ge_iff_le,
      UInt32.le_iff_toNat_le] at codes
    have code : c.val.toNat = c.toNat := rfl
    have upper : 'A'.val.toNat = 65 ∧ 'Z'.val.toNat = 90 := ⟨rfl, rfl⟩
    have lower : 'a'.val.toNat = 97 ∧ 'z'.val.toNat = 122 := ⟨rfl, rfl⟩
    have digit : '0'.val.toNat = 48 ∧ '9'.val.toNat = 57 := ⟨rfl, rfl⟩
    omega
  · decide
  · decide

def keywords : List String := ["isa", "ako", "def", "end"]

def isIdentifierChars : List Char → Bool
  | [] => false
  | c :: rest => isNameStart c && rest.all isNameChar

def isIdentifier (text : String) : Bool :=
  isIdentifierChars text.toList && text ∉ keywords

/-- What may follow `label:` in a qualified name. -/
def isLocalPart (text : List Char) : Bool :=
  !text.isEmpty && text.getLast? != some '.' && text.all fun c => isNameChar c || c == '.'

/-- Keeps the characters that may stand in an identifier, and puts `start` first if the rest does
not begin as an identifier does. -/
def sanitize (start : List Char) (text : List Char) : List Char :=
  let kept := text.filter isNameChar
  if kept.head?.any isNameStart then kept else start ++ kept

end CompactTopicMap
