namespace CompactTopicMap.Text

def hexDigit (value : Nat) : Char :=
  if value < 10 then .ofNat (48 + value) else .ofNat (55 + value)

def percentOctet (octet : UInt8) : List Char :=
  ['%', hexDigit (octet.toNat / 16), hexDigit (octet.toNat % 16)]

def percentChar (c : Char) : List Char :=
  (String.utf8EncodeChar c).flatMap percentOctet

def percentWhere (escaped : Char → Bool) (text : List Char) : List Char :=
  text.flatMap fun c => if escaped c then percentChar c else [c]

theorem percentWhere_eq_self {escaped : Char → Bool} {text : List Char}
    (none_escaped : ∀ c ∈ text, escaped c = false) : percentWhere escaped text = text := by
  induction text with
  | nil => rfl
  | cons c rest ih =>
    have tail := ih fun x member => none_escaped x (List.mem_cons_of_mem _ member)
    simp only [percentWhere, List.flatMap_cons, none_escaped c (by simp)] at tail ⊢
    simp [tail]

theorem isAlphanum_hexDigit : ∀ digit < 16, (hexDigit digit).isAlphanum = true := by
  decide

theorem mem_percentChar {c d : Char} (member : c ∈ percentChar d) :
    c = '%' ∨ c.isAlphanum = true := by
  obtain ⟨octet, _, written⟩ := List.mem_flatMap.mp member
  have bound : octet.toNat < 256 := octet.toNat_lt
  simp only [percentOctet, List.mem_cons, List.not_mem_nil, or_false] at written
  rcases written with sign | high | low
  · exact .inl sign
  · exact .inr (high ▸ isAlphanum_hexDigit _ (by omega))
  · exact .inr (low ▸ isAlphanum_hexDigit _ (by omega))

theorem mem_percentWhere {c : Char} {escaped : Char → Bool} {text : List Char}
    (member : c ∈ percentWhere escaped text) :
    (c ∈ text ∧ escaped c = false) ∨ c = '%' ∨ c.isAlphanum = true := by
  obtain ⟨d, inside, written⟩ := List.mem_flatMap.mp member
  cases kept : escaped d with
  | true =>
    rw [kept, if_pos rfl] at written
    exact .inr (mem_percentChar written)
  | false =>
    rw [kept, if_neg Bool.false_ne_true, List.mem_singleton] at written
    exact .inl (written ▸ ⟨inside, kept⟩)

theorem mem_percentWhere_iff {c : Char} (sign : c ≠ '%') (digit : c.isAlphanum = false)
    {escaped : Char → Bool} {text : List Char} :
    c ∈ percentWhere escaped text ↔ c ∈ text ∧ escaped c = false := by
  constructor
  · intro member
    rcases mem_percentWhere member with kept | same | alphanumeric
    · exact kept
    · exact absurd same sign
    · exact absurd (digit.symm.trans alphanumeric) Bool.false_ne_true
  · rintro ⟨member, kept⟩
    exact List.mem_flatMap.mpr ⟨c, member, by simp [kept]⟩

end CompactTopicMap.Text
