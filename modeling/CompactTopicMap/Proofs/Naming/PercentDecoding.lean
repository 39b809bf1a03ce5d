import CompactTopicMap.Identity

namespace CompactTopicMap.Text

def octets (text : List Char) : List UInt8 := text.flatMap String.utf8EncodeChar

def percentSign : UInt8 := 37

def hexValue? (octet : UInt8) : Option Nat :=
  let code := octet.toNat
  if 48 ≤ code ∧ code ≤ 57 then some (code - 48)
  else if 65 ≤ code ∧ code ≤ 70 then some (code - 55)
  else if 97 ≤ code ∧ code ≤ 102 then some (code - 87)
  else none

def hexPair? (first second : UInt8) : Option UInt8 := do
  let high ← hexValue? first
  let low ← hexValue? second
  some (.ofNat (16 * high + low))

/-- Reads `%XX` as an octet. A percent sign without two hexadecimal digits stands for itself. -/
def percentDecode : List UInt8 → List UInt8
  | octet :: first :: second :: rest =>
    if octet = percentSign then
      match hexPair? first second with
      | some value => value :: percentDecode rest
      | none => octet :: percentDecode (first :: second :: rest)
    else octet :: percentDecode (first :: second :: rest)
  | coded => coded

theorem percentDecode_cons_of_ne {octet : UInt8} (other : octet ≠ percentSign)
    (rest : List UInt8) : percentDecode (octet :: rest) = octet :: percentDecode rest := by
  match rest with
  | [] => rfl
  | [_] => rfl
  | _ :: _ :: _ => rw [percentDecode, if_neg other]

theorem percentDecode_percentSign {first second octet : UInt8}
    (pair : hexPair? first second = some octet) (rest : List UInt8) :
    percentDecode (percentSign :: first :: second :: rest) = octet :: percentDecode rest := by
  rw [percentDecode, if_pos rfl, pair]

def StartsWithPair (coded : List UInt8) : Prop :=
  ∃ first second rest, coded = first :: second :: rest ∧
    (hexValue? first).isSome ∧ (hexValue? second).isSome

theorem percentDecode_percentSign_of_not {rest : List UInt8} (lone : ¬ StartsWithPair rest) :
    percentDecode (percentSign :: rest) = percentSign :: percentDecode rest := by
  match rest, lone with
  | [], _ => rfl
  | [_], _ => rfl
  | first :: second :: others, lone =>
    have nothing : hexPair? first second = none := by
      cases high : hexValue? first with
      | none => simp [hexPair?, high]
      | some _ =>
        cases low : hexValue? second with
        | none => simp [hexPair?, high, low]
        | some _ => exact absurd ⟨first, second, others, rfl, by simp [high], by simp [low]⟩ lone
    rw [percentDecode, if_pos rfl, nothing]

def percentOctets (octet : UInt8) : List UInt8 := octets (percentOctet octet)

theorem hexDigit_octets : ∀ digit < 16,
    String.utf8EncodeChar (hexDigit digit) = [.ofNat (hexDigit digit).toNat] ∧
      hexValue? (.ofNat (hexDigit digit).toNat) = some digit := by
  decide

theorem percentOctets_eq (octet : UInt8) :
    ∃ high low, percentOctets octet = [percentSign, high, low] ∧ hexPair? high low = some octet := by
  have bound : octet.toNat < 256 := octet.toNat_lt
  have whole : 16 * (octet.toNat / 16) + octet.toNat % 16 = octet.toNat := by omega
  have high := hexDigit_octets (octet.toNat / 16) (by omega)
  have low := hexDigit_octets (octet.toNat % 16) (by omega)
  have sign : String.utf8EncodeChar '%' = [percentSign] := rfl
  refine ⟨.ofNat (hexDigit (octet.toNat / 16)).toNat, .ofNat (hexDigit (octet.toNat % 16)).toNat,
    ?_, ?_⟩
  · simp only [percentOctets, octets, percentOctet, List.flatMap_cons, List.flatMap_nil, sign,
      high.1, low.1, List.cons_append, List.nil_append, List.append_nil]
  · simp only [hexPair?, high.2, low.2, Option.bind_eq_bind, Option.bind_some, whole,
      UInt8.ofNat_toNat]

theorem percentDecode_percentOctets (octet : UInt8) (rest : List UInt8) :
    percentDecode (percentOctets octet ++ rest) = octet :: percentDecode rest := by
  obtain ⟨high, low, spelled, pair⟩ := percentOctets_eq octet
  rw [spelled]
  exact percentDecode_percentSign pair rest

/-- An octet that cannot be taken for a part of `%XX`. -/
def IsInert (octet : UInt8) : Prop := octet ≠ percentSign ∧ hexValue? octet = none

def spell (items : List (UInt8 × Bool)) : List UInt8 :=
  items.flatMap fun (octet, encoded) => if encoded then percentOctets octet else [octet]

section Spelling

variable {items : List (UInt8 × Bool)} {first : UInt8} {rest : List UInt8}

theorem exists_plain_of_spell (spelled : spell items = first :: rest)
    (digit : (hexValue? first).isSome) :
    ∃ others, items = (first, false) :: others ∧ spell others = rest := by
  match items, spelled with
  | (octet, false) :: others, spelled =>
    obtain ⟨rfl, rfl⟩ := List.cons.inj spelled
    exact ⟨others, rfl, rfl⟩
  | (octet, true) :: others, spelled =>
    obtain ⟨high, low, coded, _⟩ := percentOctets_eq octet
    have start : percentOctets octet ++ spell others = first :: rest := spelled
    rw [coded] at start
    obtain rfl := (List.cons.inj start).1
    cases digit

theorem exists_plain_of_map (inert : ∀ octet, (octet, true) ∈ items → IsInert octet)
    (listed : items.map Prod.fst = first :: rest) (digit : (hexValue? first).isSome) :
    ∃ others, items = (first, false) :: others ∧ others.map Prod.fst = rest := by
  match items, listed with
  | (octet, false) :: others, listed =>
    obtain ⟨rfl, rfl⟩ := List.cons.inj listed
    exact ⟨others, rfl, rfl⟩
  | (octet, true) :: others, listed =>
    obtain ⟨rfl, rfl⟩ := List.cons.inj listed
    rw [(inert octet List.mem_cons_self).2] at digit
    cases digit

theorem startsWithPair_spell (inert : ∀ octet, (octet, true) ∈ items → IsInert octet)
    (pair : StartsWithPair (spell items) ∨ StartsWithPair (items.map Prod.fst)) :
    ∃ first second others, items = (first, false) :: (second, false) :: others ∧
      (hexPair? first second).isSome := by
  have digits : ∀ {first second : UInt8}, (hexValue? first).isSome → (hexValue? second).isSome →
      (hexPair? first second).isSome := by
    intro first second high low
    obtain ⟨_, high⟩ := Option.isSome_iff_exists.mp high
    obtain ⟨_, low⟩ := Option.isSome_iff_exists.mp low
    simp [hexPair?, high, low]
  rcases pair with ⟨first, second, rest, spelled, high, low⟩ | ⟨first, second, rest, listed, high, low⟩
  · obtain ⟨items, rfl, behind⟩ := exists_plain_of_spell spelled high
    obtain ⟨others, rfl, _⟩ := exists_plain_of_spell behind low
    exact ⟨first, second, others, rfl, digits high low⟩
  · obtain ⟨items, rfl, behind⟩ := exists_plain_of_map inert listed high
    have later : ∀ octet, (octet, true) ∈ items → IsInert octet :=
      fun octet member => inert octet (List.mem_cons_of_mem _ member)
    obtain ⟨others, rfl, _⟩ := exists_plain_of_map later behind low
    exact ⟨first, second, others, rfl, digits high low⟩

end Spelling

theorem percentDecode_spell (items : List (UInt8 × Bool))
    (inert : ∀ octet, (octet, true) ∈ items → IsInert octet) :
    percentDecode (spell items) = percentDecode (items.map Prod.fst) := by
  match items with
  | [] => rfl
  | (octet, true) :: others =>
    have later := percentDecode_spell others fun o member => inert o (List.mem_cons_of_mem _ member)
    calc percentDecode (percentOctets octet ++ spell others)
        = octet :: percentDecode (spell others) := percentDecode_percentOctets octet _
      _ = octet :: percentDecode (others.map Prod.fst) := by rw [later]
      _ = percentDecode (octet :: others.map Prod.fst) :=
        (percentDecode_cons_of_ne (inert octet List.mem_cons_self).1 _).symm
  | (octet, false) :: others =>
    have inertLater : ∀ o, (o, true) ∈ others → IsInert o :=
      fun o member => inert o (List.mem_cons_of_mem _ member)
    change percentDecode (octet :: spell others) = percentDecode (octet :: others.map Prod.fst)
    by_cases sign : octet = percentSign
    · subst sign
      -- Two digits behind the sign were there before anything was encoded.
      by_cases pair : StartsWithPair (spell others) ∨ StartsWithPair (others.map Prod.fst)
      · obtain ⟨first, second, behind, rfl, digits⟩ := startsWithPair_spell inertLater pair
        obtain ⟨value, read⟩ := Option.isSome_iff_exists.mp digits
        have rest := percentDecode_spell behind fun o member =>
          inertLater o (List.mem_cons_of_mem _ (List.mem_cons_of_mem _ member))
        calc percentDecode (percentSign :: first :: second :: spell behind)
            = value :: percentDecode (spell behind) := percentDecode_percentSign read _
          _ = value :: percentDecode (behind.map Prod.fst) := by rw [rest]
          _ = percentDecode (percentSign :: first :: second :: behind.map Prod.fst) :=
            (percentDecode_percentSign read _).symm
      · have lone := not_or.mp pair
        rw [percentDecode_percentSign_of_not lone.1, percentDecode_percentSign_of_not lone.2,
          percentDecode_spell others inertLater]
    · rw [percentDecode_cons_of_ne sign, percentDecode_cons_of_ne sign,
        percentDecode_spell others inertLater]
termination_by items.length

theorem percentDecode_percentWhere {escaped : Char → Bool}
    (inert : ∀ c, escaped c = true → ∀ octet ∈ String.utf8EncodeChar c, IsInert octet)
    (text : List Char) :
    percentDecode (octets (percentWhere escaped text)) = percentDecode (octets text) := by
  let items := text.flatMap fun c => (String.utf8EncodeChar c).map fun octet => (octet, escaped c)
  have plain : items.map Prod.fst = octets text := by
    simp [items, octets, List.map_flatMap, Function.comp_def]
  have spelled : octets (percentWhere escaped text) = spell items := by
    simp only [octets, percentWhere, spell, items, List.flatMap_assoc, List.flatMap_map]
    congr 1
    funext c
    by_cases coded : escaped c = true
    · simp [coded, percentChar, percentOctets, octets, List.flatMap_assoc]
    · simp [coded, List.flatMap_singleton']
  rw [spelled, percentDecode_spell items, plain]
  intro octet member
  obtain ⟨c, _, here⟩ := List.mem_flatMap.mp member
  obtain ⟨o, inside, same⟩ := List.mem_map.mp here
  obtain ⟨rfl, coded⟩ := Prod.mk.inj same
  exact inert c coded o inside

end CompactTopicMap.Text
