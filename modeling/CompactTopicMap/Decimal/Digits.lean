namespace CompactTopicMap

/-- Sizes have 64 bits: they are less than it. -/
def sizeBound : Nat := 18446744073709551616

structure Decimal where
  mantissa : Nat
  exponent : Int
  deriving DecidableEq, Repr

namespace Decimal

def digitValue (c : Char) : Nat := c.toNat - 48

def ofDigits (digits : List Char) : Nat :=
  digits.foldl (fun value c => 10 * value + digitValue c) 0

def ofParts (whole fraction : List Char) (exponent : Int) : Decimal :=
  ⟨ofDigits (whole ++ fraction), exponent - fraction.length⟩

def takeDigits (text : List Char) : List Char × List Char :=
  (text.takeWhile Char.isDigit, text.dropWhile Char.isDigit)

def takeSign : List Char → Bool × List Char
  | '-' :: rest => (true, rest)
  | '+' :: rest => (false, rest)
  | rest => (false, rest)

def signed (negative : Bool) (magnitude : Nat) : Int :=
  if negative then -magnitude else magnitude

/-- An exponent, if one is there: a letter `e`, a sign or none, and digits. -/
def takeExponent? : List Char → Option (Int × List Char)
  | [] => some (0, [])
  | c :: rest =>
    if c = 'e' || c = 'E' then
      let (negative, rest) := takeSign rest
      match takeDigits rest with
      | ([], _) => none
      | (digits, rest) => some (signed negative (ofDigits digits), rest)
    else some (0, c :: rest)

/-- Digits in positional notation, with a point only if a fraction follows. -/
def positional (d : Decimal) : String :=
  if 0 ≤ d.exponent then
    .ofList (Nat.toDigits 10 d.mantissa ++ List.replicate d.exponent.toNat '0')
  else
    let places := d.exponent.natAbs
    let digits := Nat.toDigits 10 d.mantissa
    let digits := List.replicate (places + 1 - digits.length) '0' ++ digits
    .ofList (digits.take (digits.length - places) ++ '.' :: digits.drop (digits.length - places))

end Decimal
end CompactTopicMap
