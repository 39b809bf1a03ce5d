import CompactTopicMap.Decimal.Digits

namespace CompactTopicMap

namespace Decimal

/-- The nearest binary64. Decimals beyond the range of the format overflow or vanish before any
large power of ten is formed. -/
def toFloat (negative : Bool) (d : Decimal) : Float :=
  let digits : Int := (Nat.toDigits 10 d.mantissa).length
  let magnitude : Float :=
    if d.mantissa = 0 || digits + d.exponent < -330 then 0.0
    else if 330 < digits + d.exponent then 1.0 / 0.0
    else .ofScientific d.mantissa (d.exponent < 0) d.exponent.natAbs
  if negative then -magnitude else magnitude

def infinity (negative : Bool) : Float :=
  if negative then -1.0 / 0.0 else 1.0 / 0.0

def notANumber : Float := 0.0 / 0.0

/-- Digits, a point and digits, of which one side may be missing, and an exponent or none. -/
def ofPlain? (text : List Char) : Option Decimal :=
  let (whole, rest) := takeDigits text
  let (fraction, rest) :=
    match rest with
    | '.' :: rest => takeDigits rest
    | _ => ([], rest)
  if whole.isEmpty && fraction.isEmpty then none
  else
    match takeExponent? rest with
    | some (exponent, []) => some (ofParts whole fraction exponent)
    | _ => none

end Decimal

def readFloat? (text : String) : Option Float :=
  let (negative, body) := Decimal.takeSign text.toList
  let word := String.ofList (body.map Char.toLower)
  if word = "inf" || word = "infinity" then some (Decimal.infinity negative)
  else if word = "nan" then some Decimal.notANumber
  else (Decimal.ofPlain? body).map (Decimal.toFloat negative)

def readSize? (text : String) : Option Nat :=
  let digits := match text.toList with
    | '+' :: rest => rest
    | rest => rest
  if digits.isEmpty || !digits.all Char.isDigit then none
  else
    let value := Decimal.ofDigits digits
    if value < sizeBound then some value else none

end CompactTopicMap
