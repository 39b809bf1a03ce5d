import CompactTopicMap.Decimal.Digits

/-! The shortest decimal that reads back as a given binary64. -/

namespace CompactTopicMap.Decimal

/-- The fractions of a binary64 have 52 bits: they are less than it. -/
def fractionBound : Nat := 4503599627370496

def signWeight : Nat := 9223372036854775808

/-- A positive number `center · 2 ^ exponent` and the ends, at the same scale, of the interval of
the numbers that round to it. -/
structure RoundingInterval where
  low : Nat
  center : Nat
  high : Nat
  exponent : Int
  closed : Bool
  deriving DecidableEq, Repr

namespace RoundingInterval

/-- The interval of a finite positive binary64, given its bits. The gap below a power of two is half
the gap above it, except at the least exponent. -/
def ofBits (bits : Nat) : RoundingInterval :=
  let field := bits / fractionBound % 2048
  let fraction := bits % fractionBound
  let mantissa := if field = 0 then fraction else fraction + fractionBound
  let exponent : Int := (max field 1 : Nat) - 1075
  let below := if fraction = 0 && 1 < field then 1 else 2
  { low := 4 * mantissa - below
    center := 4 * mantissa
    high := 4 * mantissa + 2
    exponent := exponent - 2
    closed := mantissa % 2 = 0 }

def power (base : Nat) (exponent : Int) : Nat := Nat.pow base exponent.toNat

/-- The point of the grid `10 ^ k` that lies in the interval next to its center. -/
def pointOn? (interval : RoundingInterval) (k : Int) : Option Nat :=
  let unit := power 10 k * power 2 (-interval.exponent)
  let scale := power 2 interval.exponent * power 10 (-k)
  let center := interval.center * scale
  let inside (point : Nat) : Bool :=
    let low := interval.low * scale
    let high := interval.high * scale
    if interval.closed then low ≤ point * unit && point * unit ≤ high
    else low < point * unit && point * unit < high
  let lower := center / unit
  if inside lower && !(inside (lower + 1) && 2 * (center % unit) ≥ unit) then some lower
  else if inside (lower + 1) then some (lower + 1)
  else none

def exponents : List Int := (List.range 700).map fun (i : Nat) => 320 - (i : Int)

def shortest (interval : RoundingInterval) : Decimal :=
  let found := exponents.findSome? fun k => (interval.pointOn? k).map fun point => ⟨point, k⟩
  found.getD ⟨0, 0⟩

end RoundingInterval

def floatText (x : Float) : String :=
  if x.isNaN then "NaN"
  else
    let bits := x.toBits.toNat
    let sign := if bits / signWeight = 1 then "-" else ""
    let magnitude := bits % signWeight
    let text :=
      if magnitude = 0 then "0"
      else if 2047 * fractionBound ≤ magnitude then "inf"
      else (RoundingInterval.ofBits magnitude).shortest.positional
    sign ++ text

end CompactTopicMap.Decimal
