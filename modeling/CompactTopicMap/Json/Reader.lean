import CompactTopicMap.Json.Basic

/-! Reading JSON. Each reader returns a value and the text behind it. -/

namespace CompactTopicMap.Json

def isSpace (c : Char) : Bool := c == ' ' || c == '\n' || c == '\t' || c == '\r'

def skipSpace (text : List Char) : List Char := text.dropWhile isSpace

def hexValue? (c : Char) : Option Nat :=
  if c.isDigit then some (c.toNat - 48)
  else if 'a' ≤ c && c ≤ 'f' then some (c.toNat - 87)
  else if 'A' ≤ c && c ≤ 'F' then some (c.toNat - 55)
  else none

def ofHex? (digits : List Char) : Option Nat :=
  digits.foldlM (fun value c => (hexValue? c).map (16 * value + ·)) 0

def isHighSurrogate (unit : Nat) : Bool := 0xD800 ≤ unit && unit < 0xDC00

def isLowSurrogate (unit : Nat) : Bool := 0xDC00 ≤ unit && unit < 0xE000

def joinSurrogates (high low : Nat) : Char :=
  .ofNat (0x10000 + (high - 0xD800) * 0x400 + (low - 0xDC00))

def simpleEscape? : Char → Option Char
  | '"' => some '"'
  | '\\' => some '\\'
  | '/' => some '/'
  | 'b' => some '\x08'
  | 'f' => some '\x0c'
  | 'n' => some '\n'
  | 'r' => some '\r'
  | 't' => some '\t'
  | _ => none

/-- What a string holds so far: its characters backwards, unless half a surrogate pair was found. -/
abbrev Held := Option (List Char)

def Held.push (held : Held) (c : Char) : Held := held.map (c :: ·)

def escapedUnits? : List Char → Option (Option Char × List Char)
  | a :: b :: c :: d :: rest => do
    let unit ← ofHex? [a, b, c, d]
    if isLowSurrogate unit then some (none, rest)
    else if isHighSurrogate unit then
      match rest with
      | '\\' :: 'u' :: e :: f :: g :: h :: after =>
        let low ← ofHex? [e, f, g, h]
        if isLowSurrogate low then some (some (joinSurrogates unit low), after)
        else some (none, after)
      | _ => some (none, rest)
    else some (some (.ofNat unit), rest)
  | _ => none

def stringRest? : Nat → Held → List Char → Option (Held × List Char)
  | 0, _, _ => none
  | _, _, [] => none
  | _, held, '"' :: rest => some (held, rest)
  | fuel + 1, held, '\\' :: 'u' :: rest =>
    match escapedUnits? rest with
    | none => none
    | some (some c, rest) => stringRest? fuel (held.push c) rest
    | some (none, rest) => stringRest? fuel none rest
  | fuel + 1, held, '\\' :: c :: rest =>
    match simpleEscape? c with
    | none => none
    | some c => stringRest? fuel (held.push c) rest
  | fuel + 1, held, c :: rest =>
    if c.toNat < 32 then none else stringRest? fuel (held.push c) rest

def string? (text : List Char) : Option (Json × List Char) :=
  (stringRest? (text.length + 1) (some []) text).map fun (held, rest) =>
    (held.elim .halfPair fun chars => .string (.ofList chars.reverse), rest)

def fraction? : List Char → Option (List Char × List Char)
  | '.' :: rest =>
    match Decimal.takeDigits rest with
    | ([], _) => none
    | taken => some taken
  | rest => some ([], rest)

def number? (text : List Char) : Option (Json × List Char) := do
  let (negative, unsigned) := match text with
    | '-' :: rest => (true, rest)
    | rest => (false, rest)
  let (whole, rest) := match unsigned with
    | '0' :: rest => (['0'], rest)
    | rest => Decimal.takeDigits rest
  if whole.isEmpty then none
  else
    let (fraction, behindFraction) ← fraction? rest
    let (exponent, behind) ← Decimal.takeExponent? behindFraction
    let plain := behind.length = rest.length
    if plain && !negative then some (.natural (Decimal.ofDigits whole), behind)
    else some (.decimal negative (.ofParts whole fraction exponent), behind)

def word? (word : List Char) (value : Json) (text : List Char) : Option (Json × List Char) :=
  (word.isPrefixOf? text).map fun rest => (value, rest)

mutual

def value? : Nat → List Char → Option (Json × List Char)
  | 0, _ => none
  | fuel + 1, text =>
    match skipSpace text with
    | [] => none
    | '"' :: rest => string? rest
    | '[' :: rest =>
      match skipSpace rest with
      | ']' :: rest => some (.array [], rest)
      | rest => (items? fuel rest).map fun (items, rest) => (.array items, rest)
    | '{' :: rest =>
      match skipSpace rest with
      | '}' :: rest => some (.object [], rest)
      | rest => (members? fuel rest).map fun (members, rest) => (.object members, rest)
    | 't' :: rest => word? ['r', 'u', 'e'] (.bool true) rest
    | 'f' :: rest => word? ['a', 'l', 's', 'e'] (.bool false) rest
    | 'n' :: rest => word? ['u', 'l', 'l'] .null rest
    | rest => number? rest

def items? : Nat → List Char → Option (List Json × List Char)
  | 0, _ => none
  | fuel + 1, text =>
    match value? fuel text with
    | none => none
    | some (item, rest) =>
      match skipSpace rest with
      | ',' :: rest => (items? fuel rest).map fun (items, rest) => (item :: items, rest)
      | ']' :: rest => some ([item], rest)
      | _ => none

def members? : Nat → List Char → Option (List (String × Json) × List Char)
  | 0, _ => none
  | fuel + 1, text =>
    match skipSpace text with
    | '"' :: rest =>
      match string? rest with
      | some (.string name, rest) =>
        match skipSpace rest with
        | ':' :: rest =>
          match value? fuel rest with
          | none => none
          | some (value, rest) =>
            match skipSpace rest with
            | ',' :: rest =>
              (members? fuel rest).map fun (members, rest) => ((name, value) :: members, rest)
            | '}' :: rest => some ([(name, value)], rest)
            | _ => none
        | _ => none
      | _ => none
    | _ => none

end

def ofText? (text : String) : Option Json :=
  let chars := text.toList
  match value? (2 * chars.length + 2) chars with
  | some (value, rest) => if (skipSpace rest).isEmpty then some value else none
  | none => none

end CompactTopicMap.Json
