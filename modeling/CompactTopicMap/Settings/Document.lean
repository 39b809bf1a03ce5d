import CompactTopicMap.Decimal.Reader
import CompactTopicMap.Json.Reader
import CompactTopicMap.Settings.Assign

/-! Settings as a TOML document, in which no table and no date can stand. -/

namespace CompactTopicMap.Settings.Document

def isSpace (c : Char) : Bool := c == ' ' || c == '\t'

def skipSpace (text : List Char) : List Char := text.dropWhile isSpace

def isPrintable (c : Char) : Bool := c == '\t' || (32 ≤ c.toNat && c.toNat != 127)

def newline? : List Char → Option (List Char)
  | '\n' :: rest => some rest
  | '\r' :: '\n' :: rest => some rest
  | _ => none

def skipComment : List Char → List Char
  | '#' :: rest => rest.dropWhile isPrintable
  | text => text

/-- What follows the rest of a line that holds at most a comment. -/
def lineEnd? (text : List Char) : Option (List Char) :=
  match skipComment (skipSpace text) with
  | [] => some []
  | rest => newline? rest

def skipLines : Nat → List Char → List Char
  | 0, text => text
  | fuel + 1, text =>
    match skipSpace text with
    | [] => []
    | rest =>
      match newline? (skipComment rest) with
      | some rest => skipLines fuel rest
      | none => rest

def skipBreaks : Nat → List Char → List Char
  | 0, text => text
  | fuel + 1, text =>
    match newline? (skipSpace text) with
    | some rest => skipBreaks fuel rest
    | none => skipSpace text

def codePoint? (count : Nat) (text : List Char) : Option (Char × List Char) := do
  let digits := text.take count
  let value ← Json.ofHex? digits
  if digits.length = count && value.isValidChar then some (.ofNat value, text.drop count) else none

def escape? : List Char → Option (Char × List Char)
  | '"' :: rest => some ('"', rest)
  | '\\' :: rest => some ('\\', rest)
  | 'b' :: rest => some ('\x08', rest)
  | 'f' :: rest => some ('\x0c', rest)
  | 'n' :: rest => some ('\n', rest)
  | 'r' :: rest => some ('\r', rest)
  | 't' :: rest => some ('\t', rest)
  | 'u' :: rest => codePoint? 4 rest
  | 'U' :: rest => codePoint? 8 rest
  | _ => none

/-- The rest of a basic string on one line; what is read so far is held backwards. -/
def basicRest? : Nat → List Char → List Char → Option (String × List Char)
  | 0, _, _ => none
  | _, _, [] => none
  | _, held, '"' :: rest => some (.ofList held.reverse, rest)
  | fuel + 1, held, '\\' :: rest =>
    match escape? rest with
    | some (c, rest) => basicRest? fuel (c :: held) rest
    | none => none
  | fuel + 1, held, c :: rest =>
    if isPrintable c then basicRest? fuel (c :: held) rest else none

def literalRest? (text : List Char) : Option (String × List Char) :=
  let (body, rest) := text.span fun c => isPrintable c && c != '\''
  match rest with
  | '\'' :: rest => some (.ofList body, rest)
  | _ => none

/-- The quotes that a run of quotes gives to the string, and the text behind the closing ones: three
quotes close, and up to two before them belong to the string. -/
def closing? (quote : Char) (text : List Char) : Option (List Char × List Char) :=
  let run := (text.takeWhile (· == quote)).length
  if run < 3 then none
  else some (List.replicate (min (run - 3) 2) quote, text.drop (min run 5))

/-- The rest of a string over several lines between runs of three quotes. A backslash before a
newline takes away all space and newlines up to the next text; literal strings have no escapes. -/
def linesRest? (quote : Char) : Nat → List Char → List Char → Option (String × List Char)
  | 0, _, _ => none
  | fuel + 1, held, text =>
    match text with
    | [] => none
    | c :: rest =>
      if c == quote then
        match closing? quote text with
        | some (quotes, rest) => some (.ofList (held.reverse ++ quotes), rest)
        | none => linesRest? quote fuel (c :: held) rest
      else if c == '\\' && quote == '"' then
        match newline? (skipSpace rest) with
        | some rest => linesRest? quote fuel held (skipBreaks rest.length rest)
        | none =>
          match escape? rest with
          | some (c, rest) => linesRest? quote fuel (c :: held) rest
          | none => none
      else
        match newline? text with
        | some rest => linesRest? quote fuel ('\n' :: held) rest
        | none => if isPrintable c then linesRest? quote fuel (c :: held) rest else none

def lines? (quote : Char) (text : List Char) : Option (String × List Char) :=
  let text := (newline? text).getD text
  linesRest? quote (text.length + 1) [] text

def string? : List Char → Option (String × List Char)
  | '"' :: '"' :: '"' :: rest => lines? '"' rest
  | '\'' :: '\'' :: '\'' :: rest => lines? '\'' rest
  | '"' :: rest => basicRest? (rest.length + 1) [] rest
  | '\'' :: rest => literalRest? rest
  | _ => none

def isKeyChar (c : Char) : Bool := c.isAlphanum || c == '_' || c == '-'

/-- A key is a string on one line or a run of letters, digits, hyphens and underscores. -/
def key? : List Char → Option (String × List Char)
  | '"' :: rest => basicRest? (rest.length + 1) [] rest
  | '\'' :: rest => literalRest? rest
  | text =>
    match text.span isKeyChar with
    | ([], _) => none
    | (key, rest) => some (.ofList key, rest)

/-- Digits with single underscores between them; the underscores are left out. -/
def groupedRest (digit : Char → Bool) : List Char → List Char × List Char
  | [] => ([], [])
  | [c] => if digit c then ([c], []) else ([], [c])
  | c :: d :: rest =>
    if digit c then
      let (digits, rest) := groupedRest digit (d :: rest)
      (c :: digits, rest)
    else if c == '_' && digit d then
      let (digits, rest) := groupedRest digit rest
      (d :: digits, rest)
    else ([], c :: d :: rest)

def grouped? (digit : Char → Bool) (text : List Char) : Option (List Char × List Char) :=
  if text.head?.any digit then some (groupedRest digit text) else none

def whole? : List Char → Option (List Char × List Char)
  | '0' :: rest => some (['0'], rest)
  | text => grouped? Char.isDigit text

def ofRadix (radix : Nat) (digits : List Char) : Nat :=
  digits.foldl (fun value c => radix * value + (Json.hexValue? c).getD 0) 0

/-- Integers have 64 bits, one of them for the sign. -/
def integerBound : Int := 9223372036854775808

def boundedInteger? (value : Int) : Option SettingValue :=
  if -integerBound ≤ value && value < integerBound then some (.integer value) else none

def radix? (radix : Nat) (text : List Char) : Option (SettingValue × List Char) := do
  let (digits, rest) ← grouped? (fun c => (Json.hexValue? c).any (· < radix)) text
  let value ← boundedInteger? (ofRadix radix digits)
  some (value, rest)

def exponent? : List Char → Option (Int × List Char)
  | c :: rest =>
    if c == 'e' || c == 'E' then do
      let (negative, rest) := Decimal.takeSign rest
      let (digits, rest) ← grouped? Char.isDigit rest
      some (Decimal.signed negative (Decimal.ofDigits digits), rest)
    else none
  | [] => none

/-- A real number whose decimal is too great is refused. -/
def real? (negative : Bool) (decimal : Decimal) : Option SettingValue :=
  let value := decimal.toFloat negative
  if value.isInf && !negative then none else some (.real value)

def decimal? (negative : Bool) (text : List Char) : Option (SettingValue × List Char) := do
  let (whole, rest) ← whole? text
  match rest with
  | '.' :: rest =>
    let (fraction, rest) ← grouped? Char.isDigit rest
    let (exponent, rest) ←
      if rest.head?.any fun c => c == 'e' || c == 'E' then exponent? rest else some (0, rest)
    some (← real? negative (.ofParts whole fraction exponent), rest)
  | c :: _ =>
    if c == 'e' || c == 'E' then
      let (exponent, rest) ← exponent? rest
      some (← real? negative (.ofParts whole [] exponent), rest)
    else some (← boundedInteger? (Decimal.signed negative (Decimal.ofDigits whole)), rest)
  | [] => some (← boundedInteger? (Decimal.signed negative (Decimal.ofDigits whole)), [])

def number? (text : List Char) : Option (SettingValue × List Char) :=
  match text with
  | '0' :: 'x' :: rest => radix? 16 rest
  | '0' :: 'o' :: rest => radix? 8 rest
  | '0' :: 'b' :: rest => radix? 2 rest
  | _ =>
    let (negative, body) := Decimal.takeSign text
    match body with
    | 'i' :: 'n' :: 'f' :: rest => some (.real (Decimal.infinity negative), rest)
    | 'n' :: 'a' :: 'n' :: rest => some (.real Decimal.notANumber, rest)
    | _ => decimal? negative body

/-- The rest of an array of strings behind its opening bracket or a comma; a comma may stand before
the closing bracket. -/
def arrayRest? : Nat → List String → List Char → Option (List String × List Char)
  | 0, _, _ => none
  | fuel + 1, held, text =>
    match skipLines text.length text with
    | ']' :: rest => some (held.reverse, rest)
    | text =>
      match string? text with
      | none => none
      | some (item, rest) =>
        match skipLines rest.length rest with
        | ',' :: rest => arrayRest? fuel (item :: held) rest
        | ']' :: rest => some ((item :: held).reverse, rest)
        | _ => none

def value? (text : List Char) : Option (SettingValue × List Char) :=
  match text with
  | 't' :: 'r' :: 'u' :: 'e' :: rest => some (.flag true, rest)
  | 'f' :: 'a' :: 'l' :: 's' :: 'e' :: rest => some (.flag false, rest)
  | '[' :: rest =>
    (arrayRest? (rest.length + 1) [] rest).map fun (items, rest) => (.texts items, rest)
  | '"' :: _ | '\'' :: _ => (string? text).map fun (value, rest) => (.text value, rest)
  | _ => number? text

def entry? (text : List Char) : Option ((String × SettingValue) × List Char) := do
  let (key, rest) ← key? text
  match skipSpace rest with
  | '=' :: rest =>
    let (value, rest) ← value? (skipSpace rest)
    some ((key, value), ← lineEnd? rest)
  | _ => none

def entries? : Nat → List Char → Option (List (String × SettingValue))
  | 0, _ => none
  | fuel + 1, text =>
    match skipSpace text with
    | [] => some []
    | '#' :: rest => (lineEnd? ('#' :: rest)).bind (entries? fuel)
    | text =>
      match newline? text with
      | some rest => entries? fuel rest
      | none =>
        match entry? text with
        | some (entry, rest) => (entries? fuel rest).map (entry :: ·)
        | none => none

/-- The settings that a document gives; no key may stand twice. A byte order mark may lead. -/
def settings? (document : String) : Option Settings := do
  let text := match document.toList with
    | '\uFEFF' :: rest => rest
    | text => text
  let values ← entries? (text.length + 1) text
  if (values.map Prod.fst).Nodup then ofValues? values else none

end Document

def ofDocument (document : String) : Except Error Settings :=
  match Document.settings? document with
  | none => .error .invalidDocument
  | some settings => settings.validate.map fun _ => settings

end CompactTopicMap.Settings
