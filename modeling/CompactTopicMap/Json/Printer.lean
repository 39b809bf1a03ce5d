import CompactTopicMap.Json.Basic
import CompactTopicMap.Text.Percent

namespace CompactTopicMap.Json

def escapeChar (c : Char) : List Char :=
  if c = '"' || c = '\\' then ['\\', c]
  else if c.toNat < 32 then
    ['\\', 'u', '0', '0', Text.hexDigit (c.toNat / 16), Text.hexDigit (c.toNat % 16)]
  else [c]

def quoteText (text : String) : String :=
  .ofList ('"' :: text.toList.flatMap escapeChar ++ ['"'])

def decimalText (negative : Bool) (value : Decimal) : String :=
  (if negative then "-" else "") ++ Nat.repr value.mantissa ++
    if value.exponent = 0 then "" else "e" ++ toString value.exponent

mutual

def render : Json → String
  | null => "null"
  | bool true => "true"
  | bool false => "false"
  | natural value => Nat.repr value
  | decimal negative value => decimalText negative value
  | string value => quoteText value
  | halfPair => "\"\\ud800\""
  | array items => "[" ++ ",".intercalate (renderItems items) ++ "]"
  | object members => "\x7b" ++ ",".intercalate (renderMembers members) ++ "\x7d"

def renderItems : List Json → List String
  | [] => []
  | item :: items => render item :: renderItems items

def renderMembers : List (String × Json) → List String
  | [] => []
  | (name, value) :: members => (quoteText name ++ ":" ++ render value) :: renderMembers members

end

end CompactTopicMap.Json
