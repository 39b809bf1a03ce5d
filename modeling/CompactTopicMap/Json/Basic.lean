import CompactTopicMap.Decimal.Digits

namespace CompactTopicMap

/-- Numbers written as digits alone are naturals, and all others are decimals. -/
inductive Json where
  | null
  | bool (value : Bool)
  | natural (value : Nat)
  | decimal (negative : Bool) (value : Decimal)
  | string (value : String)
  /-- A string in which an escape names half of a surrogate pair; it is well formed but holds no
  text. -/
  | halfPair
  | array (items : List Json)
  | object (members : List (String × Json))
  deriving Repr, Inhabited

namespace Json

def size? : Json → Option Nat
  | natural value => if value < sizeBound then some value else none
  | _ => none

def text? : Json → Option String
  | string value => some value
  | _ => none

def bool? : Json → Option Bool
  | bool value => some value
  | _ => none

def list? {α : Type} (item? : Json → Option α) : Json → Option (List α)
  | array items => items.mapM item?
  | _ => none

def optional? {α : Type} (value? : Json → Option α) : Json → Option (Option α)
  | null => some none
  | value => (value? value).map some

def member? (name : String) : Json → Option Json
  | object members => (members.find? (·.1 = name)).map Prod.snd
  | _ => none

/-- The named fields of a record, which is an object that has no field twice or an array that gives
the fields in order. Other members of an object are left out. -/
def fields? (names : List String) : Json → Option (List (String × Json))
  | object members =>
    let known := members.filter fun member => names.contains member.1
    if (known.map Prod.fst).Nodup then some known else none
  | array items => if items.length = names.length then some (names.zip items) else none
  | _ => none

def required? {α : Type} (fields : List (String × Json)) (name : String)
    (value? : Json → Option α) : Option α :=
  (fields.lookup name).bind value?

def absentOr? {α : Type} (fields : List (String × Json)) (name : String)
    (value? : Json → Option α) : Option (Option α) :=
  match fields.lookup name with
  | none => some none
  | some value => optional? value? value

end Json
end CompactTopicMap
