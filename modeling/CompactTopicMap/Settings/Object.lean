import CompactTopicMap.Decimal.Reader
import CompactTopicMap.Json.Basic
import CompactTopicMap.Settings.Assign

namespace CompactTopicMap

def SettingValue.ofJson? : Json → Option SettingValue
  | .null => some .nothing
  | .bool value => some (.flag value)
  | .natural value => some (.integer value)
  | .decimal negative value => some (.real (value.toFloat negative))
  | .string value => some (.text value)
  | .array items => (items.mapM Json.text?).map .texts
  | _ => none

/-- The members of an object; the items of an array stand for the first settings in order. -/
def Settings.ofJson? (json : Json) : Option Settings := do
  let members ← match json with
    | .object members => some members
    | .array items =>
      if items.length ≤ SettingKey.all.length then
        some ((SettingKey.all.map SettingKey.name).zip items)
      else none
    | _ => none
  let values ← members.mapM fun (name, value) => (SettingValue.ofJson? value).map (name, ·)
  ofValues? values

end CompactTopicMap
