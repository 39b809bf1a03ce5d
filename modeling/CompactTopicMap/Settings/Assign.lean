import CompactTopicMap.Decimal.Reader
import CompactTopicMap.Settings.Basic
import CompactTopicMap.Text.Cut

namespace CompactTopicMap

inductive SettingValue where
  | nothing
  | flag (value : Bool)
  | integer (value : Int)
  | real (value : Float)
  | text (value : String)
  | texts (values : List String)
  deriving DecidableEq, Repr

namespace SettingValue

def flag? : SettingValue → Option Bool
  | flag value => some value
  | _ => none

def real? : SettingValue → Option Float
  | integer value => some (.ofInt value)
  | real value => some value
  | _ => none

def size? : SettingValue → Option Nat
  | integer value => if 0 ≤ value && value.toNat < sizeBound then some value.toNat else none
  | _ => none

def text? : SettingValue → Option String
  | text value => some value
  | _ => none

def texts? : SettingValue → Option (List String)
  | texts values => some values
  | _ => none

def optional? {α : Type} (value? : SettingValue → Option α) :
    SettingValue → Option (Option α)
  | nothing => some none
  | value => (value? value).map some

end SettingValue

namespace Settings

/-- Gives a setting a typed value; there is no result if the setting takes no value of that type. -/
def assign? (settings : Settings) (key : SettingKey) (value : SettingValue) : Option Settings :=
  match key with
  | .writeItemIdentifiers =>
    value.flag?.map fun value => { settings with writeItemIdentifiers := value }
  | .detectNamespaces => value.flag?.map fun value => { settings with detectNamespaces := value }
  | .mineTemplates => value.flag?.map fun value => { settings with mineTemplates := value }
  | .mineTopics => value.flag?.map fun value => { settings with mineTopics := value }
  | .mineAssociations => value.flag?.map fun value => { settings with mineAssociations := value }
  | .relevance => value.real?.map fun value => { settings with relevance := value }
  | .defineTemplates => value.flag?.map fun value => { settings with defineTemplates := value }
  | .undefinedTemplates =>
    value.texts?.map fun value => { settings with undefinedTemplates := value }
  | .mergeTemplates => value.flag?.map fun value => { settings with mergeTemplates := value }
  | .mergeLeast => value.size?.map fun value => { settings with mergeLeast := value }
  | .mergeGreatest =>
    (value.optional? SettingValue.size?).map fun value => { settings with mergeGreatest := value }
  | .engine =>
    (value.optional? SettingValue.text?).map fun value =>
      { settings with naming := { settings.naming with engine := value } }
  | .base =>
    (value.optional? SettingValue.text?).map fun value =>
      { settings with naming := { settings.naming with base := value } }

def ofValues? (values : List (String × SettingValue)) : Option Settings :=
  values.foldlM
    (fun settings (name, value) => do settings.assign? (← SettingKey.ofName? name) value) {}

def readFlag (text : String) : Except SettingFault SettingValue :=
  if ["true", "yes", "on", "1"].contains text then .ok (.flag true)
  else if ["false", "no", "off", "0"].contains text then .ok (.flag false)
  else .error (.notBoolean text)

def readReal (text : String) : Except SettingFault SettingValue :=
  match readFloat? text with
  | some value => .ok (.real value)
  | none => .error .notNumber

def readSize (text : String) : Except SettingFault SettingValue :=
  match readSize? text with
  | some value => .ok (.integer value)
  | none => .error .notNatural

def readTexts (text : String) : SettingValue :=
  let parts := (Text.splitWhere (· == ',') text.toList).map fun part => Text.trim (.ofList part)
  .texts (parts.filter (· != ""))

def readOptional (text : String) : SettingValue :=
  if text = "" then .nothing else .text text

/-- Reads the text of a value as the setting demands; an empty text clears what is optional. -/
def readValue (key : SettingKey) (text : String) : Except SettingFault SettingValue :=
  match key with
  | .relevance => readReal text
  | .undefinedTemplates => .ok (readTexts text)
  | .mergeLeast => readSize text
  | .mergeGreatest => if text = "" then .ok .nothing else readSize text
  | .engine | .base => .ok (readOptional text)
  | _ => readFlag text

/-- Sets a named setting and checks the result. A value that can be read is kept even if it is out
of range. -/
def set (settings : Settings) (name text : String) : Settings × Except Error Unit :=
  match SettingKey.ofName? name with
  | none => (settings, .error (.invalidSetting name .unknownKey))
  | some key =>
    match readValue key (Text.trim text) with
    | .error fault => (settings, .error (.invalidSetting name fault))
    | .ok value =>
      let settings := (settings.assign? key value).getD settings
      (settings, settings.validate)

end Settings
end CompactTopicMap
