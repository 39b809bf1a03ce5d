namespace CompactTopicMap.Layout

def commaSeparated (parts : List String) : String := ", ".intercalate parts

def scope (themes : List String) : String :=
  if themes.isEmpty then "" else " @ " ++ commaSeparated themes

def reifier : Option String → String
  | none => ""
  | some topic => " ~ " ++ topic

def variant (value scope reifier : String) : String :=
  "(" ++ value ++ scope ++ reifier ++ ")"

def name (type : Option String) (value scope reifier : String) (variants : List String) : String :=
  let type := type.elim "" (· ++ ": ")
  "- " ++ type ++ value ++ scope ++ reifier ++ String.join (variants.map (" " ++ ·))

def occurrence (type value scope reifier : String) : String :=
  type ++ ": " ++ value ++ scope ++ reifier

def role (type player reifier : String) : String :=
  type ++ " : " ++ player ++ reifier

def association (type : String) (roles : List String) (scope reifier : String) : String :=
  type ++ "(" ++ commaSeparated roles ++ ")" ++ scope ++ reifier

def invocation (template : String) (arguments : List String) : String :=
  template ++ "(" ++ commaSeparated arguments ++ ")"

end CompactTopicMap.Layout
