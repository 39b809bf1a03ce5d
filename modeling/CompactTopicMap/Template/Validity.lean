import CompactTopicMap.Error
import CompactTopicMap.Template.Basic

namespace CompactTopicMap

namespace Entry

mutual

def check (owner : String) : Entry → Except Error Unit
  | statement s =>
    if s.isPart then .error (.invalidTemplate owner (.misplaced s.kindName)) else .ok ()
  | invocation name kind body =>
    if kind != .topic then .error (.invalidTemplate owner .invokesAssociation)
    else if !isIdentifier name then .error (.invalidTemplate name .badName)
    else if (flattenAll body).isEmpty then .error (.invalidTemplate name .noStatements)
    else checkAll name body
  | group entries =>
    if entries.isEmpty then .error (.invalidTemplate owner .emptyGroup)
    else checkAll owner entries

def checkAll (owner : String) : List Entry → Except Error Unit
  | [] => .ok ()
  | entry :: entries =>
    match check owner entry with
    | .ok () => checkAll owner entries
    | .error e => .error e

end

end Entry

namespace Template

def validate (t : Template) : Except Error Unit :=
  if !isIdentifier t.name then .error (.invalidTemplate t.name .badName)
  else
    match t.kind with
    | .topic =>
      if t.flattened.isEmpty then .error (.invalidTemplate t.name .noStatements)
      else Entry.checkAll t.name t.entries
    | .association =>
      match t.entries with
      | [.statement (.association _)] => .ok ()
      | _ => .error (.invalidTemplate t.name .notOneAssociation)

end Template
end CompactTopicMap
