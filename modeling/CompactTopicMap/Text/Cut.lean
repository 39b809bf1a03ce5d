import CompactTopicMap.Text.Blank

namespace CompactTopicMap.Text

/-- The parts between the characters that satisfy `p`; there is always at least one. -/
def splitWhere (p : Char → Bool) : List Char → List (List Char)
  | [] => [[]]
  | c :: rest =>
    if p c then [] :: splitWhere p rest
    else match splitWhere p rest with
      | [] => [[c]]
      | part :: parts => (c :: part) :: parts

def cutFirst? (separator : Char) (text : List Char) : Option (List Char × List Char) :=
  match text.dropWhile (· != separator) with
  | [] => none
  | _ :: after => some (text.takeWhile (· != separator), after)

def cutLast? (separator : Char) (text : List Char) : Option (List Char × List Char) :=
  (cutFirst? separator text.reverse).map fun (after, before) => (before.reverse, after.reverse)

def after? (mark : List Char) : List Char → Option (List Char)
  | [] => if mark.isEmpty then some [] else none
  | c :: rest => (mark.isPrefixOf? (c :: rest)).or (after? mark rest)

def trimmedPair? (separator : Char) (text : String) : Option (String × String) :=
  (cutFirst? separator text.toList).map fun (before, after) =>
    (trim (.ofList before), trim (.ofList after))

end CompactTopicMap.Text
