/-! A line ends at a newline, or at a carriage return before one. -/

namespace CompactTopicMap.Text

def lines : List Char → List (List Char)
  | [] => []
  | '\n' :: rest => [] :: lines rest
  | '\r' :: '\n' :: rest => [] :: lines rest
  | c :: rest =>
    match lines rest with
    | [] => [[c]]
    | line :: more => (c :: line) :: more

def indentLine (indent line : List Char) : List Char :=
  if line.isEmpty then ['\n'] else indent ++ line ++ ['\n']

/-- Every line ends with a newline, and the lines that are not empty start with `indent`. -/
def indentLines (indent text : String) : String :=
  .ofList ((lines text.toList).flatMap (indentLine indent.toList))

end CompactTopicMap.Text
