/-! Text under construction, in lines and in blocks whose statements semicolons separate. -/

namespace CompactTopicMap

def indent : String := "    "

inductive BlockState where
  | closed
  | headed
  /-- The last statement lacks its separator. -/
  | stated
  deriving DecidableEq, Repr

structure Buffer where
  text : String := ""
  state : BlockState := .closed
  deriving DecidableEq, Repr

namespace Buffer

def isBlockOpen (buffer : Buffer) : Bool := buffer.state != .closed

def endBlock (buffer : Buffer) : Buffer :=
  if buffer.state = .closed then buffer else { text := buffer.text ++ " .\n", state := .closed }

/-- Adds text as it is behind the end of an open block. -/
def append (buffer : Buffer) (text : String) : Buffer :=
  let buffer := buffer.endBlock
  { buffer with text := buffer.text ++ text }

def line (buffer : Buffer) (text : String) : Buffer := buffer.append (text ++ "\n")

def blank (buffer : Buffer) : Buffer := buffer.line ""

def comment (buffer : Buffer) (text : String) : Buffer := buffer.line ("# " ++ text)

def beginBlock (buffer : Buffer) (head : String) : Buffer :=
  { buffer.append head with state := .headed }

def statement (buffer : Buffer) (text : String) : Buffer :=
  match buffer.state with
  | .closed => buffer.line text
  | .headed => { text := buffer.text ++ "\n" ++ indent ++ text, state := .stated }
  | .stated => { text := buffer.text ++ ";\n" ++ indent ++ text, state := .stated }

def statements (buffer : Buffer) (texts : List String) : Buffer := texts.foldl statement buffer

def finish (buffer : Buffer) : String := buffer.endBlock.text

def take (buffer : Buffer) : Buffer × String := ({}, buffer.finish)

end Buffer
end CompactTopicMap
