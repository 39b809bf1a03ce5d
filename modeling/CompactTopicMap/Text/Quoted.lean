/-! Quoted strings, which are written differently in a statement and in an argument. -/

namespace CompactTopicMap.Text

inductive QuoteSite where
  | block
  | argument
  deriving DecidableEq, Repr

def doubleBackslashes (text : List Char) : List Char :=
  text.flatMap fun c => if c = '\\' then ['\\', '\\'] else [c]

/-- Escapes every third quote of a run; `run` quotes stand before the text. -/
def escapeThirdQuotes : Nat → List Char → List Char
  | _, [] => []
  | run, c :: rest =>
    if c = '"' then
      if run = 2 then '\\' :: '"' :: escapeThirdQuotes 0 rest
      else '"' :: escapeThirdQuotes (run + 1) rest
    else c :: escapeThirdQuotes 0 rest

/-- Escapes every quote of a run at the end, and before it every third of a run. -/
def escapeQuotes (text : List Char) : List Char :=
  let final := text.reverse.takeWhile (· == '"')
  escapeThirdQuotes 0 (text.take (text.length - final.length)) ++
    final.flatMap fun _ => ['\\', '"']

def apostrophes (text : List Char) : List Char :=
  text.map fun c => if c = '"' then '\'' else c

def quoteChars (site : QuoteSite) (text : List Char) : List Char :=
  let escaped := doubleBackslashes text
  if '"' ∈ escaped then
    match site with
    | .block => '"' :: apostrophes escaped ++ ['"']
    | .argument => ['"', '"', '"'] ++ escapeQuotes escaped ++ ['"', '"', '"']
  else '"' :: escaped ++ ['"']

def quote (site : QuoteSite) (text : String) : String :=
  .ofList (quoteChars site text.toList)

end CompactTopicMap.Text
