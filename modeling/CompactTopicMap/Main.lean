import CompactTopicMap.CommandLine

namespace CompactTopicMap.CommandLine

def readFile? (path : String) : IO (Option String) := do
  try
    return some (← IO.FS.readFile path)
  catch _ => return none

def createFile (path : String) : IO Bool := do
  try
    IO.FS.writeFile path ""
    return true
  catch _ => return false

def finish (outcome : Outcome) : IO UInt32 := do
  if let some (path, text) := outcome.file then
    IO.FS.writeFile path text
  IO.print outcome.output
  outcome.messages.forM IO.eprintln
  return .ofNat outcome.status

end CompactTopicMap.CommandLine

open CompactTopicMap.CommandLine

def main (arguments : List String) : IO UInt32 := do
  match Request.ofArguments? arguments with
  | none =>
    IO.eprintln "Usage: ctm-write --graph <GRAPH> [OPTIONS]"
    finish (.failed .usage)
  | some r =>
    let config ← (r.config.map readFile?).getD (pure none)
    let graph ← readFile? r.graph
    let read (path : String) : Option String :=
      if r.config = some path then config else if r.graph = path then graph else none
    match r.prepare read with
    | .error failure => finish (.failed failure)
    | .ok (w, map) =>
      let created ← (r.out.map createFile).getD (pure false)
      finish (r.deliver (fun _ => created) (w.write map.source))
