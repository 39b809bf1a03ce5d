import CompactTopicMap.Document
import CompactTopicMap.Json.Reader
import CompactTopicMap.Settings.Document
import CompactTopicMap.Snapshot

/-! A command as a function of its arguments and of the files that it reads. -/

namespace CompactTopicMap.CommandLine

inductive Flag where
  | graph
  | config
  | out
  | set
  | binding
  | includes
  | mergeMap
  deriving DecidableEq, Repr

namespace Flag

def all : List Flag := [graph, config, out, set, binding, includes, mergeMap]

def name : Flag → String
  | graph => "--graph"
  | config => "--config"
  | out => "--out"
  | set => "--set"
  | binding => "--prefix"
  | includes => "--include"
  | mergeMap => "--mergemap"

def ofName? (name : List Char) : Option Flag := all.find? (·.name.toList = name)

def takesPath : Flag → Bool
  | graph | config | out => true
  | _ => false

end Flag

structure Given where
  flag : Flag
  value : String
  deriving DecidableEq, Repr

def isValue (argument : String) : Bool :=
  match argument.toList with
  | '-' :: _ :: _ => false
  | _ => true

/-- Reads flags with their values, which are arguments of their own or stand behind an equals sign.
A double hyphen may end the arguments. -/
def givens? : List String → Option (List Given)
  | [] => some []
  | ["--"] => some []
  | argument :: rest =>
    match Text.cutFirst? '=' argument.toList with
    | some (name, value) => do
      let flag ← Flag.ofName? name
      some (⟨flag, .ofList value⟩ :: (← givens? rest))
    | none => do
      let flag ← Flag.ofName? argument.toList
      match rest with
      | [] => none
      | value :: rest =>
        if isValue value then some (⟨flag, value⟩ :: (← givens? rest)) else none

structure Request where
  graph : String
  config : Option String
  out : Option String
  settings : List String
  bindings : List String
  includes : List String
  mergeMaps : List String
  deriving DecidableEq, Repr

def valuesOf (givens : List Given) (flag : Flag) : List String :=
  (givens.filter (·.flag = flag)).map Given.value

def arePathsValid (givens : List Given) : Bool :=
  (Flag.all.filter Flag.takesPath).all fun flag =>
    (valuesOf givens flag).length ≤ 1 && !(valuesOf givens flag).contains ""

def Request.ofArguments? (arguments : List String) : Option Request := do
  let givens ← givens? arguments
  if arePathsValid givens then
    some {
      graph := ← (valuesOf givens .graph).head?
      config := (valuesOf givens .config).head?
      out := (valuesOf givens .out).head?
      settings := valuesOf givens .set
      bindings := valuesOf givens .binding
      includes := valuesOf givens .includes
      mergeMaps := valuesOf givens .mergeMap }
  else none

inductive Failure where
  | usage
  | unreadable (path : String)
  | badConfig (path : String) (cause : Error)
  | badSetting (text : String) (cause : Error)
  | refused (cause : Error)
  | notPair (flag : Flag) (form text : String)
  | badSnapshot (path : String)
  | uncreatable (path : String)
  | unwritten (out : Option String) (cause : Error)
  deriving DecidableEq, Repr

namespace Failure

def status : Failure → Nat
  | usage => 2
  | _ => 1

def causedBy (context : String) (cause : Error) : List String :=
  ["Error: " ++ context, "", "Caused by:", "    " ++ cause.message]

def lines : Failure → List String
  | usage => []
  | unreadable path => ["Error: Failed to read " ++ path]
  | badConfig path cause => causedBy ("Invalid configuration in " ++ path) cause
  | badSetting text cause => causedBy ("Invalid setting '" ++ text ++ "'") cause
  | refused cause => ["Error: " ++ cause.message]
  | notPair flag form text =>
    ["Error: " ++ flag.name ++ " expects " ++ form ++ ", got '" ++ text ++ "'"]
  | badSnapshot path => ["Error: Failed to parse topic map snapshot " ++ path]
  | uncreatable path => ["Error: Failed to create " ++ path]
  | unwritten none cause => causedBy "Failed to write CTM to standard output" cause
  | unwritten (some path) cause => causedBy ("Failed to write " ++ path) cause

end Failure

structure Outcome where
  status : Nat
  output : String := ""
  messages : List String := []
  file : Option (String × String) := none
  deriving DecidableEq, Repr

def Outcome.failed (failure : Failure) : Outcome :=
  { status := failure.status, messages := failure.lines }

def Report.line (report : Report) : String :=
  s!"{report.topics} topics, {report.associations} associations, " ++
    s!"{report.invocations} invocations, {report.definitions} templates, " ++
    s!"{report.skipped} skipped"

def orFail {α : Type} (failure : Error → Failure) : Except Error α → Except Failure α
  | .ok value => .ok value
  | .error e => .error (failure e)

def readPair (flag : Flag) (text : String) : Except Failure (String × String) :=
  match Text.trimmedPair? '=' text with
  | some pair => .ok pair
  | none => .error (.notPair flag "KEY=VALUE" text)

/-- An address may hold equals signs, and a format does not. -/
def readMergeMap (text : String) : Except Failure (String × String) :=
  match Text.cutLast? '=' text.toList with
  | some (iri, format) => .ok (Text.trim (.ofList iri), Text.trim (.ofList format))
  | none => .error (.notPair .mergeMap "IRI=NOTATION" text)

namespace Request

def readSettings (r : Request) (read : String → Option String) : Except Failure Settings := do
  let settings : Settings ←
    match r.config with
    | none => .ok {}
    | some path =>
      match read path with
      | none => .error (.unreadable path)
      | some document => orFail (.badConfig path) (Settings.ofDocument document)
  r.settings.foldlM
    (fun settings text => do
      let (name, value) ← readPair .set text
      let (settings, result) := settings.set name value
      orFail (.badSetting text) (result.map fun _ => settings))
    settings

def readWriter (r : Request) (read : String → Option String) : Except Failure Writer := do
  let settings ← r.readSettings read
  let w ← orFail .refused (Writer.make settings labelByPath)
  let w ← r.bindings.foldlM
    (fun w text => do
      let (label, space) ← readPair .binding text
      orFail .refused (w.addBinding label space)) w
  let w := r.includes.foldl Writer.addInclude w
  r.mergeMaps.foldlM
    (fun w text => do
      let (iri, format) ← readMergeMap text
      .ok (w.addMergeMap iri format)) w

def readGraph (r : Request) (read : String → Option String) : Except Failure TopicMap :=
  match read r.graph with
  | none => .error (.unreadable r.graph)
  | some text =>
    match (Json.ofText? text).bind Snapshot.map? with
    | none => .error (.badSnapshot r.graph)
    | some map => .ok map

def deliver (r : Request) (creates : String → Bool) (output : Output) : Outcome :=
  match r.out with
  | none =>
    match output.result with
    | .ok report => { status := 0, output := output.text, messages := [Report.line report] }
    | .error e => { Outcome.failed (.unwritten none e) with output := output.text }
  | some path =>
    if creates path then
      match output.result with
      | .ok report =>
        { status := 0
          messages := ["  Written: " ++ path, Report.line report]
          file := some (path, output.text) }
      | .error e =>
        { Outcome.failed (.unwritten (some path) e) with file := some (path, output.text) }
    else Outcome.failed (.uncreatable path)

def prepare (r : Request) (read : String → Option String) :
    Except Failure (Writer × TopicMap) := do
  let w ← r.readWriter read
  .ok (w, ← r.readGraph read)

end Request

def run (read : String → Option String) (creates : String → Bool) (arguments : List String) :
    Outcome :=
  match Request.ofArguments? arguments with
  | none => Outcome.failed .usage
  | some r =>
    match r.prepare read with
    | .error failure => Outcome.failed failure
    | .ok (w, map) => r.deliver creates (w.write map.source)

end CompactTopicMap.CommandLine
