import CompactTopicMap.Namespaces
import CompactTopicMap.Session.Encode
import CompactTopicMap.Session.Mining
import CompactTopicMap.Template.Merge

/-! A document is a header and stages. All that can reject a graph comes before the header. -/

namespace CompactTopicMap

structure Report where
  topics : Nat := 0
  associations : Nat := 0
  invocations : Nat := 0
  definitions : Nat := 0
  bindings : Nat := 0
  skipped : Nat := 0
  deriving DecidableEq, Repr

structure Writer where
  settings : Settings
  table : PrefixTable := .standard
  includes : List String := []
  mergeMaps : List (String × String) := []
  templates : List Template := []
  labelling : Labelling

/-- What was written before the end or an error: the texts that were handed out, one after the
other. -/
structure Output where
  texts : List String
  result : Except Error Report

structure Pieces where
  progress : Progress
  pieces : List Piece
  fault : Option Error := none

def writeEach {α : Type} (write : Progress → α → Progress × Except Error (Option Piece)) :
    List α → Progress → Pieces
  | [], p => ⟨p, [], none⟩
  | item :: items, p =>
    match write p item with
    | (p, .error e) => ⟨p, [], some e⟩
    | (p, .ok none) => writeEach write items p
    | (p, .ok (some piece)) =>
      let rest := writeEach write items p
      { rest with pieces := piece :: rest.pieces }

def Pieces.texts (pieces : Pieces) : List String := pieces.pieces.map Piece.text

def Pieces.invocations (pieces : Pieces) : Nat :=
  pieces.pieces.foldl (fun count piece => count + piece.invocations) 0

def stage (text : String) : List String := if text = "" then [] else ["\n", text]

def lineStage (lines : List String) : List String := stage (String.join (lines.map (· ++ "\n")))

def blockStage (blocks : List String) : List String := stage ("\n".intercalate blocks)

def trailer : String := "# generated by ctm-writer 0.3.0"

namespace Writer

def make (settings : Settings) (labelling : Labelling) : Except Error Writer :=
  settings.validate.map fun _ => { settings, labelling }

def addBinding (w : Writer) (label space : String) : Except Error Writer :=
  if isIdentifier label then (w.table.bind label space).map fun table => { w with table }
  else .error (.invalidSetting ("prefix " ++ label) .badLabel)

def addInclude (w : Writer) (iri : String) : Writer := { w with includes := w.includes ++ [iri] }

def addMergeMap (w : Writer) (iri format : String) : Writer :=
  { w with mergeMaps := w.mergeMaps ++ [(iri, format)] }

def addTemplate (w : Writer) (t : Template) : Except Error Writer :=
  t.validate.map fun _ => { w with templates := w.templates ++ [t] }

/-- The given templates, then the mined ones, all of them merged if the settings say so. -/
def prepareTemplates (w : Writer) (s : Session) : List Template :=
  let mined := if w.settings.mineTemplates then s.mineAll (w.templates.map Template.name) else []
  let templates := w.templates ++ mined
  if w.settings.mergeTemplates then
    ((Merger.make w.settings.mergeLeast w.settings.mergeGreatest).merge templates).2
  else templates

def invocationOrder (templates : List Template) : List Template :=
  templates.mergeSort fun a b => b.flattened.length ≤ a.flattened.length

def definitions (w : Writer) (s : Session) (templates : List Template) :
    Except Error (List String) :=
  if w.settings.defineTemplates then
    ((dependencyOrder templates).filter (!w.settings.isUndefined ·.name)).mapM s.define
  else .ok []

/-- The session in which a graph is written, and the definitions of its templates. -/
def open? (w : Writer) (source : Source) : Except Error (Session × List String) := do
  let table :=
    if w.settings.detectNamespaces then (w.table.detect w.labelling source).1 else w.table
  let typing ← Typing.build source
  let s : Session := { source, settings := w.settings, table, typing }
  let templates := w.prepareTemplates s
  templates.forM Template.validate
  let definitions ← w.definitions s templates
  .ok ({ s with templates := invocationOrder templates }, definitions)

/-- The header refers to the reifier of the topic map, which is skipped if it has no identity. -/
def header (s : Session) : Progress × String :=
  let first := "%encoding \"UTF-8\"\n%version 1.0\n"
  match s.source.map.reifier with
  | none => ({}, first)
  | some reifier =>
    match s.reference? reifier with
    | some text => ({}, first ++ "~ " ++ text ++ "\n")
    | none => (Progress.skip {}, first)

def bindingLine (b : Binding) : String := "%prefix " ++ b.label ++ " " ++ absoluteReference b.space

def includeLine (iri : String) : String := "%include " ++ absoluteReference iri

def mergeMapLine (mergeMap : String × String) : String :=
  "%mergemap " ++ absoluteReference mergeMap.1 ++ " " ++ mergeMap.2

def topicPieces (s : Session) : Pieces := writeEach s.writeTopic s.source.topicIds (header s).1

def associationPieces (s : Session) : Pieces :=
  writeEach s.writeAssociation s.source.associationIds (topicPieces s).progress

def report (s : Session) (definitions : List String) (topics associations : Pieces) : Report where
  topics := topics.pieces.length
  associations := associations.pieces.length
  invocations := topics.invocations + associations.invocations
  definitions := definitions.length
  bindings := s.table.size
  skipped := associations.progress.skipped

def assemble (w : Writer) (s : Session) (definitions : List String) : Output :=
  let before := (header s).2 ::
    lineStage (s.table.bindings.map bindingLine) ++ lineStage (w.includes.map includeLine) ++
    lineStage (w.mergeMaps.map mergeMapLine) ++ blockStage definitions
  let topics := topicPieces s
  match topics.fault with
  | some e => ⟨before, .error e⟩
  | none =>
    let before := before ++ blockStage topics.texts
    let associations := associationPieces s
    match associations.fault with
    | some e => ⟨before, .error e⟩
    | none =>
      ⟨before ++ stage (String.join associations.texts) ++ lineStage [trailer],
        .ok (report s definitions topics associations)⟩

def write (w : Writer) (source : Source) : Output :=
  match w.open? source with
  | .error e => ⟨[], .error e⟩
  | .ok (s, definitions) => w.assemble s definitions

def writeText (w : Writer) (source : Source) : Except Error String :=
  let output := w.write source
  output.result.map fun _ => String.join output.texts

end Writer

namespace Output

def text (output : Output) : String := String.join output.texts

def within : Nat → List String → List String × Bool
  | _, [] => ([], true)
  | limit, text :: texts =>
    if text.utf8ByteSize ≤ limit then
      let (kept, all) := within (limit - text.utf8ByteSize) texts
      (text :: kept, all)
    else ([], false)

/-- The output into a place that takes at most `limit` octets, and refuses, as a whole, the first
text that goes beyond. -/
def limited (output : Output) (limit : Nat) : Output :=
  let (texts, all) := within limit output.texts
  ⟨texts, if all then output.result else .error (.output "disk full")⟩

end Output
end CompactTopicMap
