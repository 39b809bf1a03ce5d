import CompactTopicMap.Proofs.AtMostOnce
import CompactTopicMap.Proofs.Rejection

namespace CompactTopicMap

section Texts

def stagedText (header : String) (stages : List String) : String :=
  header ++ String.join ((stages.filter (· ≠ "")).map ("\n" ++ ·))

def linesText (lines : List String) : String := String.join (lines.map (· ++ "\n"))

def blockText (head : String) (statements : List String) : String :=
  let body := if statements.isEmpty then "" else "\n    " ++ ";\n    ".intercalate statements
  head ++ body ++ " .\n"

theorem join_flatMap_stage (stages : List String) :
    String.join (stages.flatMap stage) =
      String.join ((stages.filter (· ≠ "")).map ("\n" ++ ·)) := by
  induction stages with
  | nil => rfl
  | cons text stages ih =>
    rw [List.flatMap_cons, String.join_append, ih, stage]
    by_cases empty : text = ""
    · simp [empty]
    · simp [empty]

theorem intercalate_cons (separator first : String) (rest : List String) :
    separator.intercalate (first :: rest) = first ++ String.join (rest.map (separator ++ ·)) := by
  induction rest generalizing first with
  | nil => simp
  | cons second rest ih =>
    rw [String.intercalate_cons_cons, ih, List.map_cons, String.join_cons]
    simp only [String.append_assoc]

theorem statements_of_stated (text : String) (statements : List String) :
    (Buffer.mk text .stated).statements statements =
      ⟨text ++ String.join (statements.map (";\n    " ++ ·)), .stated⟩ := by
  induction statements generalizing text with
  | nil => simp [Buffer.statements]
  | cons statement statements ih =>
    have step : (Buffer.mk text .stated).statement statement =
        ⟨text ++ (";\n    " ++ statement), .stated⟩ := by
      simp [Buffer.statement, indent, String.append_assoc]
    rw [Buffer.statements, List.foldl_cons, step, ← Buffer.statements, ih, List.map_cons,
      String.join_cons, String.append_assoc]

theorem Session.block_eq (head : String) (statements : List String) :
    Session.block head statements = blockText head statements := by
  cases statements with
  | nil => simp [Session.block, blockText, Buffer.statements, Buffer.beginBlock, Buffer.append,
      Buffer.endBlock, Buffer.finish]
  | cons statement statements =>
    have opened : (Buffer.beginBlock {} head).statement statement =
        ⟨head ++ "\n    " ++ statement, .stated⟩ := by
      simp [Buffer.statement, Buffer.beginBlock, Buffer.append, Buffer.endBlock, indent,
        String.append_assoc]
    rw [Session.block, Buffer.statements, List.foldl_cons, opened, ← Buffer.statements,
      statements_of_stated, blockText, List.isEmpty_cons, if_neg Bool.false_ne_true,
      intercalate_cons]
    simp [Buffer.finish, Buffer.endBlock, String.append_assoc]

end Texts

namespace Trace

def isSilent : Trace → Bool
  | silent => true
  | _ => false

def text : Trace → String
  | silent => ""
  | block head invocations types characteristics =>
    blockText head.text ((types ++ invocations ++ characteristics).map Emission.text)
  | line literal => linesText [literal.text]
  | invoked lines => linesText (lines.map Emission.text)

/-- The invocations among what was put out. -/
def invocations : Trace → List Emission
  | block _ invocations _ _ => invocations
  | invoked lines => lines
  | silent | line _ => []

theorem piece_eq (trace : Trace) :
    trace.piece =
      if trace.isSilent then none else some ⟨trace.text, trace.invocations.length⟩ := by
  cases trace with
  | silent => rfl
  | block => simp [piece, isSilent, text, invocations, Session.block_eq]
  | line => simp [piece, isSilent, text, invocations, linesText]
  | invoked => simp [piece, isSilent, text, invocations, linesText, Function.comp_def]

theorem of_piece_eq_some {trace : Trace} {piece : Piece} (shown : trace.piece = some piece) :
    trace.isSilent = false ∧ piece = ⟨trace.text, trace.invocations.length⟩ := by
  rw [piece_eq] at shown
  cases silent : trace.isSilent with
  | true =>
    rw [silent] at shown
    cases shown
  | false =>
    rw [silent] at shown
    exact ⟨rfl, (Option.some.inj shown).symm⟩

theorem filterMap_piece (traces : List Trace) :
    traces.filterMap piece =
      (traces.filter (!·.isSilent)).map fun trace => ⟨trace.text, trace.invocations.length⟩ := by
  induction traces with
  | nil => rfl
  | cons trace traces ih =>
    rw [List.filterMap_cons, List.filter_cons, piece_eq]
    cases trace.isSilent with
    | true => simp [ih]
    | false => simp [ih]

end Trace

namespace Session

variable (s : Session)

def IsInvocation (text : String) : Prop :=
  ∃ t ∈ s.templates, ∃ arguments, text = t.invocation arguments

def hasBlock (id : TopicId) : Bool := !s.isReserved id && s.IsNamed id

/-- A block under the identity of the topic: invocations, and what the topic has besides. -/
inductive IsBlock (id : TopicId) : Trace → Prop
  | block {identity : Identity} {head : Emission} {invocations : List Emission} {p q : Progress}
    (identified : s.identity? id = some identity) (named : head.text = identity.display)
    (invoke : ∀ e ∈ invocations, s.IsInvocation e.text) :
    IsBlock id (.block head invocations (s.traceTypes id p).2 (s.traceCharacteristics id q).2)

/-- The line of the association, or invocations that stand for it. -/
inductive IsEntry (id : AssociationId) : Trace → Prop
  | line {p q : Progress} {literal : Emission}
    (encoded : s.encodeAssociation p id = (q, some literal.text)) : IsEntry id (.line literal)
  | invoked {lines : List Emission} (some : lines ≠ [])
    (invoke : ∀ e ∈ lines, s.IsInvocation e.text ∧ .association id ∈ e.constructs) :
    IsEntry id (.invoked lines)

section Topics

theorem traceRepeatedly_invokes (t : Template) (id : TopicId) (rounds : Nat) (p : Progress) :
    ∀ e ∈ (s.traceRepeatedly t id rounds p).2, ∃ arguments, e.text = t.invocation arguments := by
  induction rounds generalizing p with
  | zero => exact nofun
  | succ rounds ih =>
    intro e member
    rw [traceRepeatedly] at member
    split at member
    · cases member
    · split at member
      · cases member
      · rename_i arguments _
        split at member
        · cases member
        · rcases List.mem_cons.mp member with rfl | later
          · exact ⟨arguments, rfl⟩
          · exact ih _ e later

theorem traceTemplates_invokes (id : TopicId) (templates : List Template) (p : Progress) :
    ∀ e ∈ (s.traceTemplates id templates p).2,
      ∃ t ∈ templates, ∃ arguments, e.text = t.invocation arguments := by
  induction templates generalizing p with
  | nil => exact nofun
  | cons t ts ih =>
    intro e member
    rw [traceTemplates] at member
    split at member
    · rcases List.mem_append.mp member with first | later
      · exact ⟨t, List.mem_cons_self, s.traceRepeatedly_invokes t id _ p e first⟩
      · obtain ⟨other, inside, invokes⟩ := ih _ e later
        exact ⟨other, List.mem_cons_of_mem t inside, invokes⟩
    · obtain ⟨other, inside, invokes⟩ := ih _ e member
      exact ⟨other, List.mem_cons_of_mem t inside, invokes⟩

theorem traceTopic_silent {id : TopicId} (without : s.hasBlock id = false) (p : Progress) :
    (s.traceTopic p id).2 = .silent := by
  rw [traceTopic]
  split
  · rfl
  · rename_i unreserved
    have anonymous : ¬s.IsNamed id := by simpa [hasBlock, unreserved] using without
    rw [← identity?_isSome, Option.not_isSome_iff_eq_none] at anonymous
    rw [anonymous]

theorem traceTopic_isBlock {id : TopicId} (block : s.hasBlock id = true) (p : Progress) :
    s.IsBlock id (s.traceTopic p id).2 := by
  simp only [hasBlock, Bool.and_eq_true, Bool.not_eq_true', decide_eq_true_eq] at block
  obtain ⟨identity, identified⟩ := Option.isSome_iff_exists.mp ((s.identity?_isSome id).mpr block.2)
  simp only [traceTopic, block.1, Bool.false_eq_true, if_false, identified]
  exact .block identified rfl (s.traceTemplates_invokes id s.templates _)

theorem IsBlock.isSilent {s : Session} {id : TopicId} {trace : Trace} (block : s.IsBlock id trace) :
    trace.isSilent = false := by
  cases block
  rfl

theorem writeTopic_block {p q : Progress} {id : TopicId} {piece : Piece}
    (written : s.writeTopic p id = (q, .ok (some piece))) :
    ∃ trace, s.traceTopic p id = (q, trace) ∧ s.IsBlock id trace ∧
      piece = ⟨trace.text, trace.invocations.length⟩ := by
  rw [writeTopic_eq_trace] at written
  obtain ⟨rfl, result⟩ := Prod.mk.inj written
  obtain ⟨loud, rfl⟩ := Trace.of_piece_eq_some (Except.ok.inj result)
  have block : s.hasBlock id = true := by
    by_contra without
    rw [s.traceTopic_silent (by simpa using without) p] at loud
    cases loud
  exact ⟨_, rfl, s.traceTopic_isBlock block p, rfl⟩

theorem traceEach_blocks (ids : List TopicId) (p : Progress) :
    List.Forall₂ s.IsBlock (ids.filter s.hasBlock)
      ((s.traceEach (ids.map .topic) p).2.filter (!·.isSilent)) := by
  induction ids generalizing p with
  | nil => exact .nil
  | cons id ids ih =>
    rw [List.map_cons, traceEach, trace]
    cases block : s.hasBlock id with
    | false =>
      have silent := s.traceTopic_silent block p
      simpa [block, silent, Trace.isSilent] using ih _
    | true =>
      have shown := s.traceTopic_isBlock block p
      simpa [block, shown.isSilent] using ⟨shown, ih _⟩

end Topics

section Associations

theorem traceForAssociation_invokes (id : AssociationId) (templates : List Template)
    (p : Progress) :
    ∀ e ∈ (s.traceForAssociation id templates p).2,
      (∃ t ∈ templates, ∃ arguments, e.text = t.invocation arguments) ∧
        .association id ∈ e.constructs := by
  induction templates generalizing p with
  | nil => exact nofun
  | cons t ts ih =>
    intro e member
    have later : ∀ q, e ∈ (s.traceForAssociation id ts q).2 →
        (∃ t' ∈ t :: ts, ∃ arguments, e.text = t'.invocation arguments) ∧
          .association id ∈ e.constructs := by
      intro q inside
      obtain ⟨⟨other, listed, invokes⟩, stands⟩ := ih q e inside
      exact ⟨⟨other, List.mem_cons_of_mem t listed, invokes⟩, stands⟩
    rw [traceForAssociation] at member
    split at member
    · exact later p member
    · rename_i m found
      split at member
      · cases member
      · rename_i q arguments _
        rcases List.mem_cons.mp member with rfl | rest
        · refine ⟨⟨t, List.mem_cons_self, arguments, rfl⟩, ?_⟩
          obtain ⟨_, _, _, _, matched⟩ := Matcher.matchAssociation?_spec found
          obtain ⟨_, _, takes, _⟩ := Matcher.association?_spec matched
          rw [takes.claims]
          exact List.mem_append_left _ List.mem_cons_self
        · exact later q rest

theorem traceAssociation_isEntry (p : Progress) (id : AssociationId) :
    (s.traceAssociation p id).2.isSilent = true ∨ s.IsEntry id (s.traceAssociation p id).2 := by
  rw [traceAssociation]
  split
  · exact .inl rfl
  · have invoke := s.traceForAssociation_invokes id s.templates p
    split
    · rename_i q _
      split
      · rename_i encoded
        exact .inr (.line encoded)
      · exact .inl rfl
    · rename_i lines some found
      rw [found] at invoke
      exact .inr (.invoked some invoke)

theorem writeAssociation_entry {p q : Progress} {id : AssociationId} {piece : Piece}
    (written : s.writeAssociation p id = (q, .ok (some piece))) :
    ∃ trace, s.traceAssociation p id = (q, trace) ∧ s.IsEntry id trace ∧
      piece = ⟨trace.text, trace.invocations.length⟩ := by
  rw [writeAssociation_eq_trace] at written
  obtain ⟨rfl, result⟩ := Prod.mk.inj written
  obtain ⟨loud, rfl⟩ := Trace.of_piece_eq_some (Except.ok.inj result)
  exact ⟨_, rfl, (s.traceAssociation_isEntry p id).resolve_left (by simp [loud]), rfl⟩

theorem traceEach_entries (ids : List AssociationId) (p : Progress) :
    ∃ shown, shown.Sublist ids ∧ List.Forall₂ s.IsEntry shown
      ((s.traceEach (ids.map .association) p).2.filter (!·.isSilent)) := by
  induction ids generalizing p with
  | nil => exact ⟨[], .slnil, .nil⟩
  | cons id ids ih =>
    obtain ⟨shown, sublist, entries⟩ := ih (s.traceAssociation p id).1
    rw [List.map_cons, traceEach, trace]
    cases silent : (s.traceAssociation p id).2.isSilent with
    | true => exact ⟨shown, sublist.cons id, by simpa [silent] using entries⟩
    | false =>
      have entry : s.IsEntry id (s.traceAssociation p id).2 :=
        (s.traceAssociation_isEntry p id).resolve_left (by simp [silent])
      exact ⟨id :: shown, sublist.cons_cons id, by simpa [silent] using ⟨entry, entries⟩⟩

end Associations

def topicTraces : Progress × List Trace :=
  s.traceEach (s.source.topicIds.map .topic) (Writer.header s).1

def associationTraces : Progress × List Trace :=
  s.traceEach (s.source.associationIds.map .association) s.topicTraces.1

def blocks : List Trace := s.topicTraces.2.filter (!·.isSilent)

def entries : List Trace := s.associationTraces.2.filter (!·.isSilent)

section Definitions

theorem define_eq {s : Session} {t : Template} {text : String} (defined : s.define t = .ok text) :
    ∃ statements, (Entry.ungroupAll t.entries).mapM (s.entryText t.name) = .ok statements ∧
      text = "def " ++ t.invocation t.parameters ++ "\n" ++
        Text.indentLines indent (definitionBody statements) ++ "end\n" := by
  rw [define] at defined
  cases listed : (Entry.ungroupAll t.entries).mapM (s.entryText t.name) with
  | error e =>
    rw [listed] at defined
    cases defined
  | ok statements =>
    rw [listed] at defined
    exact ⟨statements, rfl, (Except.ok.inj defined).symm⟩

end Definitions

end Session

theorem writeEach_map {α β : Type}
    (write : Progress → β → Progress × Except Error (Option Piece)) (f : α → β) (items : List α)
    (p : Progress) :
    writeEach (fun p item => write p (f item)) items p = writeEach write (items.map f) p := by
  induction items generalizing p with
  | nil => rfl
  | cons item items ih => simp only [writeEach, List.map_cons, ih]

namespace Writer

theorem topicPieces_eq (s : Session) :
    topicPieces s = ⟨s.topicTraces.1, s.topicTraces.2.filterMap Trace.piece, none⟩ :=
  (writeEach_map s.perform WriteCall.topic _ _).trans (s.writeEach_eq_trace _ _)

theorem associationPieces_eq (s : Session) :
    associationPieces s =
      ⟨s.associationTraces.1, s.associationTraces.2.filterMap Trace.piece, none⟩ := by
  rw [associationPieces, topicPieces_eq]
  exact (writeEach_map s.perform WriteCall.association _ _).trans (s.writeEach_eq_trace _ _)

theorem foldl_invocations (traces : List Trace) (count : Nat) :
    (traces.map fun trace => (⟨trace.text, trace.invocations.length⟩ : Piece)).foldl
        (fun count piece => count + piece.invocations) count =
      count + (traces.flatMap Trace.invocations).length := by
  induction traces generalizing count with
  | nil => rfl
  | cons trace traces ih =>
    rw [List.map_cons, List.foldl_cons, ih, List.flatMap_cons, List.length_append, Nat.add_assoc]

theorem invocations_eq (progress : Progress) (traces : List Trace) :
    (Pieces.mk progress (traces.filterMap Trace.piece) none).invocations =
      ((traces.filter (!·.isSilent)).flatMap Trace.invocations).length := by
  rw [Pieces.invocations, Trace.filterMap_piece, foldl_invocations, Nat.zero_add]

theorem texts_eq (progress : Progress) (traces : List Trace) :
    (Pieces.mk progress (traces.filterMap Trace.piece) none).texts =
      (traces.filter (!·.isSilent)).map Trace.text := by
  rw [Pieces.texts, Trace.filterMap_piece, List.map_map]
  rfl

def headerLines (s : Session) : List String :=
  ["%encoding \"UTF-8\"", "%version 1.0"] ++
    ((s.source.map.reifier.bind s.reference?).map ("~ " ++ ·)).toList

theorem header_eq (s : Session) : (header s).2 = linesText (headerLines s) := by
  cases reified : s.source.map.reifier with
  | none => simp [header, headerLines, linesText, reified]
  | some id =>
    cases reference : s.reference? id with
    | none => simp [header, headerLines, linesText, reified, reference]
    | some text =>
      simp [header, headerLines, linesText, reified, reference, String.append_assoc]
      simp only [← String.append_assoc]
      rfl

def IsDefinition (t : Template) (text : String) : Prop :=
  ∃ body, text = "def " ++ t.invocation t.parameters ++ "\n" ++ body ++ "end\n"

structure Defines (s : Session) (t : Template) (text : String) : Prop where
  rendered : s.define t = .ok text
  shape : IsDefinition t text

/-- The templates that a session goes by: the registered ones, the mined ones and what merging makes
of them. -/
def prepared (w : Writer) (s : Session) : List Template :=
  w.prepareTemplates { s with templates := [] }

/-- The templates that a document defines, each behind those that it invokes. -/
def exported (w : Writer) (s : Session) : List Template :=
  if w.settings.defineTemplates then
    (dependencyOrder (w.prepared s)).filter (!w.settings.isUndefined ·.name)
  else []

structure DocumentLayout (w : Writer) (s : Session) (definitions : List String) (text : String)
    (report : Report) : Prop where
  text : text = stagedText (linesText (headerLines s)) [
    linesText (s.table.bindings.map bindingLine), linesText (w.includes.map includeLine),
    linesText (w.mergeMaps.map mergeMapLine), "\n".intercalate definitions,
    "\n".intercalate (s.blocks.map Trace.text), String.join (s.entries.map Trace.text),
    linesText [trailer]]
  reifier : (s.source.map.reifier.bind s.reference?).isSome ↔
    ∃ id ∈ s.source.map.reifier, s.IsNamed id
  labels : (s.table.bindings.map Binding.label).Pairwise (· < ·)
  bindings : report.bindings = s.table.bindings.length
  templates : s.templates = invocationOrder (w.prepared s)
  defined : List.Forall₂ (Defines s) (w.exported s) definitions
  definitions : report.definitions = definitions.length
  blocks : List.Forall₂ s.IsBlock (s.source.topicIds.filter s.hasBlock) s.blocks
  topics : report.topics = s.blocks.length
  entries : ∃ shown, shown.Sublist s.source.associationIds ∧ List.Forall₂ s.IsEntry shown s.entries
  associations : report.associations = s.entries.length
  invocations : report.invocations = ((s.blocks ++ s.entries).flatMap Trace.invocations).length

theorem assemble_text (w : Writer) (s : Session) (definitions : List String) :
    (w.assemble s definitions).text = stagedText (linesText (headerLines s)) [
      linesText (s.table.bindings.map bindingLine), linesText (w.includes.map includeLine),
      linesText (w.mergeMaps.map mergeMapLine), "\n".intercalate definitions,
      "\n".intercalate (s.blocks.map Trace.text), String.join (s.entries.map Trace.text),
      linesText [trailer]] := by
  rw [stagedText, ← join_flatMap_stage, ← header_eq, ← String.join_cons, Output.text]
  simp only [assemble, topicPieces_eq, associationPieces_eq, texts_eq, lineStage, blockStage]
  simp [linesText, Session.blocks, Session.entries]

theorem Defines.of_define {s : Session} {t : Template} {text : String}
    (rendered : s.define t = .ok text) : Defines s t text := by
  obtain ⟨statements, _, rfl⟩ := Session.define_eq rendered
  exact ⟨rendered, _, rfl⟩

theorem definitions_defined {w : Writer} {s : Session} {definitions : List String}
    (defined : w.definitions s (w.prepared s) = .ok definitions) :
    List.Forall₂ (Defines s) (w.exported s) definitions := by
  rw [Writer.definitions] at defined
  split at defined
  · rename_i on
    rw [exported, if_pos on]
    exact (forall₂_of_mapM defined).imp fun _ _ rendered => .of_define rendered
  · rename_i off
    obtain rfl := Except.ok.inj defined
    rw [exported, if_neg off]
    exact .nil

theorem open?_spec {w : Writer} {source : Source} {s : Session} {definitions : List String}
    (opened : w.open? source = .ok (s, definitions)) :
    s.source = source ∧ s.templates = invocationOrder (w.prepared s) ∧
      List.Forall₂ (Defines s) (w.exported s) definitions := by
  simp only [open?, bind, Except.bind] at opened
  split at opened
  · cases opened
  · split at opened
    · cases opened
    · split at opened
      · cases opened
      · rename_i defined
        obtain ⟨rfl, rfl⟩ := Prod.mk.inj (Except.ok.inj opened)
        exact ⟨rfl, rfl, definitions_defined defined⟩

theorem assemble_layout {w : Writer} {s : Session} {definitions : List String}
    (templates : s.templates = invocationOrder (w.prepared s))
    (defined : List.Forall₂ (Defines s) (w.exported s) definitions) :
    w.DocumentLayout s definitions (w.assemble s definitions).text
      (report s definitions (topicPieces s) (associationPieces s)) where
  text := w.assemble_text s definitions
  reifier := by
    cases s.source.map.reifier with
    | none => simp
    | some id => simp [Session.reference?_isSome]
  labels := List.pairwise_map.mpr s.table.ordered
  bindings := rfl
  templates := templates
  defined := defined
  definitions := rfl
  blocks := s.traceEach_blocks _ _
  topics := by
    rw [report, topicPieces_eq, Trace.filterMap_piece, List.length_map]
    rfl
  entries := s.traceEach_entries _ _
  associations := by
    rw [report, associationPieces_eq, Trace.filterMap_piece, List.length_map]
    rfl
  invocations := by
    rw [report, topicPieces_eq, associationPieces_eq, List.flatMap_append, List.length_append]
    exact congr_arg₂ (· + ·) (invocations_eq _ _) (invocations_eq _ _)

/-- A write that succeeds writes a document with this layout, and reports on it. -/
theorem write_layout (w : Writer) (source : Source) {report : Report}
    (written : (w.write source).result = .ok report) :
    ∃ s definitions, w.open? source = .ok (s, definitions) ∧ s.source = source ∧
      w.DocumentLayout s definitions (w.write source).text report := by
  rw [write] at written ⊢
  cases opened : w.open? source with
  | error e =>
    rw [opened] at written
    cases written
  | ok session =>
    obtain ⟨same, templates, defined⟩ := open?_spec opened
    rw [opened, assemble_result] at written
    obtain rfl := Except.ok.inj written
    exact ⟨session.1, session.2, rfl, same, assemble_layout templates defined⟩

def loopWriter : Writer := { plainWriter with templates := [Session.loopTemplate] }

theorem village_layout :
    ∃ report, (loopWriter.write village.source).result = .ok report ∧ report.topics = 1 ∧
      report.associations = 0 ∧ report.invocations = 1 ∧
      ∃ s definitions, s.source = village.source ∧ definitions.length = 1 ∧
        loopWriter.DocumentLayout s definitions (loopWriter.write village.source).text report := by
  have written : (loopWriter.write village.source).result.toOption =
      some { topics := 1, invocations := 1, definitions := 1, bindings := 1, skipped := 2 } := by
    decide +kernel
  cases result : (loopWriter.write village.source).result with
  | error e =>
    rw [result] at written
    cases written
  | ok report =>
    rw [result] at written
    obtain rfl := Option.some.inj written
    obtain ⟨s, definitions, _, same, layout⟩ := write_layout loopWriter village.source result
    exact ⟨_, rfl, rfl, rfl, rfl, s, definitions, same, layout.definitions.symm, layout⟩

example : (loopWriter.write village.source).text = stagedText
    (linesText ["%encoding \"UTF-8\"", "%version 1.0"]) [
      "%prefix xsd <http://www.w3.org/2001/XMLSchema#>\n", "", "",
      "def loop($topic, $type)\n    $type($type : $topic)\nend\n",
      blockText "<http://t.example/village>" ["loop(<http://t.example/village>)",
        "- <http://t.example/village>: \"Village\" (\"village\" @ <http://t.example/village>)"],
      "", "# generated by ctm-writer 0.3.0\n"] := by
  decide +kernel

end Writer
end CompactTopicMap
