import CompactTopicMap.Document
import CompactTopicMap.Proofs.Adaptivity
import CompactTopicMap.Proofs.Emission

/-! Writers that keep, for each piece of text, what it stands for. -/

namespace CompactTopicMap

/-- What a call has put out. The emissions of a block came in the order head, invocations, types,
characteristics. -/
inductive Trace where
  | silent
  | block (head : Emission) (invocations types characteristics : List Emission)
  | line (literal : Emission)
  | invoked (lines : List Emission)

namespace Trace

def emissions : Trace → List Emission
  | silent => []
  | block head invocations types characteristics =>
    head :: (invocations ++ types ++ characteristics)
  | line literal => [literal]
  | invoked lines => lines

def piece : Trace → Option Piece
  | silent => none
  | block head invocations types characteristics =>
    some ⟨Session.block head.text ((types ++ invocations ++ characteristics).map Emission.text),
      invocations.length⟩
  | line literal => some ⟨literal.text ++ "\n", 0⟩
  | invoked lines => some ⟨String.join (lines.map (·.text ++ "\n")), lines.length⟩

end Trace

inductive WriteCall where
  | topic (id : TopicId)
  | association (id : AssociationId)
  deriving DecidableEq, Repr

namespace WriteCall

def topic? : WriteCall → Option TopicId
  | topic id => some id
  | association _ => none

end WriteCall

namespace Session

def emitVariants (s : Session) : List VariantId → Progress → Progress × List Emission :=
  emitUnwritten .variant (fun _ id => [.variant id]) s.encodeVariant

/-- The text of a name stands for the name and for those of its variants that stand in it. -/
def nameConstructs (s : Session) (p : Progress) (id : NameId) : List Construct :=
  .name id :: (s.emitVariants (s.source.name id).variants p).2.flatMap Emission.constructs

def emitLocators (s : Session) (id : TopicId) (kind : LocatorKind) (p : Progress) :
    Progress × List Emission :=
  emitUnwritten (.locator id kind) (fun _ iri => [.locator id kind iri]) (s.encodeLocator id kind)
    (((s.source.topic id).locators kind).filter (s.writesLocator kind)) p

def traceTypes (s : Session) (id : TopicId) (p : Progress) : Progress × List Emission :=
  let (p, types) := emitUnwritten (.typing id) (fun _ type => [.typing id type])
    (s.encodeRelation "isa " (.typing id)) (s.typesOf id) p
  let (p, supertypes) := emitUnwritten (.subtyping id) (fun _ general => [.subtyping id general])
    (s.encodeRelation "ako " (.subtyping id)) (s.supertypesOf id) p
  (p, types ++ supertypes)

def traceCharacteristics (s : Session) (id : TopicId) (p : Progress) :
    Progress × List Emission :=
  let topic := s.source.topic id
  let (p, names) := emitUnwritten .name s.nameConstructs s.encodeName topic.names p
  let (p, occurrences) := emitUnwritten .occurrence (fun _ id => [.occurrence id])
    s.encodeOccurrence topic.occurrences p
  let (p, indicators) := s.emitLocators id .subjectIdentifier p
  let (p, locators) := s.emitLocators id .subjectLocator p
  let (p, items) := s.emitLocators id .itemIdentifier p
  (p, names ++ occurrences ++ indicators ++ locators ++ items)

/-- An invocation stands for what its match claims. -/
def traceRepeatedly (s : Session) (t : Template) (id : TopicId) :
    Nat → Progress → Progress × List Emission
  | 0, p => (p, [])
  | rounds + 1, p =>
    match (s.matcher p).matchTopic? t id with
    | none => (p, [])
    | some m =>
      match s.commit p t (.topic id) (some m) with
      | (q, .error _) => (q, [])
      | (q, .ok arguments) =>
        if q.written.size = p.written.size then (q, [])
        else
          let (r, emissions) := traceRepeatedly s t id rounds q
          (r, ⟨p.written, t.invocation arguments, m.claims, q.written⟩ :: emissions)

def traceTemplates (s : Session) (id : TopicId) :
    List Template → Progress → Progress × List Emission
  | [], p => (p, [])
  | t :: ts, p =>
    if t.kind = .topic && !t.entries.isEmpty then
      let (p, first) := s.traceRepeatedly t id (s.claimable id + 1) p
      let (p, rest) := traceTemplates s id ts p
      (p, first ++ rest)
    else traceTemplates s id ts p

def traceTopic (s : Session) (p : Progress) (id : TopicId) : Progress × Trace :=
  if s.isReserved id then (p, .silent)
  else
    match s.identity? id with
    | none => (p.skip, .silent)
    | some identity =>
      let head := Construct.locator id identity.kind identity.iri
      let (q, invocations) := s.traceTemplates id s.templates (p.mark head)
      let (q, types) := s.traceTypes id q
      let (q, characteristics) := s.traceCharacteristics id q
      (q, .block ⟨p.written, identity.display, [head], (p.mark head).written⟩
        invocations types characteristics)

def traceForAssociation (s : Session) (id : AssociationId) :
    List Template → Progress → Progress × List Emission
  | [], p => (p, [])
  | t :: ts, p =>
    match (s.matcher p).matchAssociation? t id with
    | none => traceForAssociation s id ts p
    | some m =>
      match s.commit p t (.association id) (some m) with
      | (q, .error _) => (q, [])
      | (q, .ok arguments) =>
        let (r, emissions) := traceForAssociation s id ts q
        (r, ⟨p.written, t.invocation arguments, m.claims, q.written⟩ :: emissions)

/-- The line of an association stands for the association and its roles. -/
def associationConstructs (s : Session) (id : AssociationId) : List Construct :=
  .association id :: (s.source.association id).roles.map .role

def traceAssociation (s : Session) (p : Progress) (id : AssociationId) : Progress × Trace :=
  if .association id ∈ p.written || s.typing.isFolded id then (p, .silent)
  else
    match s.traceForAssociation id s.templates p with
    | (p, []) =>
      match s.encodeAssociation p id with
      | (q, some text) => (q, .line ⟨p.written, text, s.associationConstructs id, q.written⟩)
      | (_, none) => (p.skip, .silent)
    | (p, lines) => (p, .invoked lines)

def perform (s : Session) (p : Progress) : WriteCall → Progress × Except Error (Option Piece)
  | .topic id => s.writeTopic p id
  | .association id => s.writeAssociation p id

def trace (s : Session) (p : Progress) : WriteCall → Progress × Trace
  | .topic id => s.traceTopic p id
  | .association id => s.traceAssociation p id

def traceEach (s : Session) : List WriteCall → Progress → Progress × List Trace
  | [], p => (p, [])
  | call :: calls, p =>
    let (p, first) := s.trace p call
    let (p, rest) := traceEach s calls p
    (p, first :: rest)

section Erasing

variable (s : Session)

theorem encodeTypes_eq_trace (id : TopicId) (p : Progress) :
    s.encodeTypes id p =
      ((s.traceTypes id p).1, (s.traceTypes id p).2.map Emission.text) := by
  simp only [encodeTypes, traceTypes, List.map_append,
    encodeUnwritten_eq_emitUnwritten (.typing id) fun _ type => [.typing id type],
    encodeUnwritten_eq_emitUnwritten (.subtyping id) fun _ general => [.subtyping id general]]

theorem encodeLocators_eq_emit (id : TopicId) (kind : LocatorKind) (p : Progress) :
    s.encodeLocators id kind p =
      ((s.emitLocators id kind p).1, (s.emitLocators id kind p).2.map Emission.text) :=
  encodeUnwritten_eq_emitUnwritten _ _ _ _ p

theorem encodeCharacteristics_eq_trace (id : TopicId) (p : Progress) :
    s.encodeCharacteristics id p =
      ((s.traceCharacteristics id p).1,
        (s.traceCharacteristics id p).2.map Emission.text) := by
  simp only [encodeCharacteristics, traceCharacteristics, List.map_append, encodeLocators_eq_emit,
    encodeUnwritten_eq_emitUnwritten .name s.nameConstructs,
    encodeUnwritten_eq_emitUnwritten .occurrence fun _ id => [.occurrence id]]

theorem invokeRepeatedly_eq_trace (t : Template) (id : TopicId) (rounds : Nat) (p : Progress) :
    s.invokeRepeatedly t id rounds p =
      ((s.traceRepeatedly t id rounds p).1,
        .ok ((s.traceRepeatedly t id rounds p).2.map Emission.text)) := by
  induction rounds generalizing p with
  | zero => rfl
  | succ rounds ih =>
    unfold invokeRepeatedly traceRepeatedly
    simp only [isAdaptiveForTopic, extractTopic]
    rcases Option.eq_none_or_eq_some ((s.matcher p).matchTopic? t id) with found | ⟨m, found⟩
    · simp [found]
    · have argued : ∀ token ∈ t.argumentTokens, m.Argues s.source token :=
        fun _ member => Matcher.matchTopic?_argued found member
      obtain ⟨arguments, committed, _⟩ := commit_ok p (.topic id) argued
      simp only [found, committed, Option.isSome_some, if_true]
      split
      · rfl
      · rw [ih]
        rfl

theorem invokeTemplates_eq_trace (id : TopicId) (templates : List Template) (p : Progress) :
    s.invokeTemplates id templates p =
      ((s.traceTemplates id templates p).1,
        .ok ((s.traceTemplates id templates p).2.map Emission.text)) := by
  induction templates generalizing p with
  | nil => rfl
  | cons t ts ih =>
    rw [invokeTemplates, traceTemplates]
    split
    · simp only [invokeRepeatedly_eq_trace, ih, List.map_append]
    · exact ih p

theorem writeTopic_eq_trace (p : Progress) (id : TopicId) :
    s.writeTopic p id = ((s.traceTopic p id).1, .ok (s.traceTopic p id).2.piece) := by
  rw [writeTopic, traceTopic]
  split
  · rfl
  · cases s.identity? id with
    | none => rfl
    | some identity =>
      simp only [invokeTemplates_eq_trace, encodeTypes_eq_trace, encodeCharacteristics_eq_trace,
        Trace.piece, List.map_append, List.length_map]

theorem invokeForAssociation_eq_trace (id : AssociationId) (templates : List Template)
    (p : Progress) :
    s.invokeForAssociation id templates p =
      ((s.traceForAssociation id templates p).1,
        .ok ((s.traceForAssociation id templates p).2.map Emission.text)) := by
  induction templates generalizing p with
  | nil => rfl
  | cons t ts ih =>
    rw [invokeForAssociation, traceForAssociation]
    simp only [isAdaptiveForAssociation, extractAssociation]
    rcases Option.eq_none_or_eq_some ((s.matcher p).matchAssociation? t id) with
      found | ⟨m, found⟩
    · simpa [found] using ih p
    · have argued : ∀ token ∈ t.argumentTokens, m.Argues s.source token :=
        fun _ member => Matcher.matchAssociation?_argued found member
      obtain ⟨arguments, committed, _⟩ := commit_ok p (.association id) argued
      simp only [found, committed, Option.isSome_some, if_true, ih, List.map_cons]

theorem writeAssociation_eq_trace (p : Progress) (id : AssociationId) :
    s.writeAssociation p id =
      ((s.traceAssociation p id).1, .ok (s.traceAssociation p id).2.piece) := by
  rw [writeAssociation, traceAssociation]
  split
  · rfl
  · rw [invokeForAssociation_eq_trace]
    cases s.traceForAssociation id s.templates p with
    | mk q lines =>
      cases lines with
      | cons line lines => simp [Trace.piece, Function.comp_def]
      | nil =>
        rcases s.encodeAssociation_spec q id with ⟨_, text, encoded⟩ | ⟨_, encoded⟩
        · simp only [List.map_nil, encoded, Trace.piece]
        · simp only [List.map_nil, encoded, Trace.piece]

theorem perform_eq_trace (p : Progress) (call : WriteCall) :
    s.perform p call = ((s.trace p call).1, .ok (s.trace p call).2.piece) := by
  cases call with
  | topic id => exact s.writeTopic_eq_trace p id
  | association id => exact s.writeAssociation_eq_trace p id

theorem writeEach_eq_trace (calls : List WriteCall) (p : Progress) :
    writeEach s.perform calls p =
      ⟨(s.traceEach calls p).1, (s.traceEach calls p).2.filterMap Trace.piece, none⟩ := by
  induction calls generalizing p with
  | nil => rfl
  | cons call calls ih =>
    simp only [writeEach, traceEach, perform_eq_trace]
    cases piece : (s.trace p call).2.piece <;> simp [ih, piece]

end Erasing

end Session
end CompactTopicMap
