import CompactTopicMap.Document
import CompactTopicMap.Proofs.Adaptivity
import CompactTopicMap.Proofs.Rendering

namespace CompactTopicMap

def FailsOnly {α : Type} (Allowed : Error → Prop) (result : Except Error α) : Prop :=
  ∀ e, result = .error e → Allowed e

namespace FailsOnly

variable {α β : Type} {Allowed : Error → Prop}

theorem ok (x : α) : FailsOnly Allowed (.ok x) := nofun

theorem error {e : Error} (allowed : Allowed e) :
    FailsOnly Allowed (.error e : Except Error α) := by
  intro other same
  exact Except.error.inj same ▸ allowed

theorem bind {first : Except Error α} {rest : α → Except Error β}
    (before : FailsOnly Allowed first) (after : ∀ x, FailsOnly Allowed (rest x)) :
    FailsOnly Allowed (first >>= rest) := by
  cases first with
  | error e => exact error (before e rfl)
  | ok x => exact after x

theorem mapM {f : α → Except Error β} (each : ∀ x, FailsOnly Allowed (f x)) (items : List α) :
    FailsOnly Allowed (items.mapM f) := by
  induction items with
  | nil => exact ok []
  | cons item items ih =>
    rw [List.mapM_cons]
    exact bind (each item) fun x => bind ih fun xs => ok (x :: xs)

theorem forM {f : α → Except Error PUnit} (each : ∀ x, FailsOnly Allowed (f x)) (items : List α) :
    FailsOnly Allowed (items.forM f) := by
  induction items with
  | nil => exact ok ()
  | cons item items ih => exact bind (each item) fun _ => ih

end FailsOnly

namespace Error

def IsStructural : Error → Prop
  | .structuralConstraint _ _ _ _ => True
  | _ => False

def IsInvalidTemplate : Error → Prop
  | .invalidTemplate _ _ => True
  | _ => False

end Error

theorem Typing.fact_failsOnly (source : Source) (pattern : ReservedPattern)
    (general specific : Option TopicId) (id : AssociationId) :
    FailsOnly Error.IsStructural (fact source pattern general specific id) := by
  simp only [fact]
  split
  · exact .ok _
  · exact .error trivial
  · exact .error trivial

theorem Typing.build_failsOnly (source : Source) :
    FailsOnly Error.IsStructural (build source) := by
  have facts (pattern : ReservedPattern) :
      FailsOnly Error.IsStructural (facts source pattern) := by
    rw [Typing.facts]
    split
    · exact .ok []
    · exact .bind (.mapM (fact_failsOnly _ _ _ _) _) fun _ => .ok _
  exact .bind (facts _) fun _ => .bind (facts _) fun _ => .ok _

mutual

theorem Entry.check_failsOnly (owner : String) : (entry : Entry) →
    FailsOnly Error.IsInvalidTemplate (check owner entry)
  | .statement s => by
    rw [check]
    split
    · exact .error trivial
    · exact .ok ()
  | .invocation name kind body => by
    rw [check]
    split
    · exact .error trivial
    split
    · exact .error trivial
    split
    · exact .error trivial
    · exact checkAll_failsOnly name body
  | .group entries => by
    rw [check]
    split
    · exact .error trivial
    · exact checkAll_failsOnly owner entries

theorem Entry.checkAll_failsOnly (owner : String) : (entries : List Entry) →
    FailsOnly Error.IsInvalidTemplate (checkAll owner entries)
  | [] => .ok ()
  | entry :: entries => by
    rw [checkAll]
    split
    · exact checkAll_failsOnly owner entries
    · rename_i e failed
      exact .error (check_failsOnly owner entry e failed)

end

theorem Template.validate_failsOnly (t : Template) :
    FailsOnly Error.IsInvalidTemplate t.validate := by
  rw [validate]
  split
  · exact .error trivial
  split
  · split
    · exact .error trivial
    · exact Entry.checkAll_failsOnly t.name t.entries
  · split
    · exact .ok ()
    · exact .error trivial

theorem Session.define_failsOnly (s : Session) (t : Template) :
    FailsOnly Error.IsInvalidTemplate (s.define t) := by
  intro e failed
  obtain ⟨fault, -, rfl⟩ := (s.define_renders t).settled.of_error failed
  trivial

theorem writeEach_fault {α : Type} {write : Progress → α → Progress × Except Error (Option Piece)}
    (each : ∀ p item, ∃ q piece, write p item = (q, .ok piece)) (items : List α) (p : Progress) :
    (writeEach write items p).fault = none := by
  induction items generalizing p with
  | nil => rfl
  | cons item items ih =>
    obtain ⟨q, piece, written⟩ := each p item
    cases piece <;> simpa only [writeEach, written] using ih q

namespace Writer

theorem open?_failsOnly (w : Writer) (source : Source) :
    FailsOnly (fun e => e.IsStructural ∨ e.IsInvalidTemplate) (w.open? source) := by
  have weaken {α : Type} {result : Except Error α}
      (fails : FailsOnly Error.IsInvalidTemplate result) :
      FailsOnly (fun e => e.IsStructural ∨ e.IsInvalidTemplate) result :=
    fun e failed => .inr (fails e failed)
  have definitions (s : Session) (templates : List Template) :
      FailsOnly Error.IsInvalidTemplate (w.definitions s templates) := by
    rw [Writer.definitions]
    split
    · exact .mapM s.define_failsOnly _
    · exact .ok []
  refine .bind (fun e failed => .inl (Typing.build_failsOnly source e failed)) fun typing => ?_
  exact .bind (weaken (.forM Template.validate_failsOnly _)) fun _ =>
    .bind (weaken (definitions _ _)) fun _ => .ok _

theorem assemble_result (w : Writer) (s : Session) (definitions : List String) :
    (w.assemble s definitions).result =
      .ok (report s definitions (topicPieces s) (associationPieces s)) := by
  have topics : (topicPieces s).fault = none := writeEach_fault s.writeTopic_ok _ _
  have associations : (associationPieces s).fault = none :=
    writeEach_fault s.writeAssociation_ok _ _
  simp only [assemble, topics, associations]

/-- All that can reject a graph comes before its first byte; what a session writes cannot fail,
since a template that applies yields one argument for each of its variables. -/
theorem rejected_before_output (w : Writer) (source : Source) :
    (∀ e, (w.write source).result = .error e →
      (w.write source).texts = [] ∧ (e.IsStructural ∨ e.IsInvalidTemplate)) ∧
    ∀ (s : Session) (p : Progress),
      (∀ id, ∃ q piece, s.writeTopic p id = (q, .ok piece)) ∧
      (∀ id, ∃ q piece, s.writeAssociation p id = (q, .ok piece)) ∧
      ∀ t,
        (∀ id, s.isAdaptiveForTopic p t id = true →
          ∃ q arguments, s.extractTopic p t id = (q, .ok arguments) ∧
            arguments.length = t.argumentTokens.length) ∧
        ∀ id, s.isAdaptiveForAssociation p t id = true →
          ∃ q arguments, s.extractAssociation p t id = (q, .ok arguments) ∧
            arguments.length = t.argumentTokens.length := by
  refine ⟨fun e failed => ?_, fun s p => ⟨s.writeTopic_ok p, s.writeAssociation_ok p, ?_⟩⟩
  · rw [write] at failed ⊢
    cases opened : w.open? source with
    | error cause =>
      rw [opened] at failed
      obtain rfl := Except.error.inj failed
      exact ⟨rfl, w.open?_failsOnly source cause opened⟩
    | ok session =>
      have written := w.assemble_result session.1 session.2
      rw [opened] at failed
      cases written.symm.trans failed
  · intro t
    constructor
    · intro id adaptive
      obtain ⟨m, found⟩ := Session.isAdaptiveForTopic_iff.mp adaptive
      exact ⟨_, Session.extractTopic_ok found⟩
    · intro id adaptive
      obtain ⟨m, found⟩ := Session.isAdaptiveForAssociation_iff.mp adaptive
      exact ⟨_, Session.extractAssociation_ok found⟩

def looseTyping : Source :=
  TopicMap.source {
    topics := #[{ subjectIdentifiers := [Iri.typeInstance] }]
    associations := #[{ type := ⟨0⟩, scope := [] }] }

def plainWriter : Writer := { settings := { detectNamespaces := false }, labelling := labelByPath }

def looseSession : Session :=
  { source := looseTyping, settings := plainWriter.settings, table := .empty, typing := {} }

def indicatorTemplate : Template :=
  ⟨"indicated", .topic, [.statement (.identifier .subjectIdentifier "$iri")]⟩

theorem loose_typing_rejected :
    (plainWriter.write looseTyping).result =
        .error (.structuralConstraint ⟨0⟩ Iri.typeInstance Iri.typeRole 0) ∧
      (plainWriter.write looseTyping).texts = [] ∧
      looseSession.isAdaptiveForTopic {} indicatorTemplate ⟨0⟩ = true ∧
      ∃ q arguments, looseSession.extractTopic {} indicatorTemplate ⟨0⟩ = (q, .ok arguments) ∧
        arguments.length = 1 := by
  have rejected : (plainWriter.write looseTyping).result =
      .error (.structuralConstraint ⟨0⟩ Iri.typeInstance Iri.typeRole 0) := by rfl
  have adaptive : looseSession.isAdaptiveForTopic {} indicatorTemplate ⟨0⟩ = true := by rfl
  have all := rejected_before_output plainWriter looseTyping
  exact ⟨rejected, (all.1 _ rejected).1, adaptive,
    ((all.2 looseSession {}).2.2 indicatorTemplate).1 ⟨0⟩ adaptive⟩

end Writer
end CompactTopicMap
