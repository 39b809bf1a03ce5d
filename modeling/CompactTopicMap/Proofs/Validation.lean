import CompactTopicMap.Proofs.Exhaustion
import CompactTopicMap.Proofs.Rendering

namespace CompactTopicMap

def Place.fixed? : Place → Option TopicId
  | topic (.fixed id) => some id
  | topic (.var _) | value _ _ => none

namespace Entry

mutual

/-- The places of the statements of an entry, in groups of any depth. What an invoked template says
is not part of the entry. -/
def ownPlaces : Entry → List Place
  | statement s => s.places
  | invocation _ _ _ => []
  | group entries => ownPlacesAll entries

def ownPlacesAll : List Entry → List Place
  | [] => []
  | entry :: entries => ownPlaces entry ++ ownPlacesAll entries

end

/-- The entry has a text of its own: it is no group, and no part of a statement. -/
def isRenderable : Entry → Bool
  | statement s => !s.isPart
  | invocation _ _ _ => true
  | group _ => false

mutual

theorem ownPlaces_ungroup : (entry : Entry) → entry.ungroup.flatMap ownPlaces = entry.ownPlaces
  | statement _ => List.append_nil _
  | invocation _ _ _ => rfl
  | group entries => by rw [ungroup, ownPlaces, ownPlaces_ungroupAll entries]

theorem ownPlaces_ungroupAll : (entries : List Entry) →
    (ungroupAll entries).flatMap ownPlaces = ownPlacesAll entries
  | [] => rfl
  | entry :: entries => by
    rw [ungroupAll, ownPlacesAll, List.flatMap_append, ownPlaces_ungroup entry,
      ownPlaces_ungroupAll entries]

end

mutual

theorem check_renderable {owner : String} : (entry : Entry) → check owner entry = .ok () →
    ∀ e ∈ entry.ungroup, e.isRenderable
  | statement s, checked => by
    simp only [check] at checked
    split at checked
    · cases checked
    · rename_i whole
      simpa [ungroup, isRenderable] using whole
  | invocation _ _ _, _ => by simp [ungroup, isRenderable]
  | group entries, checked => by
    simp only [check] at checked
    split at checked
    · cases checked
    · exact checkAll_renderable entries checked

theorem checkAll_renderable {owner : String} : (entries : List Entry) →
    checkAll owner entries = .ok () → ∀ e ∈ ungroupAll entries, e.isRenderable
  | [], _ => by simp [ungroupAll]
  | entry :: entries, checked => by
    rw [checkAll] at checked
    split at checked
    · rename_i first
      intro e member
      rcases List.mem_append.mp member with here | later
      · exact check_renderable entry first e here
      · exact checkAll_renderable entries checked e later
    · cases checked

end

end Entry

namespace Template

variable {t : Template}

/-- The topics that the statements of a template fix, but not those of the templates it invokes. -/
def fixedTopics (t : Template) : List TopicId :=
  (Entry.ownPlacesAll t.entries).filterMap Place.fixed?

theorem mem_fixedTopics {id : TopicId} :
    id ∈ t.fixedTopics ↔ .topic (.fixed id) ∈ Entry.ownPlacesAll t.entries := by
  constructor
  · intro member
    obtain ⟨place, inside, fixed⟩ := List.mem_filterMap.mp member
    cases place with
    | value text datatype => cases fixed
    | topic ref =>
      cases ref with
      | var token => cases fixed
      | fixed other => exact Option.some.inj fixed ▸ inside
  · exact fun inside => List.mem_filterMap.mpr ⟨_, inside, rfl⟩

theorem validate_renderable (valid : t.validate = .ok ()) :
    ∀ entry ∈ Entry.ungroupAll t.entries, entry.isRenderable := by
  obtain ⟨name, kind, entries⟩ := t
  rw [validate] at valid
  split at valid
  · cases valid
  cases kind with
  | topic =>
    dsimp only at valid
    split at valid
    · cases valid
    · exact Entry.checkAll_renderable entries valid
  | association =>
    dsimp only at valid
    split at valid
    · simp [Entry.ungroupAll, Entry.ungroup, Entry.isRenderable, Statement.isPart]
    · cases valid

theorem validate_flattened (valid : t.validate = .ok ()) (topic : t.kind = .topic) :
    t.flattened ≠ [] := by
  rw [validate, topic] at valid
  split at valid
  · cases valid
  dsimp only at valid
  split at valid
  · cases valid
  · rename_i statements
    simpa using statements

end Template

namespace Session

section Faults

variable (s : Session) {t : Template}

theorem faulty_iff {entry : Entry} (renderable : entry.isRenderable) (fault : TemplateFault) :
    s.Faulty entry fault ↔ s.Lacks entry.ownPlaces fault := by
  cases entry with
  | statement statement =>
    have whole : statement.isPart = false := by simpa [Entry.isRenderable] using renderable
    simp [Faulty, Entry.ownPlaces, whole]
  | invocation name kind body => simp [Faulty, Entry.ownPlaces]
  | group entries => cases renderable

theorem faulty_iff_of_renderable
    (renderable : ∀ entry ∈ Entry.ungroupAll t.entries, entry.isRenderable)
    (fault : TemplateFault) :
    (∃ entry ∈ Entry.ungroupAll t.entries, s.Faulty entry fault) ↔
      s.Lacks (Entry.ownPlacesAll t.entries) fault := by
  rw [← Entry.ownPlaces_ungroupAll, lacks_flatMap]
  exact exists_congr fun entry => and_congr_right fun member =>
    s.faulty_iff (renderable entry member) fault

theorem lacks_nothing_iff :
    (∀ fault, ¬ s.Lacks (Entry.ownPlacesAll t.entries) fault) ↔
      ∀ id ∈ t.fixedTopics, s.IsNamed id := by
  simp only [Template.mem_fixedTopics]
  constructor
  · intro nothing id fixed
    by_contra anonymous
    exact nothing _ ⟨id, fixed, anonymous, rfl⟩
  · rintro named fault ⟨id, fixed, anonymous, -⟩
    exact anonymous (named id fixed)

end Faults

/-- Validation is what rendering needs. A valid template is rendered exactly if the topics that it
fixes itself have locators, and rejected for one that has none otherwise. Neither changes the
progress of a state, and a state that remembers identities gives the same text as one that does not.
A match of the template claims something that was not written. -/
theorem validated_renders (s : Session) {t : Template} (valid : t.validate = .ok ()) :
    (∀ state : s.State, ∃ next,
      (Rendering.define s t).run.run state = (s.define t, next) ∧ next.progress = state.progress) ∧
    ((∃ text, s.define t = .ok text) ↔ ∀ id ∈ t.fixedTopics, s.IsNamed id) ∧
    (∀ e, s.define t = .error e →
      ∃ id ∈ t.fixedTopics, ¬ s.IsNamed id ∧ e = .invalidTemplate t.name (.anonymousTopic id)) ∧
    ∀ p subject m, (s.matcher p).matchTopic? t subject = some m →
      ∃ c ∈ m.claims, c ∉ p.written := by
  obtain ⟨yields, settled⟩ := (s.define_renders t).congr
    (s.faulty_iff_of_renderable (Template.validate_renderable valid))
  refine ⟨yields, settled.ok_iff.trans s.lacks_nothing_iff, fun e failed => ?_, ?_⟩
  · obtain ⟨_, ⟨id, fixed, anonymous, rfl⟩, rejected⟩ := settled.of_error failed
    exact ⟨id, Template.mem_fixedTopics.mpr fixed, anonymous, rejected⟩
  · intro p subject m found
    have topic := (Matcher.matchTopic?_eq_some.mp found).1
    exact Matcher.exists_unwritten_claim (Template.validate_flattened valid topic) found

def pottery : Source :=
  TopicMap.source {
    topics := #[
      { subjectIdentifiers := ["http://example.org/pot"] },
      {},
      { subjectIdentifiers := ["http://example.org/pot-12"], types := [⟨0⟩], names := [⟨0⟩] }]
    names := #[{ parent := ⟨2⟩, type := ⟨1⟩, value := "XII", scope := [] }] }

def potterySession : Session :=
  { source := pottery, settings := {}, table := .empty, typing := {} }

def markedTemplate : Template :=
  ⟨"marked", .topic,
    [.group [.group [.statement (.name { type := .fixed ⟨1⟩, value := "$mark" })]]]⟩

def potTemplate : Template :=
  ⟨"pot", .topic, [.group [.statement (.isa (.fixed ⟨0⟩)), markedTemplate.invoke]]⟩

theorem pottery_rendered :
    potTemplate.validate = .ok () ∧ markedTemplate.validate = .ok () ∧
      (∃ text, potterySession.define potTemplate = .ok text) ∧
      (∃ next, (Rendering.define potterySession markedTemplate).run.run (.initial potterySession) =
        (.error (.invalidTemplate "marked" (.anonymousTopic ⟨1⟩)), next) ∧ next.progress = {}) ∧
      ∃ m, (potterySession.matcher {}).matchTopic? potTemplate ⟨2⟩ = some m ∧
        ∃ c ∈ m.claims, c ∉ Written.empty := by
  have pot : potTemplate.validate = .ok () := by rfl
  have marked : markedTemplate.validate = .ok () := by rfl
  have matched : ((potterySession.matcher {}).matchTopic? potTemplate ⟨2⟩).isSome := by rfl
  obtain ⟨-, rendered, -, claims⟩ := potterySession.validated_renders pot
  obtain ⟨yields, renderable, rejected, -⟩ := potterySession.validated_renders marked
  refine ⟨pot, marked, rendered.mpr (by decide), ?_, ?_⟩
  · obtain ⟨next, run, kept⟩ := yields (.initial potterySession)
    cases outcome : potterySession.define markedTemplate with
    | ok text => exact absurd (renderable.mp ⟨text, outcome⟩) (by decide)
    | error e =>
      obtain ⟨id, fixed, -, rfl⟩ := rejected e outcome
      obtain rfl : id = ⟨1⟩ := List.mem_singleton.mp fixed
      exact ⟨next, outcome ▸ run, kept⟩
  · obtain ⟨m, found⟩ := Option.isSome_iff_exists.mp matched
    exact ⟨m, found, claims {} ⟨2⟩ m found⟩

end Session
end CompactTopicMap
