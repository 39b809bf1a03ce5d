import CompactTopicMap.Document
import CompactTopicMap.Proofs.Adaptivity
import CompactTopicMap.Proofs.Rendering

namespace CompactTopicMap

def TopicRef.Explicit (source : Source) : TopicRef → Prop
  | .fixed id => (source.topic id).isAnonymous = false
  | .var _ => False

structure NamePattern.Explicit (source : Source) (p : NamePattern) : Prop where
  type : p.type.Explicit source
  themes : ∀ theme ∈ p.scope.themes, theme.Explicit source
  reifier : p.reifier = none
  variants : p.variants = []

structure OccurrencePattern.Explicit (source : Source) (p : OccurrencePattern) : Prop where
  type : p.type.Explicit source
  themes : ∀ theme ∈ p.scope.themes, theme.Explicit source
  reifier : p.reifier = none

structure RolePattern.Explicit (source : Source) (p : RolePattern) : Prop where
  type : p.type.Explicit source
  player : ∃ token, p.player = .var token
  reifier : p.reifier = none

structure AssociationPattern.Explicit (source : Source) (p : AssociationPattern) : Prop where
  type : p.type.Explicit source
  roles : ∀ role ∈ p.roles, role.Explicit source
  scope : p.scope = none
  reifier : p.reifier = none

/-- The statements of explicit topic templates say types, names and occurrences. -/
def Statement.Explicit (source : Source) : Statement → Prop
  | .isa type => type.Explicit source
  | .name p => p.Explicit source
  | .occurrence p => p.Explicit source
  | _ => False

inductive Entry.Explicit (source : Source) : Entry → Prop where
  | statement {statement : Statement} (explicit : statement.Explicit source) :
    Explicit source (.statement statement)
  | invocation {name : String} {body : List Entry} (identifier : isIdentifier name = true)
    (nonempty : body ≠ []) (each : ∀ entry ∈ body, Explicit source entry) :
    Explicit source (.invocation name .topic body)

inductive Template.Explicit (source : Source) : Template → Prop where
  | topic {name : String} {entries : List Entry} (identifier : isIdentifier name = true)
    (nonempty : entries ≠ []) (each : ∀ entry ∈ entries, entry.Explicit source) :
    Explicit source ⟨name, .topic, entries⟩
  | association {name : String} {pattern : AssociationPattern}
    (identifier : isIdentifier name = true) (explicit : pattern.Explicit source) :
    Explicit source ⟨name, .association, [.statement (.association pattern)]⟩

variable {source : Source}

namespace Entry

theorem flattenAll_ne_nil {entries : List Entry} (nonempty : entries ≠ [])
    (each : ∀ entry ∈ entries, entry.flatten ≠ []) : flattenAll entries ≠ [] := by
  obtain ⟨entry, rest, rfl⟩ := List.exists_cons_of_ne_nil nonempty
  intro empty
  rw [flattenAll, List.append_eq_nil_iff] at empty
  exact each entry List.mem_cons_self empty.1

theorem checkAll_ok {owner : String} {entries : List Entry}
    (each : ∀ entry ∈ entries, check owner entry = .ok ()) : checkAll owner entries = .ok () := by
  induction entries with
  | nil => rfl
  | cons entry entries ih =>
    rw [checkAll, each entry List.mem_cons_self]
    exact ih fun other member => each other (List.mem_cons_of_mem entry member)

namespace Explicit

theorem flatten_ne_nil {entry : Entry} (explicit : entry.Explicit source) : entry.flatten ≠ [] := by
  induction explicit with
  | statement => simp [flatten]
  | invocation _ nonempty _ ih =>
    rw [flatten]
    exact flattenAll_ne_nil nonempty ih

theorem flatten {entry : Entry} (explicit : entry.Explicit source) :
    ∀ statement ∈ entry.flatten, statement.Explicit source := by
  induction explicit with
  | statement explicit =>
    intro other member
    rw [Entry.flatten, List.mem_singleton] at member
    exact member ▸ explicit
  | invocation _ _ _ ih =>
    intro statement member
    rw [Entry.flatten, flattenAll_eq_flatMap] at member
    obtain ⟨entry, inside, here⟩ := List.mem_flatMap.mp member
    exact ih entry inside statement here

theorem check_ok {entry : Entry} (explicit : entry.Explicit source) (owner : String) :
    entry.check owner = .ok () := by
  induction explicit generalizing owner with
  | @statement statement explicit =>
    cases statement <;> first | rfl | exact explicit.elim
  | @invocation name body identifier nonempty each ih =>
    have statements : flattenAll body ≠ [] :=
      flattenAll_ne_nil nonempty fun entry member => (each entry member).flatten_ne_nil
    have rest : checkAll name body = .ok () :=
      checkAll_ok fun entry member => ih entry member name
    simp [check, identifier, statements, rest]

theorem ungroup {entry : Entry} (explicit : entry.Explicit source) : entry.ungroup = [entry] := by
  cases explicit <;> rfl

end Explicit

theorem ungroupAll_eq_self {entries : List Entry}
    (each : ∀ entry ∈ entries, entry.ungroup = [entry]) : ungroupAll entries = entries := by
  induction entries with
  | nil => rfl
  | cons entry entries ih =>
    rw [ungroupAll, each entry List.mem_cons_self,
      ih fun other member => each other (List.mem_cons_of_mem entry member)]
    rfl

end Entry

namespace Template.Explicit

variable {t : Template}

theorem validate_ok (explicit : t.Explicit source) : t.validate = .ok () := by
  cases explicit with
  | @topic name entries identifier nonempty each =>
    have statements : Entry.flattenAll entries ≠ [] :=
      Entry.flattenAll_ne_nil nonempty fun entry member => (each entry member).flatten_ne_nil
    have checked : Entry.checkAll name entries = .ok () :=
      Entry.checkAll_ok fun entry member => (each entry member).check_ok name
    simp [validate, flattened, identifier, statements, checked]
  | association identifier explicit => simp [validate, identifier]

end Template.Explicit

def Succeeds {α : Type} (result : Except Error α) : Prop := ∃ x, result = .ok x

namespace Succeeds

variable {α β : Type}

theorem ok (x : α) : Succeeds (.ok x) := ⟨x, rfl⟩

theorem mapM {f : α → Except Error β} {items : List α}
    (each : ∀ item ∈ items, Succeeds (f item)) : Succeeds (items.mapM f) := by
  obtain ⟨results, all, _⟩ := mapM_ok each
  exact ⟨results, all⟩

end Succeeds

section Faults

variable {s : Session} {fault : TemplateFault}

theorem TopicRef.Explicit.sound {topic : TopicRef} (explicit : topic.Explicit s.source) :
    ¬ s.Lacks [.topic topic] fault := by
  rintro ⟨id, member, anonymous, -⟩
  cases List.mem_singleton.mp member
  exact anonymous explicit

theorem ScopePattern.sound_of_explicit {scope : ScopePattern}
    (explicit : ∀ theme ∈ scope.themes, theme.Explicit s.source) :
    ¬ s.Lacks scope.places fault := by
  rw [places, List.map_eq_flatMap, Session.lacks_flatMap]
  rintro ⟨theme, member, lacks⟩
  exact (explicit theme member).sound lacks

theorem NamePattern.Explicit.sound {p : NamePattern} (explicit : p.Explicit s.source) :
    ¬ s.Lacks p.places fault := by
  have scope : ¬ s.Lacks p.scope.places fault := ScopePattern.sound_of_explicit explicit.themes
  simp only [places, Session.lacks_append, Session.lacks_pair, explicit.reifier, explicit.variants]
  simp [explicit.type.sound, scope, ReifierPattern.places]

theorem OccurrencePattern.Explicit.sound {p : OccurrencePattern} (explicit : p.Explicit s.source) :
    ¬ s.Lacks p.places fault := by
  have scope : ¬ s.Lacks p.scope.places fault := ScopePattern.sound_of_explicit explicit.themes
  simp only [places, Session.lacks_append, Session.lacks_pair, explicit.reifier]
  simp [explicit.type.sound, scope, ReifierPattern.places]

theorem RolePattern.Explicit.sound {p : RolePattern} (explicit : p.Explicit s.source) :
    ¬ s.Lacks p.places fault := by
  obtain ⟨token, player⟩ := explicit.player
  simp only [places, Session.lacks_append, Session.lacks_pair, explicit.reifier, player]
  simp [explicit.type.sound, ReifierPattern.places]

theorem AssociationPattern.Explicit.sound {p : AssociationPattern}
    (explicit : p.Explicit s.source) : ¬ s.Lacks p.places fault := by
  have roles : ∀ role ∈ p.roles, ¬ s.Lacks role.places fault :=
    fun role member => (explicit.roles role member).sound
  simp only [places, Session.lacks_append, Session.lacks_flatMap, explicit.scope, explicit.reifier]
  simpa [explicit.type.sound, ReifierPattern.places, ScopePattern.places, ScopePattern.themes]
    using roles

theorem Entry.Explicit.sound {entry : Entry} (explicit : entry.Explicit s.source) :
    ¬ s.Faulty entry fault := by
  cases explicit with
  | invocation => exact id
  | @statement statement explicit =>
    cases statement with
    | isa type => exact TopicRef.Explicit.sound explicit
    | name p => exact NamePattern.Explicit.sound explicit
    | occurrence p => exact OccurrencePattern.Explicit.sound explicit
    | ako _ | association _ | identifier _ _ | variant _ | role _ | reifier _ | scope _ =>
      exact explicit.elim

theorem Session.define_succeeds {t : Template} (explicit : t.Explicit s.source) :
    Succeeds (s.define t) := by
  refine (s.define_renders t).settled.ok_iff.mpr ?_
  rintro fault ⟨entry, member, faulty⟩
  cases explicit with
  | topic identifier nonempty each =>
    rw [Entry.ungroupAll_eq_self fun entry member => (each entry member).ungroup] at member
    exact (each entry member).sound faulty
  | association identifier explicit =>
    obtain rfl := List.mem_singleton.mp member
    exact AssociationPattern.Explicit.sound explicit faulty

end Faults

section Placing

def Placement.Explicit (source : Source) (p : Placement) : Prop := ∀ t ∈ p.placed, t.Explicit source

theorem Entry.placeAll_explicit {entries : List Entry} {p : Placement} (placed : p.Explicit source)
    (each : ∀ entry ∈ entries, ∀ p : Placement, p.Explicit source →
      (entry.place p).Explicit source) :
    (Entry.placeAll entries p).Explicit source := by
  induction entries generalizing p with
  | nil => exact placed
  | cons entry entries ih =>
    rw [placeAll]
    exact ih (each entry List.mem_cons_self p placed) fun other member =>
      each other (List.mem_cons_of_mem entry member)

theorem Entry.place_invocation_explicit {name : String} {kind : TemplateKind} {body : List Entry}
    {p : Placement} (placed : p.Explicit source)
    (explicit : Template.Explicit source ⟨name, kind, body⟩)
    (each : ∀ entry ∈ body, ∀ p : Placement, p.Explicit source → (entry.place p).Explicit source) :
    (Entry.place (.invocation name kind body) p).Explicit source := by
  rw [place]
  split
  · exact placed
  · have inner : (placeAll body { p with visited := name :: p.visited }).Explicit source :=
      placeAll_explicit placed each
    intro t member
    rcases List.mem_append.mp member with earlier | last
    · exact inner t earlier
    · exact List.mem_singleton.mp last ▸ explicit

theorem Entry.Explicit.place {entry : Entry} (explicit : entry.Explicit source) (p : Placement)
    (placed : p.Explicit source) : (entry.place p).Explicit source := by
  induction explicit generalizing p with
  | statement => exact placed
  | invocation identifier nonempty each ih =>
    exact Entry.place_invocation_explicit placed (.topic identifier nonempty each) ih

theorem Template.Explicit.place {t : Template} (explicit : t.Explicit source) (p : Placement)
    (placed : p.Explicit source) : (t.invoke.place p).Explicit source := by
  cases explicit with
  | topic identifier nonempty each =>
    refine Entry.place_invocation_explicit placed (.topic identifier nonempty each) ?_
    intro entry member
    exact (each entry member).place
  | association identifier explicit =>
    refine Entry.place_invocation_explicit placed (.association identifier explicit) ?_
    intro entry member p placed
    obtain rfl := List.mem_singleton.mp member
    exact placed

theorem dependencyOrder_explicit {templates : List Template}
    (explicit : ∀ t ∈ templates, t.Explicit source) :
    ∀ t ∈ dependencyOrder templates, t.Explicit source := by
  refine Entry.placeAll_explicit (p := {}) (by simp [Placement.Explicit]) ?_
  intro entry member
  obtain ⟨t, inside, rfl⟩ := List.mem_map.mp member
  exact (explicit t inside).place

end Placing

theorem Writer.definitions_succeeds (w : Writer) {s : Session} {templates : List Template}
    (explicit : ∀ t ∈ templates, t.Explicit s.source) : Succeeds (w.definitions s templates) := by
  rw [definitions]
  split
  · refine .mapM fun t member => Session.define_succeeds ?_
    exact dependencyOrder_explicit explicit t (List.mem_filter.mp member).1
  · exact .ok []

theorem forM_validate_ok {templates : List Template}
    (explicit : ∀ t ∈ templates, t.Explicit source) :
    templates.forM Template.validate = .ok () := by
  induction templates with
  | nil => rfl
  | cons t ts ih =>
    change (t.validate >>= fun _ => ts.forM Template.validate) = .ok ()
    rw [(explicit t List.mem_cons_self).validate_ok]
    exact ih fun other member => explicit other (List.mem_cons_of_mem t member)

end CompactTopicMap
