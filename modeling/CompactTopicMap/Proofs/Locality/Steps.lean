import CompactTopicMap.Proofs.Completeness

/-! A step is local to some constructs if what it gives and what it adds depend on these alone. -/

namespace CompactTopicMap

def Progress.AgreeOn (own : Construct → Prop) (p q : Progress) : Prop :=
  ∀ c, own c → (c ∈ p.written ↔ c ∈ q.written)

/-- Two states of progress that led to the same result by the same gains, all of them own. -/
structure Progress.Parallel {β : Type} (own : Construct → Prop) (p q : Progress)
    (r r' : Progress × β) : Prop where
  result : r.2 = r'.2
  gains : ∃ added dropped, (∀ c, added c → own c) ∧ p.Gains added dropped r.1 ∧
    q.Gains added dropped r'.1

def Local {β : Type} (own : Construct → Prop) (step : Progress → Progress × β) : Prop :=
  ∀ p q : Progress, p.AgreeOn own q → p.Parallel own q (step p) (step q)

section Combinators

variable {β γ : Type} {own : Construct → Prop} {p q : Progress}

theorem Progress.Parallel.agree {r r' : Progress × β} (parallel : p.Parallel own q r r')
    (agree : p.AgreeOn own q) : r.1.AgreeOn own r'.1 := by
  obtain ⟨added, dropped, _, gains, gains'⟩ := parallel.gains
  intro c mine
  rw [gains.mem, gains'.mem, agree c mine]

theorem Progress.Parallel.trans {r r' : Progress × β} {t t' : Progress × γ}
    (first : p.Parallel own q r r') (second : r.1.Parallel own r'.1 t t') :
    p.Parallel own q t t' := by
  obtain ⟨added, dropped, inside, gains, gains'⟩ := first.gains
  obtain ⟨more, later, inside', further, further'⟩ := second.gains
  refine ⟨second.result, _, _, ?_, gains.trans further, gains'.trans further'⟩
  rintro c (new | new)
  · exact inside c new
  · exact inside' c new

namespace Local

theorem pure (x : β) : Local own fun p => (p, x) := fun p q _ =>
  ⟨rfl, fun _ => False, 0, nofun, ⟨by simp, rfl⟩, ⟨by simp, rfl⟩⟩

theorem skip (x : β) : Local own fun p => (p.skip, x) := fun p q _ =>
  ⟨rfl, fun _ => False, 1, nofun, ⟨by simp [Progress.skip], rfl⟩, ⟨by simp [Progress.skip], rfl⟩⟩

theorem markAll {claims : List Construct} (mine : ∀ c ∈ claims, own c) (x : β) :
    Local own fun p => (p.markAll claims, x) := by
  intro p q _
  refine ⟨rfl, (· ∈ claims), 0, mine, ⟨fun c => ?_, rfl⟩, ⟨fun c => ?_, rfl⟩⟩
  · exact Written.mem_insertAll.trans or_comm
  · exact Written.mem_insertAll.trans or_comm

theorem mark {c : Construct} (mine : own c) (x : β) : Local own fun p => (p.mark c, x) :=
  markAll (List.forall_mem_singleton.mpr mine) x

theorem bind {f : Progress → Progress × β} {g : β → Progress → Progress × γ}
    (first : Local own f) (second : ∀ x, Local own (g x)) :
    Local own fun p => g (f p).2 (f p).1 := by
  intro p q agree
  have parallel := first p q agree
  have later := second (f p).2 _ _ (parallel.agree agree)
  simp only [← parallel.result]
  exact parallel.trans later

theorem map {f : Progress → Progress × β} (first : Local own f) (change : β → γ) :
    Local own fun p => ((f p).1, change (f p).2) :=
  first.bind fun x => pure (change x)

theorem andThen {f : Progress → Progress × Except Error β}
    {g : β → Progress → Progress × Except Error γ} (first : Local own f)
    (second : ∀ x, Local own (g x)) :
    Local own fun p => match f p with
      | (q, .error e) => (q, .error e)
      | (q, .ok x) => g x q := by
  let next : Except Error β → Progress → Progress × Except Error γ
    | .error e, p => (p, .error e)
    | .ok x, p => g x p
  have each (result : Except Error β) : Local own (next result) :=
    match result with
    | .error _ => pure _
    | .ok x => second x
  convert first.bind each using 2 with p
  rcases f p with ⟨q, _ | x⟩ <;> rfl

theorem ite_written {c : Construct} (mine : own c) {f g : Progress → Progress × β}
    (present : Local own f) (absent : Local own g) :
    Local own fun p => if c ∈ p.written then f p else g p := by
  intro p q agree
  simp only [agree c mine]
  split
  · exact present p q agree
  · exact absent p q agree

end Local
end Combinators

namespace Session

variable {own : Construct → Prop} {s : Session}

theorem encodeUnwritten_local {α β : Type} {construct : α → Construct}
    {encode : Progress → α → Progress × Option β} {items : List α}
    (mine : ∀ item ∈ items, own (construct item))
    (encodes : ∀ item ∈ items, Local own fun p => encode p item) :
    Local own (encodeUnwritten construct encode items) := by
  induction items with
  | nil => exact .pure []
  | cons item items ih =>
    have rest : Local own (encodeUnwritten construct encode items) :=
      ih (fun other member => mine other (List.mem_cons_of_mem item member))
        fun other member => encodes other (List.mem_cons_of_mem item member)
    apply Local.ite_written (mine item List.mem_cons_self) rest
    -- The body of the loop as a step and what follows on its text.
    have step := (encodes item List.mem_cons_self).bind
      (g := fun text p => match text with
        | some text => ((encodeUnwritten construct encode items p).1,
            text :: (encodeUnwritten construct encode items p).2)
        | none => encodeUnwritten construct encode items p.skip)
      fun text => match text with
        | some text => rest.map (text :: ·)
        | none => (Local.skip ()).bind fun _ => rest
    convert step using 2 with p
    rcases encode p item with ⟨q, _ | text⟩ <;> rfl

theorem encodeVariants_local {ids : List VariantId} (mine : ∀ id ∈ ids, own (.variant id)) :
    Local own (s.encodeVariants ids) := by
  refine encodeUnwritten_local mine fun id member => ?_
  simp only [encodeVariant]
  cases s.variantParts? id with
  | none => exact .pure none
  | some text => exact .mark (mine id member) _

theorem encodeName_local {id : NameId} (mine : own (.name id))
    (variants : ∀ v ∈ (s.source.name id).variants, own (.variant v)) :
    Local own fun p => s.encodeName p id := by
  simp only [encodeName]
  cases s.encodeNameType (s.source.name id).type with
  | none => exact .pure none
  | some type =>
    cases s.encodeScope (s.source.name id).scope with
    | none => exact .pure none
    | some scope =>
      exact (encodeVariants_local variants).bind fun texts => .mark mine (some (Layout.name type
        (s.encodeLiteral .block Iri.string (s.source.name id).value) scope
        (s.encodeReifier (s.source.name id).reifier) texts))

theorem encodeOccurrence_local {id : OccurrenceId} (mine : own (.occurrence id)) :
    Local own fun p => s.encodeOccurrence p id := by
  simp only [encodeOccurrence]
  cases s.reference? (s.source.occurrence id).type with
  | none => exact .pure none
  | some type =>
    cases s.encodeScope (s.source.occurrence id).scope with
    | none => exact .pure none
    | some scope => exact .mark mine _

theorem encodeRelation_local {keyword : String} {construct : TopicId → Construct} {other : TopicId}
    (mine : own (construct other)) :
    Local own fun p => s.encodeRelation keyword construct p other := by
  simp only [encodeRelation]
  cases s.reference? other with
  | none => exact .pure none
  | some text => exact .mark mine _

theorem encodeLocators_local {id : TopicId} {kind : LocatorKind}
    (mine : ∀ iri, own (.locator id kind iri)) : Local own (s.encodeLocators id kind) :=
  encodeUnwritten_local (fun iri _ => mine iri) fun iri _ => .mark (mine iri) _

end Session
end CompactTopicMap
