import CompactTopicMap.Proofs.Adaptivity
import CompactTopicMap.Proofs.Merging.Access

namespace CompactTopicMap

theorem forall₂_set {α β : Type} {R : α → β → Prop} {as : List α} {bs : List β} {i : Nat} {b b' : β}
    (related : List.Forall₂ R as bs) (listed : bs[i]? = some b)
    (step : ∀ a, as[i]? = some a → R a b → R a b') : List.Forall₂ R as (bs.set i b') := by
  induction related generalizing i with
  | nil => cases listed
  | cons head tail ih =>
    cases i with
    | zero =>
      obtain rfl := Option.some.inj listed
      exact .cons (step _ rfl head) tail
    | succ i => exact .cons head (ih listed step)

theorem Merging.factor_forall₂ {R : Template → Template → Prop}
    (keeps : ∀ {t t' sub rest : Template} {wanted : List Entry}, R t t' →
      t'.Factored wanted sub rest → R t rest)
    {templates : List Template} {m m' : Merging} {wanted : List Entry} {position : Nat}
    (related : List.Forall₂ R templates m.working) (found : m.factor wanted position = some m') :
    List.Forall₂ R templates m'.working := by
  obtain ⟨t, sub, rest, listed, factored, working, _⟩ := factor_eq_some found
  rw [working]
  exact forall₂_set related listed fun original _ before => keeps before factored

/-- The second template is the first one up to the order of its statements and up to the templates
that it invokes for them. -/
structure Template.KeepsBody (t t' : Template) : Prop where
  name : t'.name = t.name
  kind : t'.kind = t.kind
  association : t.kind = .association → t' = t
  statements : t'.flattened.Perm t.flattened
  arguments : ∀ token, token ∈ t'.argumentTokens ↔ token ∈ t.argumentTokens

namespace Template

variable {wanted : List Entry} {t t' t'' sub rest : Template}

theorem KeepsBody.refl (t : Template) : t.KeepsBody t :=
  ⟨rfl, rfl, fun _ => rfl, .refl _, fun _ => .rfl⟩

theorem KeepsBody.trans (first : t.KeepsBody t') (second : t'.KeepsBody t'') : t.KeepsBody t'' where
  name := second.name.trans first.name
  kind := second.kind.trans first.kind
  association is := (second.association (first.kind.trans is)).trans (first.association is)
  statements := second.statements.trans first.statements
  arguments token := (second.arguments token).trans (first.arguments token)

theorem Factored.flattened_perm (factored : t.Factored wanted sub rest) :
    rest.flattened.Perm t.flattened := by
  obtain ⟨outside, split, remaining⟩ := factored.outside
  simp only [flattened, Entry.flattenAll_eq_flatMap]
  have invoked : (sub.invoke :: outside).flatMap Entry.flatten =
      (sub.entries ++ outside).flatMap Entry.flatten := by
    rw [List.flatMap_cons, invoke, Entry.flatten, Entry.flattenAll_eq_flatMap, List.flatMap_append]
  calc List.Perm (rest.entries.flatMap Entry.flatten) ((sub.invoke :: outside).flatMap Entry.flatten) :=
        remaining.flatMap_right _
    _ = (sub.entries ++ outside).flatMap Entry.flatten := invoked
    List.Perm _ (t.entries.flatMap Entry.flatten) := split.flatMap_right _

theorem Factored.mem_argumentTokens (factored : t.Factored wanted sub rest) (token : String) :
    token ∈ rest.argumentTokens ↔ token ∈ t.argumentTokens := by
  obtain ⟨outside, split, remaining⟩ := factored.outside
  have before := (split.flatMap_right Entry.tokens).mem_iff (a := token)
  have after := (remaining.flatMap_right Entry.tokens).mem_iff (a := token)
  simp only [argumentTokens, mem_parameterTokens, Entry.tokensAll_eq_flatMap, before.symm, after,
    List.flatMap_cons, List.flatMap_append, List.mem_append, invoke, Entry.tokens]
  tauto

theorem Factored.keepsBody (factored : t.Factored wanted sub rest) (topic : t.kind = .topic) :
    t.KeepsBody rest where
  name := factored.name
  kind := factored.kind
  association is := by
    rw [topic] at is
    cases is
  statements := factored.flattened_perm
  arguments := factored.mem_argumentTokens

end Template

/-- A merge so far: the given templates keep their bodies, and the created ones were drawn from them.
-/
structure Merging.Keeps (least : Nat) (templates : List Template) (m : Merging) : Prop where
  working : List.Forall₂ Template.KeepsBody templates m.working
  created : ∀ t ∈ m.created, t.kind = .topic ∧ DrawnFrom least templates t.entries

namespace Merging

variable {least : Nat} {templates : List Template} {m m' : Merging} {wanted : List Entry}

theorem Keeps.factor (keeps : m.Keeps least templates) (drawn : DrawnFrom least templates wanted)
    {position : Nat} (topic : ∃ t, templates[position]? = some t ∧ t.kind = .topic)
    (found : m.factor wanted position = some m') : m'.Keeps least templates := by
  obtain ⟨t, sub, rest, listed, factored, working, created⟩ := factor_eq_some found
  constructor
  · rw [working]
    apply forall₂_set keeps.working listed
    intro original here body
    obtain ⟨other, same, topic⟩ := topic
    obtain rfl := Option.some.inj (here.symm.trans same)
    exact body.trans (factored.keepsBody (body.kind.trans topic))
  · rw [created]
    intro t member
    rcases List.mem_append.mp member with earlier | last
    · exact keeps.created t earlier
    · rw [List.mem_singleton.mp last]
      exact ⟨factored.topic, drawn.perm factored.inside⟩

theorem Keeps.addShared (keeps : m.Keeps least templates) {c : Candidate}
    (drawn : DrawnFrom least templates c.entries) : (m.addShared c).Keeps least templates where
  working := keeps.working
  created := by
    intro t member
    rcases List.mem_append.mp member with earlier | last
    · exact keeps.created t earlier
    · rw [List.mem_singleton.mp last]
      exact ⟨rfl, drawn⟩

end Merging

/-- A merge makes no access outside of its lists. Its first templates are the given ones, of which the
association templates are unchanged and each topic template keeps its statements and arguments; each
further one is a topic template whose entries, as many as the merger asks for and at least one, stand
together in a given topic template. -/
theorem Merger.merge_keeps_bodies (merger : Merger) (templates : List Template) :
    merger.mergeChecked templates = some (merger.merge templates) ∧
      ∃ kept created, (merger.merge templates).2 = kept ++ created ∧
        List.Forall₂ Template.KeepsBody templates kept ∧
        ∀ t ∈ created, t.kind = .topic ∧ DrawnFrom merger.least templates t.entries := by
  have drawn := merger.candidates_drawn templates
  have topics := merger.candidates_topics templates
  have start : Merging.Keeps merger.least templates { merger, working := templates } :=
    ⟨List.forall₂_same.mpr fun t _ => .refl t, by simp⟩
  obtain ⟨m, keeps, merged⟩ := Merger.merge_induction start
    (fun c member _ _ position inside kept found =>
      kept.factor (drawn c member) (topics c member position inside) found)
    (fun c member _ _ kept => kept.addShared (drawn c member))
  refine ⟨merger.mergeChecked_eq templates, m.working, m.created, ?_, keeps.working, keeps.created⟩
  rw [merged]

end CompactTopicMap
