import CompactTopicMap.Template.Basic
import Mathlib.Data.List.Permutation
import Mathlib.Logic.Relation

/-! Templates that are invoked at any depth. -/

namespace CompactTopicMap

namespace Entry

mutual

def within : Entry → List Template
  | statement _ => []
  | invocation name kind body => ⟨name, kind, body⟩ :: withinAll body
  | group entries => withinAll entries

def withinAll : List Entry → List Template
  | [] => []
  | entry :: entries => within entry ++ withinAll entries

end

theorem withinAll_eq_flatMap (entries : List Entry) :
    withinAll entries = entries.flatMap within := by
  induction entries with
  | nil => rfl
  | cons entry entries ih => rw [withinAll, ih, List.flatMap_cons]

theorem withinAll_append (entries others : List Entry) :
    withinAll (entries ++ others) = withinAll entries ++ withinAll others := by
  simp only [withinAll_eq_flatMap, List.flatMap_append]

theorem withinAll_perm {entries others : List Entry} (perm : entries.Perm others) :
    (withinAll entries).Perm (withinAll others) := by
  simpa only [withinAll_eq_flatMap] using perm.flatMap_right within

theorem withinAll_subset {entries others : List Entry} (inside : entries ⊆ others) :
    withinAll entries ⊆ withinAll others := by
  intro t invoked
  rw [withinAll_eq_flatMap, List.mem_flatMap] at *
  obtain ⟨entry, here, invoked⟩ := invoked
  exact ⟨entry, inside here, invoked⟩

mutual

theorem sizeOf_lt_of_mem_within {t : Template} : (entry : Entry) → t ∈ within entry →
    sizeOf t.entries < sizeOf entry
  | .statement _, inside => nomatch inside
  | .invocation name kind body, inside => by
    have smaller : sizeOf body < sizeOf (invocation name kind body) := by
      rw [invocation.sizeOf_spec]
      omega
    rcases List.mem_cons.mp inside with rfl | deeper
    · exact smaller
    · exact Nat.lt_trans (sizeOf_lt_of_mem_withinAll body deeper) smaller
  | .group entries, inside => by
    have smaller := sizeOf_lt_of_mem_withinAll entries inside
    rw [group.sizeOf_spec]
    omega

theorem sizeOf_lt_of_mem_withinAll {t : Template} : (entries : List Entry) → t ∈ withinAll entries →
    sizeOf t.entries < sizeOf entries
  | [], inside => nomatch inside
  | entry :: entries, inside => by
    rw [List.cons.sizeOf_spec]
    rcases List.mem_append.mp inside with here | later
    · have smaller := sizeOf_lt_of_mem_within entry here
      omega
    · have smaller := sizeOf_lt_of_mem_withinAll entries later
      omega

end

mutual

theorem within_trans {t : Template} : (entry : Entry) → t ∈ within entry →
    withinAll t.entries ⊆ within entry
  | .statement _, inside => nomatch inside
  | .invocation name kind body, inside => by
    have body_within : withinAll body ⊆ within (invocation name kind body) :=
      List.subset_cons_self _ _
    rcases List.mem_cons.mp inside with rfl | deeper
    · exact body_within
    · exact List.Subset.trans (withinAll_trans body deeper) body_within
  | .group entries, inside => withinAll_trans entries inside

theorem withinAll_trans {t : Template} : (entries : List Entry) → t ∈ withinAll entries →
    withinAll t.entries ⊆ withinAll entries
  | [], inside => nomatch inside
  | entry :: entries, inside => by
    rcases List.mem_append.mp inside with here | later
    · exact List.Subset.trans (within_trans entry here) (List.subset_append_left _ _)
    · exact List.Subset.trans (withinAll_trans entries later) (List.subset_append_right _ _)

end

mutual

theorem invoked_subset_within : (entry : Entry) → invoked entry ⊆ within entry
  | .statement _ => List.nil_subset _
  | .invocation _ _ _ => List.cons_subset_cons _ (List.nil_subset _)
  | .group entries => invokedAll_subset_withinAll entries

theorem invokedAll_subset_withinAll : (entries : List Entry) → invokedAll entries ⊆ withinAll entries
  | [] => List.nil_subset _
  | entry :: entries => by
    rw [invokedAll, withinAll, List.append_subset]
    exact ⟨List.Subset.trans (invoked_subset_within entry) (List.subset_append_left _ _),
      List.Subset.trans (invokedAll_subset_withinAll entries) (List.subset_append_right _ _)⟩

end

end Entry

namespace Template

variable {t u : Template}

theorem not_mem_withinAll (t : Template) : t ∉ Entry.withinAll t.entries := fun inside =>
  Nat.lt_irrefl _ (Entry.sizeOf_lt_of_mem_withinAll t.entries inside)

def Invokes : Template → Template → Prop := Relation.TransGen fun t u => u ∈ t.nested

end Template

mutual

theorem Entry.invoked_reaches {u : Template} : (entry : Entry) → u ∈ within entry →
    ∃ t ∈ invoked entry, t = u ∨ t.Invokes u
  | .statement _, inside => nomatch inside
  | .invocation name kind body, inside => by
    refine ⟨⟨name, kind, body⟩, List.mem_singleton_self _, ?_⟩
    rcases List.mem_cons.mp inside with rfl | deeper
    · exact .inl rfl
    · obtain ⟨t, invoked, rfl | reaches⟩ := Entry.invokedAll_reaches body deeper
      · exact .inr (.single invoked)
      · exact .inr (.head invoked reaches)
  | .group entries, inside => Entry.invokedAll_reaches entries inside

theorem Entry.invokedAll_reaches {u : Template} : (entries : List Entry) → u ∈ withinAll entries →
    ∃ t ∈ invokedAll entries, t = u ∨ t.Invokes u
  | [], inside => nomatch inside
  | entry :: entries, inside => by
    rcases List.mem_append.mp inside with here | later
    · obtain ⟨t, invoked, reaches⟩ := Entry.invoked_reaches entry here
      exact ⟨t, List.mem_append_left _ invoked, reaches⟩
    · obtain ⟨t, invoked, reaches⟩ := Entry.invokedAll_reaches entries later
      exact ⟨t, List.mem_append_right _ invoked, reaches⟩

end

theorem Template.invokes_iff {t u : Template} : t.Invokes u ↔ u ∈ Entry.withinAll t.entries := by
  constructor
  · intro invokes
    induction invokes with
    | single invoked => exact Entry.invokedAll_subset_withinAll _ invoked
    | @tail v w _ invoked ih =>
      have deeper := Entry.invokedAll_subset_withinAll v.entries invoked
      exact Entry.withinAll_trans t.entries ih deeper
  · intro inside
    obtain ⟨v, invoked, rfl | reaches⟩ := Entry.invokedAll_reaches t.entries inside
    · exact .single invoked
    · exact .head invoked reaches

def nestedIn (templates : List Template) : List Template :=
  templates.flatMap fun t => Entry.withinAll t.entries

theorem mem_nestedIn {templates : List Template} {u : Template} :
    u ∈ nestedIn templates ↔ ∃ t ∈ templates, u ∈ Entry.withinAll t.entries :=
  List.mem_flatMap

def OneMeaning (templates : List Template) : Prop :=
  ∀ t ∈ templates, ∀ u ∈ templates, t.name = u.name → t = u

instance (templates : List Template) : Decidable (OneMeaning templates) :=
  inferInstanceAs (Decidable (∀ t ∈ templates, ∀ u ∈ templates, t.name = u.name → t = u))

/-- Templates of one name, listed or invoked at any depth, are equal. -/
def Unambiguous (templates : List Template) : Prop := OneMeaning (templates ++ nestedIn templates)

instance (templates : List Template) : Decidable (Unambiguous templates) :=
  inferInstanceAs (Decidable (OneMeaning (templates ++ nestedIn templates)))

theorem OneMeaning.subset {templates others : List Template} (one : OneMeaning others)
    (inside : templates ⊆ others) : OneMeaning templates :=
  fun t here u there => one t (inside here) u (inside there)

theorem oneMeaning_append_iff {templates others : List Template} :
    OneMeaning (templates ++ others) ↔
      OneMeaning templates ∧ OneMeaning others ∧
        ∀ t ∈ templates, ∀ u ∈ others, t.name = u.name → t = u := by
  constructor
  · intro one
    refine ⟨one.subset (List.subset_append_left _ _), one.subset (List.subset_append_right _ _), ?_⟩
    exact fun t here u there => one t (List.mem_append_left _ here) u (List.mem_append_right _ there)
  · rintro ⟨first, second, across⟩ t here u there same
    rcases List.mem_append.mp here with here | here
    · rcases List.mem_append.mp there with there | there
      · exact first t here u there same
      · exact across t here u there same
    · rcases List.mem_append.mp there with there | there
      · exact (across u there t here same.symm).symm
      · exact second t here u there same

end CompactTopicMap
