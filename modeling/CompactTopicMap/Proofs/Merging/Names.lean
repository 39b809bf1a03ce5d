import CompactTopicMap.Proofs.Merging.Bodies
import CompactTopicMap.Proofs.Naming.Identifiers
import CompactTopicMap.Proofs.Nesting
import CompactTopicMap.Template.Validity

/-! Whether each name still means one template behind a merge. -/

namespace CompactTopicMap

/-- The name that a merge of the templates gives to a template that it creates, by its number. -/
def Template.Numbered (templates : List Template) (number : Nat) (c : Template) : Prop :=
  c.name = "merged-" ++ Nat.repr number ∨
    ∃ t ∈ templates, c.name = t.name ++ "-invoc-" ++ Nat.repr number

theorem takeWhile_digits (stem : List Char) (number : Nat) :
    (stem ++ '-' :: (Nat.repr number).toList).reverse.takeWhile (· ≠ '-') =
      (Nat.repr number).toList.reverse := by
  have digits : ∀ c ∈ (Nat.repr number).toList.reverse, decide (c ≠ '-') = true := by
    intro c member
    have digit := isDigit_of_mem_repr (List.mem_reverse.mp member)
    rw [decide_eq_true_eq]
    rintro rfl
    exact absurd digit (by decide)
  rw [List.reverse_append, List.reverse_cons, List.append_assoc, List.takeWhile_append_of_pos digits]
  simp

theorem Template.Numbered.chars {templates : List Template} {number : Nat} {c : Template}
    (numbered : c.Numbered templates number) :
    ∃ stem, c.name.toList = stem ++ '-' :: (Nat.repr number).toList := by
  rcases numbered with name | ⟨t, _, name⟩
  · exact ⟨"merged".toList, by simp [name]⟩
  · exact ⟨t.name.toList ++ "-invoc".toList, by simp [name]⟩

theorem Template.Numbered.of_name {templates : List Template} {number : Nat} {c d : Template}
    (numbered : c.Numbered templates number) (same : c.name = d.name) :
    d.Numbered templates number := by
  rwa [Numbered, ← same]

theorem Template.Numbered.number_eq {templates : List Template} {number other : Nat}
    {c d : Template} (numbered : c.Numbered templates number) (further : d.Numbered templates other)
    (same : c.name = d.name) : number = other := by
  obtain ⟨stem, chars⟩ := numbered.chars
  obtain ⟨stem', chars'⟩ := further.chars
  have digits : (Nat.repr number).toList.reverse = (Nat.repr other).toList.reverse := by
    rw [← takeWhile_digits stem, ← takeWhile_digits stem', ← chars, ← chars', same]
  rw [List.reverse_inj, Nat.toList_repr, Nat.toList_repr] at digits
  have value := congrArg (fun digits => Nat.ofDigitChars 10 digits 0) digits
  simpa using value

theorem Template.Factored.within_perm {wanted : List Entry} {t sub rest : Template}
    (factored : t.Factored wanted sub rest) :
    (Entry.withinAll rest.entries).Perm (sub :: Entry.withinAll t.entries) := by
  obtain ⟨outside, split, remaining⟩ := factored.outside
  calc List.Perm (Entry.withinAll rest.entries) (Entry.withinAll (sub.invoke :: outside)) :=
        Entry.withinAll_perm remaining
    _ = sub :: Entry.withinAll (sub.entries ++ outside) := by
        rw [Entry.withinAll_append]
        rfl
    List.Perm _ (sub :: Entry.withinAll t.entries) := (Entry.withinAll_perm split).cons sub

theorem Template.Factored.within_subset {wanted : List Entry} {t sub rest : Template}
    (factored : t.Factored wanted sub rest) :
    Entry.withinAll sub.entries ⊆ Entry.withinAll t.entries := by
  obtain ⟨outside, split, _⟩ := factored.outside
  exact Entry.withinAll_subset fun entry member => split.subset (List.mem_append_left _ member)

/-- The second template has the name of the first, and invokes what that invokes. -/
structure Template.Rewritten (t k : Template) : Prop where
  name : k.name = t.name
  nested : Entry.withinAll t.entries ⊆ Entry.withinAll k.entries

theorem Template.Rewritten.factored {wanted : List Entry} {t k sub rest : Template}
    (rewritten : t.Rewritten k) (factored : k.Factored wanted sub rest) : t.Rewritten rest where
  name := factored.name.trans rewritten.name
  nested _ invoked :=
    factored.within_perm.mem_iff.mpr (List.mem_cons_of_mem sub (rewritten.nested invoked))

namespace Merging

variable {merger : Merger} {templates : List Template} {m m' : Merging} {wanted : List Entry}
  {position : Nat}

theorem factor_number (found : m.factor wanted position = some m') :
    m'.merger.named = m.merger.named + 1 ∧
      ∃ t sub, m.working[position]? = some t ∧ m'.created = m.created ++ [sub] ∧
        sub.name = t.name ++ "-invoc-" ++ Nat.repr m'.merger.named := by
  simp only [factor, Option.bind_eq_bind, Option.bind_eq_some_iff, Option.some.injEq] at found
  rcases found with ⟨t, listed, positions, _, first, _, rfl⟩
  exact ⟨rfl, t, _, listed, rfl, rfl⟩

structure Numbers (merger : Merger) (templates : List Template) (m : Merging) : Prop where
  counted : merger.named ≤ m.merger.named
  numbered : ∀ c ∈ m.created, ∃ number, merger.named < number ∧ number ≤ m.merger.named ∧
    c.Numbered templates number
  distinct : (m.created.map Template.name).Nodup

theorem Numbers.create (numbers : m.Numbers merger templates) {c : Template}
    (next : m'.merger.named = m.merger.named + 1) (created : m'.created = m.created ++ [c])
    (numbered : c.Numbered templates m'.merger.named) : m'.Numbers merger templates := by
  have counted := numbers.counted
  refine ⟨by omega, ?_, ?_⟩
  · intro d member
    rw [created] at member
    rcases List.mem_append.mp member with earlier | last
    · obtain ⟨number, above, below, earlier⟩ := numbers.numbered d earlier
      exact ⟨number, above, by omega, earlier⟩
    · rw [List.mem_singleton.mp last]
      exact ⟨m'.merger.named, by omega, Nat.le_refl _, numbered⟩
  · rw [created, List.map_append, List.map_singleton]
    apply List.Nodup.append numbers.distinct (List.nodup_singleton _)
    rw [List.disjoint_singleton]
    -- An earlier template of this name would have this number, but the counter was below it.
    intro member
    obtain ⟨d, earlier, same⟩ := List.mem_map.mp member
    obtain ⟨number, _, below, further⟩ := numbers.numbered d earlier
    have equal := further.number_eq numbered same
    omega

/-- A merge so far: the given templates with their names, and the created ones. What they invoke is
created or was invoked before. -/
structure Names (merger : Merger) (templates : List Template) (m : Merging) : Prop
    extends m.Numbers merger templates where
  kept : List.Forall₂ Template.Rewritten templates m.working
  nested : ∀ k ∈ m.working ++ m.created, ∀ u ∈ Entry.withinAll k.entries,
    u ∈ m.created ∨ u ∈ nestedIn templates

namespace Names

theorem start : Names merger templates { merger, working := templates } where
  counted := Nat.le_refl _
  numbered := nofun
  distinct := List.nodup_nil
  kept := List.forall₂_same.mpr fun _ _ => ⟨rfl, List.Subset.refl _⟩
  nested k listed u invoked :=
    .inr (mem_nestedIn.mpr ⟨k, by rwa [List.append_nil] at listed, invoked⟩)

theorem nested_factor (names : m.Names merger templates)
    (found : m.factor wanted position = some m') :
    ∀ k ∈ m'.working ++ m'.created, ∀ u ∈ Entry.withinAll k.entries,
      u ∈ m'.created ∨ u ∈ nestedIn templates := by
  obtain ⟨t, sub, rest, listed, factored, working, created⟩ := factor_eq_some found
  have before : ∀ k ∈ m.working ++ m.created, ∀ u ∈ Entry.withinAll k.entries,
      u ∈ m'.created ∨ u ∈ nestedIn templates := fun k inside u invoked =>
    (names.nested k inside u invoked).imp_left fun earlier =>
      created ▸ List.mem_append_left _ earlier
  have member : t ∈ m.working ++ m.created := List.mem_append_left _ (List.mem_of_getElem? listed)
  intro k inside u invoked
  rw [working, created, List.mem_append, List.mem_append, List.mem_singleton] at inside
  rcases inside with kept | earlier | rfl
  · -- Only what remains of the factored template invokes more than before, namely the new one.
    rcases List.mem_or_eq_of_mem_set kept with unchanged | rfl
    · exact before k (List.mem_append_left _ unchanged) u invoked
    · rcases List.mem_cons.mp (factored.within_perm.mem_iff.mp invoked) with rfl | invoked
      · exact .inl (created ▸ List.mem_append_right _ (List.mem_singleton_self _))
      · exact before t member u invoked
  · exact before k (List.mem_append_right _ earlier) u invoked
  · exact before t member u (factored.within_subset invoked)

theorem factor (names : m.Names merger templates) (found : m.factor wanted position = some m') :
    m'.Names merger templates := by
  obtain ⟨next, t, sub, listed, created, name⟩ := factor_number found
  obtain ⟨original, given, rewritten⟩ :=
    exists_of_mem_forall₂ names.kept (List.mem_of_getElem? listed)
  have numbered : sub.Numbered templates m'.merger.named :=
    .inr ⟨original, given, rewritten.name ▸ name⟩
  exact {
    names.toNumbers.create next created numbered with
    kept := factor_forall₂ .factored names.kept found
    nested := names.nested_factor found }

theorem addShared (names : m.Names merger templates) {least : Nat} {c : Candidate}
    (drawn : DrawnFrom least templates c.entries) : (m.addShared c).Names merger templates := by
  have next : (m.addShared c).merger.named = m.merger.named + 1 := rfl
  refine { names.toNumbers.create next rfl (.inl rfl) with
    kept := names.kept
    nested := fun k inside u invoked => ?_ }
  have before (earlier : k ∈ m.working ++ m.created) :
      u ∈ (m.addShared c).created ∨ u ∈ nestedIn templates :=
    (names.nested k earlier u invoked).imp_left (List.mem_append_left _)
  rcases List.mem_append.mp inside with kept | created
  · exact before (List.mem_append_left _ kept)
  · rcases List.mem_append.mp created with earlier | last
    · exact before (List.mem_append_right _ earlier)
    · obtain rfl := List.mem_singleton.mp last
      obtain ⟨original, given, _, inside⟩ := drawn.source
      exact .inr (mem_nestedIn.mpr ⟨original, given, Entry.withinAll_subset inside.subset invoked⟩)

theorem map_name (names : m.Names merger templates) :
    templates.map Template.name = m.working.map Template.name := by
  rw [← List.forall₂_eq_eq_eq, List.forall₂_map_left_iff, List.forall₂_map_right_iff]
  exact names.kept.imp fun _ _ rewritten => rewritten.name.symm

theorem mem_mentioned (names : m.Names merger templates) (u : Template) :
    u ∈ (m.working ++ m.created) ++ nestedIn (m.working ++ m.created) ↔
      u ∈ m.created ++ (m.working ++ nestedIn templates) := by
  have keeps : u ∈ nestedIn templates → u ∈ nestedIn (m.working ++ m.created) := by
    intro given
    obtain ⟨t, listed, invoked⟩ := mem_nestedIn.mp given
    obtain ⟨k, kept, rewritten⟩ := exists_of_mem_forall₂ names.kept.flip listed
    exact mem_nestedIn.mpr ⟨k, List.mem_append_left _ kept, rewritten.nested invoked⟩
  have nested : u ∈ nestedIn (m.working ++ m.created) → u ∈ m.created ∨ u ∈ nestedIn templates := by
    intro invoked
    obtain ⟨k, listed, invoked⟩ := mem_nestedIn.mp invoked
    exact names.nested k listed u invoked
  simp only [List.mem_append] at *
  tauto

theorem unambiguous_iff (names : m.Names merger templates) (unambiguous : Unambiguous templates) :
    Unambiguous (m.working ++ m.created) ↔
      (∀ k ∈ m.working, ∀ u ∈ m.working ++ nestedIn templates, k.name = u.name → k = u) ∧
        ∀ c ∈ m.created, ∀ u ∈ m.working ++ nestedIn templates, c.name = u.name → c = u := by
  have given : OneMeaning (nestedIn templates) := unambiguous.subset (List.subset_append_right _ _)
  have created : OneMeaning m.created :=
    fun c here d there => List.inj_on_of_nodup_map names.distinct here there
  have mentioned : Unambiguous (m.working ++ m.created) ↔
      OneMeaning (m.created ++ (m.working ++ nestedIn templates)) :=
    ⟨fun one => one.subset fun u member => (names.mem_mentioned u).mpr member,
      fun one => one.subset fun u member => (names.mem_mentioned u).mp member⟩
  rw [mentioned, oneMeaning_append_iff, oneMeaning_append_iff]
  constructor
  · rintro ⟨_, ⟨kept, _, across⟩, apart⟩
    refine ⟨fun k here u there => ?_, apart⟩
    rcases List.mem_append.mp there with there | there
    · exact kept k here u there
    · exact across k here u there
  · rintro ⟨kept, apart⟩
    refine ⟨created, ⟨fun k here u there => kept k here u (List.mem_append_left _ there), given,
      fun k here u there => kept k here u (List.mem_append_right _ there)⟩, apart⟩

end Names
end Merging

namespace Merger

theorem merge_names (merger : Merger) (templates : List Template) :
    ∃ m : Merging, m.Names merger templates ∧
      merger.merge templates = (m.merger, m.working ++ m.created) :=
  Merger.merge_induction .start (fun _ _ _ _ _ _ names found => names.factor found)
    (fun c member _ _ names => names.addShared (merger.candidates_drawn templates c member))

/-- The given templates keep their names, and created ones get names of their own. If the names were
unambiguous before, they are so after a merge exactly if whatever now stands in the place of a given
template equals each template of its name that is listed or was invoked before, and so does each
created one. -/
theorem merge_unambiguous_iff (merger : Merger) {templates : List Template}
    (unambiguous : Unambiguous templates) :
    ∃ kept created, (merger.merge templates).2 = kept ++ created ∧
      List.Forall₂ Template.Rewritten templates kept ∧ (created.map Template.name).Nodup ∧
      (∀ c ∈ created, ∃ number, merger.named < number ∧ c.Numbered templates number) ∧
      (Unambiguous (merger.merge templates).2 ↔
        (∀ k ∈ kept, ∀ u ∈ kept ++ nestedIn templates, k.name = u.name → k = u) ∧
          ∀ c ∈ created, ∀ u ∈ kept ++ nestedIn templates, c.name = u.name → c = u) := by
  obtain ⟨m, names, merged⟩ := merger.merge_names templates
  refine ⟨m.working, m.created, by rw [merged], names.kept, names.distinct, fun c member => ?_, ?_⟩
  · obtain ⟨number, above, _, numbered⟩ := names.numbered c member
    exact ⟨number, above, numbered⟩
  · rw [merged]
    exact names.unambiguous_iff unambiguous

/-- A firm and a person, which share a label and a home; a member is a person. -/
def membership : List Template :=
  let label : Entry := .statement (.name { type := .fixed ⟨0⟩, value := "$label" })
  let home : Entry := .statement (.occurrence
    { type := .fixed ⟨1⟩, value := "$home", datatype := Iri.string })
  let born : Entry := .statement (.occurrence
    { type := .fixed ⟨2⟩, value := "$born", datatype := Iri.string })
  let person : Template := ⟨"person", .topic, [label, born, home]⟩
  [⟨"firm", .topic, [label, home]⟩, person, ⟨"member", .topic, [person.invoke]⟩]

theorem merge_unambiguous_iff_membership :
    Unambiguous membership ∧
    ∃ kept created, ((Merger.make 2 none).merge membership).2 = kept ++ created ∧
      List.Forall₂ Template.Rewritten membership kept ∧ (created.map Template.name).Nodup ∧
      (∀ c ∈ created, ∃ number, 0 < number ∧ c.Numbered membership number) ∧
      (Unambiguous ((Merger.make 2 none).merge membership).2 ↔
        (∀ k ∈ kept, ∀ u ∈ kept ++ nestedIn membership, k.name = u.name → k = u) ∧
          ∀ c ∈ created, ∀ u ∈ kept ++ nestedIn membership, c.name = u.name → c = u) :=
  ⟨by decide, merge_unambiguous_iff (Merger.make 2 none) (by decide)⟩

/-- The person is rewritten in the list, but not in the member. -/
theorem merge_membership_ambiguous :
    (∀ t ∈ membership, t.validate = .ok ()) ∧ Unambiguous membership ∧
      ¬ Unambiguous ((Merger.make 2 none).merge membership).2 := by
  refine ⟨by decide, by decide, ?_⟩
  rw [merge, candidates]
  -- The keys are long texts, so the ranks are computed before anything is sorted.
  generalize listed : membership.flatMap (fun t => t.entries.map Entry.key) = keys
  have ranks : membership.map (fun t => t.entries.map fun entry => entry.rank keys) =
      [[0, 2], [0, 4, 2], [5]] := by
    rw [← listed]
    decide +kernel
  simp only [membership, List.map_cons, List.map_nil, List.cons.injEq, and_true] at ranks
  simp only [membership, List.zipIdx_cons, List.zipIdx_nil, List.flatMap_cons, List.flatMap_nil, sets,
    Ranked.sorted, List.map_cons, List.map_nil, ranks]
  cbv
  decide +kernel

/-- The names stay unambiguous where no template is listed twice or both listed and invoked, and no
name in use is one that the merge may give. -/
theorem merge_unambiguous_of_apart (merger : Merger) {templates : List Template}
    (unambiguous : Unambiguous templates) (once : (templates.map Template.name).Nodup)
    (uninvoked : ∀ t ∈ templates, ∀ u ∈ nestedIn templates, t.name ≠ u.name)
    (unused : ∀ u ∈ templates ++ nestedIn templates, ∀ number, merger.named < number →
      ¬ u.Numbered templates number) : Unambiguous (merger.merge templates).2 := by
  obtain ⟨m, names, merged⟩ := merger.merge_names templates
  have original : ∀ k ∈ m.working, ∃ t ∈ templates, k.name = t.name := by
    intro k member
    obtain ⟨t, listed, rewritten⟩ := exists_of_mem_forall₂ names.kept member
    exact ⟨t, listed, rewritten.name⟩
  rw [merged]
  refine (names.unambiguous_iff unambiguous).mpr ⟨?_, ?_⟩
  · intro k here u there same
    rcases List.mem_append.mp there with kept | nested
    · exact List.inj_on_of_nodup_map (names.map_name ▸ once) here kept same
    · obtain ⟨t, listed, name⟩ := original k here
      exact absurd (name.symm.trans same) (uninvoked t listed u nested)
  · intro c here u there same
    obtain ⟨number, above, _, numbered⟩ := names.numbered c here
    rcases List.mem_append.mp there with kept | nested
    · obtain ⟨t, listed, name⟩ := original u kept
      exact absurd (numbered.of_name (same.trans name))
        (unused t (List.mem_append_left _ listed) number above)
    · exact absurd (numbered.of_name same) (unused u (List.mem_append_right _ nested) number above)

end Merger
end CompactTopicMap
