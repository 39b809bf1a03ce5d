import CompactTopicMap.Proofs.Merging.Candidates
import CompactTopicMap.Proofs.Merging.Factoring
import CompactTopicMap.Proofs.Mining.Explicit
import CompactTopicMap.Proofs.Mining.Names

namespace CompactTopicMap

variable {source : Source} {templates : List Template} {m m' : Merging} {wanted : List Entry}

structure Candidate.Proper (templates : List Template) (c : Candidate) : Prop where
  nonempty : c.entries ≠ []
  topics : ∀ position ∈ c.templates, (templates[position]?).map Template.kind = some .topic

theorem Merger.candidates_proper (merger : Merger) (templates : List Template) :
    ∀ c ∈ merger.candidates templates, c.Proper templates := by
  intro c member
  refine ⟨(merger.candidates_drawn templates c member).ne_nil, ?_⟩
  intro position inside
  obtain ⟨t, listed, topic⟩ := merger.candidates_topics templates c member position inside
  rw [listed, Option.map_some, topic]

theorem Template.Explicit.of_kind {t : Template} (topic : t.kind = .topic)
    (identifier : isIdentifier t.name = true) (nonempty : t.entries ≠ [])
    (each : ∀ entry ∈ t.entries, entry.Explicit source) : t.Explicit source := by
  rcases t with ⟨name, kind, entries⟩
  obtain rfl : kind = .topic := topic
  exact .topic identifier nonempty each

theorem Template.Factored.explicit {t sub rest : Template} (factored : t.Factored wanted sub rest)
    (old : t.Explicit source) (topic : t.kind = .topic) (some_wanted : wanted ≠ []) :
    sub.Explicit source ∧ rest.Explicit source ∧ ∀ entry ∈ wanted, entry.Explicit source := by
  obtain ⟨outside, split, remaining⟩ := factored.outside
  cases old with
  | association => cases topic
  | @topic name entries identifier nonempty each =>
    have parts : ∀ entry ∈ sub.entries ++ outside, entry.Explicit source :=
      fun entry member => each entry (split.mem_iff.mp member)
    obtain ⟨insideEach, outsideEach⟩ := List.forall_mem_append.mp parts
    have some_inside : sub.entries ≠ [] :=
      fun none => some_wanted (List.nil_perm.mp (none ▸ factored.inside))
    have subIdentifier : isIdentifier sub.name = true := by
      obtain ⟨number, numbered⟩ := factored.numbered
      have stem : Hyphenated (name ++ "-invoc-") :=
        .of_append (isIdentifierChars_of_isIdentifier identifier) (by rfl) (by decide)
      rw [numbered]
      exact (stem.append_repr number).isIdentifier
    refine ⟨.of_kind factored.topic subIdentifier some_inside insideEach, ?_, ?_⟩
    · apply Template.Explicit.of_kind (factored.kind.trans topic)
      · rwa [factored.name]
      · intro none
        rw [none] at remaining
        cases List.nil_perm.mp remaining
      · intro entry member
        rcases List.mem_cons.mp (remaining.mem_iff.mp member) with rfl | behind
        · rw [invoke, factored.topic]
          exact .invocation subIdentifier some_inside insideEach
        · exact outsideEach entry behind
    · exact fun entry member => insideEach entry (factored.inside.mem_iff.mpr member)

/-- What a merge keeps: the kinds of the given templates, and that all templates are explicit. -/
structure Merging.Explicit (source : Source) (templates : List Template) (m : Merging) : Prop where
  kinds : ∀ i : Nat, (m.working[i]?).map Template.kind = (templates[i]?).map Template.kind
  working : ∀ t ∈ m.working, t.Explicit source
  created : ∀ t ∈ m.created, t.Explicit source

namespace Merging

theorem Explicit.factor (explicit : m.Explicit source templates) {c : Candidate}
    (proper : c.Proper templates) {position : Nat} (inside : position ∈ c.templates)
    (found : m.factor c.entries position = some m') :
    m'.Explicit source templates ∧ ∀ entry ∈ c.entries, entry.Explicit source := by
  obtain ⟨t, sub, rest, listed, factored, working, created⟩ := factor_eq_some found
  have same := explicit.kinds position
  rw [proper.topics position inside, listed, Option.map_some] at same
  have topic : t.kind = .topic := Option.some.inj same
  -- The wanted entries were found in an explicit template, and so are explicit themselves.
  obtain ⟨subExplicit, restExplicit, wantedEach⟩ :=
    factored.explicit (explicit.working t (List.mem_of_getElem? listed)) topic proper.nonempty
  refine ⟨⟨?_, ?_, ?_⟩, wantedEach⟩
  · intro i
    rw [working, ← explicit.kinds i]
    by_cases here : position = i
    · subst here
      have bound := (List.getElem?_eq_some_iff.mp listed).1
      rw [List.getElem?_set_self bound, listed, Option.map_some, Option.map_some, factored.kind]
    · rw [List.getElem?_set_ne here]
  · intro other member
    rw [working] at member
    rcases List.mem_or_eq_of_mem_set member with earlier | rfl
    · exact explicit.working other earlier
    · exact restExplicit
  · intro other member
    rw [created] at member
    rcases List.mem_append.mp member with earlier | last
    · exact explicit.created other earlier
    · exact List.mem_singleton.mp last ▸ subExplicit

theorem Explicit.addShared (explicit : m.Explicit source templates) {c : Candidate}
    (nonempty : c.entries ≠ []) (each : ∀ entry ∈ c.entries, entry.Explicit source) :
    (m.addShared c).Explicit source templates where
  kinds := explicit.kinds
  working := explicit.working
  created := by
    intro t member
    rcases List.mem_append.mp member with earlier | last
    · exact explicit.created t earlier
    · have stem : Hyphenated "merged-" := ⟨by decide, by decide⟩
      rw [List.mem_singleton.mp last]
      exact .topic (stem.append_repr _).isIdentifier nonempty each

end Merging

theorem Merger.merge_explicit (merger : Merger) (explicit : ∀ t ∈ templates, t.Explicit source) :
    ∀ t ∈ (merger.merge templates).2, t.Explicit source := by
  have proper := merger.candidates_proper templates
  have start : Merging.Explicit source templates { merger, working := templates } :=
    ⟨fun _ => rfl, explicit, by simp⟩
  obtain ⟨m, last, merged⟩ := Merger.merge_induction start
    (fun c member _ _ _ inside before found => (before.factor (proper c member) inside found).1)
    (fun c member _ factors before => by
      obtain ⟨_, _, _, inside, earlier, found⟩ := factors
      have each := (earlier.factor (proper c member) inside found).2
      exact before.addShared (proper c member).nonempty each)
  rw [merged]
  intro t member
  rcases List.mem_append.mp member with working | created
  · exact last.working t working
  · exact last.created t created

end CompactTopicMap
