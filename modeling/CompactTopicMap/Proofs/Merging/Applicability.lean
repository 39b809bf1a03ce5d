import CompactTopicMap.Proofs.Matching.Search
import CompactTopicMap.Proofs.Merging.Bodies

namespace CompactTopicMap

/-- The templates have the same statements in some order each. -/
structure Template.Rearranged (t t' : Template) : Prop where
  kind : t'.kind = t.kind
  statements : t'.flattened.Perm t.flattened

theorem Template.Rearranged.factored {wanted : List Entry} {t t' sub rest : Template}
    (rearranged : t.Rearranged t') (factored : t'.Factored wanted sub rest) : t.Rearranged rest where
  kind := factored.kind.trans rearranged.kind
  statements := factored.flattened_perm.trans rearranged.statements

theorem Merger.merge_rearranges (merger : Merger) (templates : List Template) :
    ∃ kept created, (merger.merge templates).2 = kept ++ created ∧
      List.Forall₂ Template.Rearranged templates kept := by
  have start : List.Forall₂ Template.Rearranged templates templates :=
    List.forall₂_same.mpr fun t _ => ⟨rfl, .refl _⟩
  obtain ⟨m, rearranged, merged⟩ := Merger.merge_induction start
    (fun _ _ _ _ _ _ before found => Merging.factor_forall₂ .factored before found)
    (fun _ _ _ _ before => before)
  exact ⟨m.working, m.created, by rw [merged], rearranged⟩

/-- A template without association statements applies to the same topics before and after a merge,
whatever is written and whichever templates are merged with it. -/
theorem Merger.merge_keeps_applicability (merger : Merger) (templates : List Template) {i : Nat}
    {t : Template} (listed : templates[i]? = some t)
    (plain : ∀ statement ∈ t.flattened, statement.isAssociation = false) :
    ∃ t', (merger.merge templates).2[i]? = some t' ∧
      ∀ (s : Session) (p : Progress) (id : TopicId),
        s.isAdaptiveForTopic p t' id = s.isAdaptiveForTopic p t id := by
  obtain ⟨kept, created, merged, rearranged⟩ := merger.merge_rearranges templates
  obtain ⟨inside, rfl⟩ := List.getElem?_eq_some_iff.mp listed
  have inside' : i < kept.length := rearranged.length_eq ▸ inside
  have pair : templates[i].Rearranged kept[i] := rearranged.get inside inside'
  refine ⟨kept[i], ?_, fun s p id => ?_⟩
  · rw [merged, List.getElem?_append_left inside']
    exact List.getElem?_eq_getElem inside'
  · exact Matcher.matchTopic?_isSome_of_perm pair.kind pair.statements plain

theorem Merger.merge_keeps_applicability_pages :
    let page : Entry := .statement (.identifier .subjectLocator "$page")
    let kind : Entry := .statement (.isa (.var "$kind"))
    let person : Template := ⟨"person", .topic, [page, .group [kind]]⟩
    let club : Template := ⟨"club", .topic, [.statement (.ako (.var "$kind")), page]⟩
    ∃ t', ((Merger.make 1 none).merge [person, club]).2[0]? = some t' ∧
      ∀ (s : Session) (p : Progress) (id : TopicId),
        s.isAdaptiveForTopic p t' id = s.isAdaptiveForTopic p person id :=
  Merger.merge_keeps_applicability _ _ rfl (by decide)

end CompactTopicMap
