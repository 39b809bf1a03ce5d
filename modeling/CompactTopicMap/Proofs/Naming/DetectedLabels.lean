import CompactTopicMap.Proofs.Naming.Identifiers
import CompactTopicMap.Proofs.Naming.Labels

namespace CompactTopicMap

theorem isIdentifierChars_labelByPath (space : String) :
    isIdentifierChars (labelByPath space).toList = true := by
  rw [labelByPath, String.toList_ofList]
  exact isIdentifierChars_sanitize (by decide) _

namespace PrefixTable

variable {table after : PrefixTable} {found : List Binding} {labelling : Labelling} {space : String}

/-- Each found label is a numbered form of the one that was proposed, and all forms up to it are in
use. -/
def Proposed (labelling : Labelling) (after : PrefixTable) (found : List Binding) : Prop :=
  ∀ b ∈ found, ∃ number, b.label = numbered (labelling b.space) number ∧
    ∀ n ≤ number, numbered (labelling b.space) n ∈ after.labels

theorem Proposed.mono {later : PrefixTable} (proposed : Proposed labelling after found)
    (kept : after.bindings ⊆ later.bindings) : Proposed labelling later found := by
  intro b member
  obtain ⟨number, label, used⟩ := proposed b member
  exact ⟨number, label, fun n below => List.map_subset _ kept (used n below)⟩

theorem Proposed.next (proposed : Proposed labelling after found) (space : String) :
    let state := detectNext labelling (after, found) space
    Proposed labelling state.1 state.2 := by
  have binds := after.bindFresh_binds (labelling space) space
  rw [detectNext]
  cases first : after.labelOf? space with
  | some label => exact proposed
  | none =>
    have unbound := labelOf?_eq_none.mp first
    dsimp only
    generalize after.bindFresh (labelling space) space = result at binds ⊢
    obtain ⟨next, label⟩ := result
    have kept := binds.subset
    cases binds with
    | again first => exact absurd rfl (unbound _ (find?_eq_some.mp first.bound))
    | @fresh _ number _ _ _ least added =>
      intro b member
      rcases List.mem_append.mp member with earlier | last
      · exact proposed.mono kept b earlier
      · obtain rfl := List.mem_singleton.mp last
        refine ⟨number, rfl, fun n below => ?_⟩
        rcases Nat.lt_or_eq_of_le below with smaller | rfl
        · exact List.map_subset _ kept (least n smaller)
        · exact List.mem_map_of_mem (added.mem_iff.mpr List.mem_cons_self)

theorem detect_proposed (table : PrefixTable) (labelling : Labelling) (source : Source) :
    Proposed labelling (table.detect labelling source).1 (table.detect labelling source).2 := by
  have run : ∀ (spaces : List String) (state : PrefixTable × List Binding),
      Proposed labelling state.1 state.2 →
      Proposed labelling (spaces.foldl (detectNext labelling) state).1
        (spaces.foldl (detectNext labelling) state).2 := by
    intro spaces
    induction spaces with
    | nil => exact fun _ proposed => proposed
    | cons space spaces ih => exact fun state proposed => ih _ (proposed.next space)
  exact run source.detectNamespaces (table, []) nofun

theorem Detects.mem_labels {spaces : List String} {label : String}
    (detects : Detects table spaces after found) :
    label ∈ after.labels ↔ label ∈ table.labels ∨ ∃ b ∈ found, b.label = label := by
  have added := (detects.added.map Binding.label).mem_iff (a := label)
  rw [List.map_append, List.mem_append] at added
  exact added.trans (or_congr_right List.mem_map)

theorem exists_label_of_compress {iri text : String}
    (short : table.compress iri = (text, .qualifiedName)) :
    ∃ label ∈ table.labels, ∃ part, text = label ++ ":" ++ part := by
  have compresses := table.compress_compresses iri
  rw [short] at compresses
  cases compresses with
  | @qualifiedName b part splits =>
    exact ⟨b.label, List.mem_map_of_mem splits.longest.bound, part, rfl⟩

section Keywords

variable {source : Source}

theorem isIdentifier_or_keyword (identifiers : ∀ label ∈ table.labels, isIdentifier label = true)
    {label : String} (member : label ∈ (table.detect labelByPath source).1.labels) :
    isIdentifier label = true ∨ label ∈ keywords := by
  rcases (table.detect_detects labelByPath source).mem_labels.mp member with old | ⟨b, new, rfl⟩
  · exact .inl (identifiers label old)
  · obtain ⟨number, same, _⟩ := table.detect_proposed labelByPath source b new
    by_cases keyword : b.label ∈ keywords
    · exact .inr keyword
    · rw [same] at keyword ⊢
      have chars := isIdentifierChars_numbered (isIdentifierChars_labelByPath b.space) number
      exact .inl (isIdentifier_iff.mpr ⟨chars, keyword⟩)

theorem keyword_mem_labels_iff (identifiers : ∀ label ∈ table.labels, isIdentifier label = true)
    {keyword : String} (reserved : keyword ∈ keywords) :
    keyword ∈ (table.detect labelByPath source).1.labels ↔ ∃ space ∈ source.detectNamespaces,
      table.Unbound space ∧ labelByPath space = keyword := by
  have detects := table.detect_detects labelByPath source
  have proposed := table.detect_proposed labelByPath source
  constructor
  · intro member
    rcases detects.mem_labels.mp member with old | ⟨b, new, rfl⟩
    · exact absurd reserved (isIdentifier_iff.mp (identifiers keyword old)).2
    · obtain ⟨detected, unbound⟩ := detects.mem_found.mp ⟨b, new, rfl⟩
      obtain ⟨number, same, _⟩ := proposed b new
      refine ⟨b.space, detected, unbound, ?_⟩
      cases number with
      | zero => exact same.symm
      | succ number => exact absurd (same ▸ reserved) (numbered_succ_not_mem_keywords _ number)
  · rintro ⟨space, detected, unbound, rfl⟩
    obtain ⟨b, new, rfl⟩ := detects.mem_found.mpr ⟨detected, unbound⟩
    obtain ⟨number, _, used⟩ := proposed b new
    exact used 0 (Nat.zero_le number)

end Keywords

/-- If the labels were identifiers, then those after detection are identifiers or keywords. A keyword is
among them exactly if it is proposed by the path of a detected namespace that was not bound, so that all
are identifiers exactly if no such path proposes a keyword. The labels of references are among them. -/
theorem detected_labels (table : PrefixTable) (source : Source)
    (identifiers : ∀ label ∈ table.labels, isIdentifier label = true) :
    let after := (table.detect labelByPath source).1
    (∀ label ∈ after.labels, isIdentifier label = true ∨ label ∈ keywords) ∧
      (∀ keyword ∈ keywords, keyword ∈ after.labels ↔ ∃ space ∈ source.detectNamespaces,
        table.Unbound space ∧ labelByPath space = keyword) ∧
      ((∀ label ∈ after.labels, isIdentifier label = true) ↔ ∀ space ∈ source.detectNamespaces,
        table.Unbound space → labelByPath space ∉ keywords) ∧
      ∀ iri text, after.compress iri = (text, .qualifiedName) →
        ∃ label ∈ after.labels, ∃ part, text = label ++ ":" ++ part := by
  intro after
  refine ⟨fun label => isIdentifier_or_keyword identifiers,
    fun keyword => keyword_mem_labels_iff identifiers, ?_, fun iri text => exists_label_of_compress⟩
  constructor
  · intro all space detected unbound reserved
    have member := (keyword_mem_labels_iff identifiers reserved).mpr
      ⟨space, detected, unbound, rfl⟩
    exact (isIdentifier_iff.mp (all _ member)).2 reserved
  · intro free label member
    refine (isIdentifier_or_keyword identifiers member).resolve_right fun reserved => ?_
    obtain ⟨space, detected, unbound, rfl⟩ :=
      (keyword_mem_labels_iff identifiers reserved).mp member
    exact free space detected unbound reserved

/-- The addresses of a pier lie under the path of the quay, and of the end. -/
def pier : Source :=
  TopicMap.source {
    topics := #[
      { subjectIdentifiers := ["http://t.example/quay/crane"] },
      { subjectIdentifiers := ["http://t.example/quay/shed"] },
      { subjectIdentifiers := ["http://t.example/end/bollard"] },
      { subjectIdentifiers := ["http://t.example/end/lantern"] }] }

theorem pier_detectNamespaces :
    pier.detectNamespaces = ["http://t.example/end/", "http://t.example/quay/"] := by
  have listed : pier.namespaces = ["http://t.example/quay/", "http://t.example/quay/",
      "http://t.example/end/", "http://t.example/end/"] := by decide +kernel
  refine pier.detectNamespaces_choice.unique ?_
  rw [listed]
  refine ⟨by decide, by decide, by decide, fun b repeated => ?_⟩
  have member := List.count_pos_iff.mp (Nat.zero_lt_of_lt repeated)
  revert repeated
  revert b member
  decide

/-- The keyword that ends a block becomes a label. -/
theorem end_labelled :
    (∀ label ∈ standard.labels, isIdentifier label = true) ∧
      ¬ ∀ label ∈ (standard.detect labelByPath pier).1.labels, isIdentifier label = true := by
  have identifiers : ∀ label ∈ standard.labels, isIdentifier label = true := by decide
  refine ⟨identifiers, fun all => ?_⟩
  have member : "end" ∈ (standard.detect labelByPath pier).1.labels := by
    rw [detect_eq, pier_detectNamespaces]
    decide +kernel
  exact absurd (all "end" member) (by decide)

theorem pier_labelled :
    (∀ label ∈ standard.labels, isIdentifier label = true) ∧
      ∀ keyword ∈ keywords,
        keyword ∈ (standard.detect labelByPath pier).1.labels ↔ keyword = "end" := by
  have identifiers : ∀ label ∈ standard.labels, isIdentifier label = true := by decide
  refine ⟨identifiers, fun keyword reserved => ?_⟩
  rw [(detected_labels standard pier identifiers).2.1 keyword reserved, pier_detectNamespaces]
  revert keyword
  decide +kernel

end PrefixTable
end CompactTopicMap
