import CompactTopicMap.Template.Merge
import Mathlib.Data.List.Perm.Subperm

namespace CompactTopicMap

/-- At least so many entries, and at least one, that a topic template holds together. -/
structure DrawnFrom (least : Nat) (templates : List Template) (entries : List Entry) : Prop where
  size : max least 1 ≤ entries.length
  source : ∃ original ∈ templates, original.kind = .topic ∧ entries.Subperm original.entries

theorem DrawnFrom.perm {least : Nat} {templates : List Template} {entries others : List Entry}
    (drawn : DrawnFrom least templates entries) (perm : others.Perm entries) :
    DrawnFrom least templates others := by
  obtain ⟨original, member, topic, inside⟩ := drawn.source
  exact ⟨perm.length_eq ▸ drawn.size, original, member, topic, perm.subperm.trans inside⟩

theorem DrawnFrom.ne_nil {least : Nat} {templates : List Template} {entries : List Entry}
    (drawn : DrawnFrom least templates entries) : entries ≠ [] := by
  apply List.ne_nil_of_length_pos
  have size := drawn.size
  omega

theorem Ranked.sorted_perm (keys : List (List Nat)) (entries : List Entry) :
    ((Ranked.sorted keys entries).map Ranked.entry).Perm entries := by
  have perm := (List.mergeSort_perm
    (entries.map fun entry => (⟨entry.rank keys, entry⟩ : Ranked)) (·.rank ≤ ·.rank)).map Ranked.entry
  rw [List.map_map] at perm
  exact perm.trans (.of_eq (List.map_id entries))

namespace Merger

variable {merger : Merger} {templates : List Template}

def Allows (merger : Merger) (count : Nat) : Prop :=
  max merger.least 1 ≤ count ∧ ∀ cap ∈ merger.greatest, count ≤ cap

theorem mem_sizes {count size : Nat} :
    size ∈ merger.sizes count ↔
      merger.least ≤ size ∧ size ≤ count ∧ ∀ cap ∈ merger.greatest, size ≤ cap := by
  rw [sizes, List.mem_filter, List.mem_range, decide_eq_true_eq]
  cases merger.greatest with
  | none => simp; omega
  | some cap => simp; omega

theorem mem_sets {keys : List (List Nat)} {t : Template} {position : Nat} {c : RankedCandidate} :
    c ∈ merger.sets keys t position ↔ t.kind = .topic ∧
      ∃ set, set.Sublist (Ranked.sorted keys t.entries) ∧ merger.Allows set.length ∧
        RankedCandidate.ofSet set position = c := by
  unfold sets
  split
  · rename_i topic
    simp only [topic, true_and, List.mem_flatMap, List.mem_map, mem_subsets, mem_sizes, Allows]
    constructor
    · rintro ⟨size, ⟨least, _, greatest⟩, set, ⟨positive, sub, rfl⟩, made⟩
      exact ⟨set, sub, ⟨Nat.max_le.mpr ⟨least, positive⟩, greatest⟩, made⟩
    · rintro ⟨set, sub, ⟨least, greatest⟩, made⟩
      obtain ⟨least, positive⟩ := Nat.max_le.mp least
      exact ⟨set.length, ⟨least, sub.length_le, greatest⟩, set, ⟨positive, sub, rfl⟩, made⟩
  · rename_i other
    exact ⟨nofun, fun ⟨topic, _⟩ => absurd topic other⟩

theorem sets_spec {keys : List (List Nat)} {t : Template} {position : Nat} {c : RankedCandidate}
    (member : c ∈ merger.sets keys t position) :
    t.kind = .topic ∧ c.candidate.templates = [position] ∧
      max merger.least 1 ≤ c.candidate.entries.length ∧
      c.candidate.entries.Subperm t.entries := by
  obtain ⟨topic, set, sub, allowed, rfl⟩ := mem_sets.mp member
  refine ⟨topic, rfl, ?_, ?_⟩
  · rw [RankedCandidate.ofSet, List.length_map]
    exact allowed.1
  · exact (sub.map Ranked.entry).subperm.trans (Ranked.sorted_perm keys t.entries).subperm

theorem join_induction {P : Candidate → Prop}
    (join : ∀ {c d : Candidate} {positions}, P c → P d → positions ⊆ c.templates ++ d.templates →
      P { d with templates := positions })
    {c : RankedCandidate} {rest : List RankedCandidate} (here : P c.candidate)
    (others : ∀ d ∈ rest, P d.candidate) : ∀ d ∈ c.join rest, P d.candidate := by
  cases rest with
  | nil =>
    intro d member
    exact List.mem_singleton.mp member ▸ here
  | cons first rest =>
    obtain ⟨head, later⟩ := List.forall_mem_cons.mp others
    simp only [RankedCandidate.join]
    split
    · refine List.forall_mem_cons.mpr ⟨join here head ?_, later⟩
      intro position member
      rcases List.mem_append.mp member with new | old
      · exact List.mem_append_left _ (List.mem_filter.mp new).1
      · exact List.mem_append_right _ old
    · exact List.forall_mem_cons.mpr ⟨here, others⟩

theorem candidates_induction {P : Candidate → Prop}
    (single : ∀ {position t entries}, templates[position]? = some t → t.kind = .topic →
      max merger.least 1 ≤ entries.length → entries.Subperm t.entries → P ⟨entries, [position]⟩)
    (join : ∀ {c d : Candidate} {positions}, P c → P d → positions ⊆ c.templates ++ d.templates →
      P { d with templates := positions }) :
    ∀ c ∈ merger.candidates templates, P c := by
  intro c member
  simp only [candidates, List.mem_mergeSort] at member
  obtain ⟨ranked, inside, rfl⟩ := List.mem_map.mp member
  generalize listed : List.mergeSort _ RankedCandidate.le = sets at inside
  have each : ∀ d ∈ sets, P d.candidate := by
    intro d member
    rw [← listed, List.mem_mergeSort] at member
    obtain ⟨⟨t, i⟩, position, here⟩ := List.mem_flatMap.mp member
    obtain ⟨topic, templates, size, inside⟩ := sets_spec here
    have made := single (List.mk_mem_zipIdx_iff_getElem?.mp position) topic size inside
    rwa [← templates] at made
  clear listed member
  induction sets generalizing ranked with
  | nil => cases inside
  | cons d sets ih =>
    obtain ⟨head, later⟩ := List.forall_mem_cons.mp each
    exact join_induction join head (fun other member => ih other member later) ranked inside

theorem candidates_drawn (merger : Merger) (templates : List Template) :
    ∀ c ∈ merger.candidates templates, DrawnFrom merger.least templates c.entries := by
  apply candidates_induction
  · intro position t entries listed topic size inside
    exact ⟨size, t, List.mem_of_getElem? listed, topic, inside⟩
  · intro c d positions _ drawn _
    exact drawn

theorem candidates_topics (merger : Merger) (templates : List Template) :
    ∀ c ∈ merger.candidates templates, ∀ position ∈ c.templates,
      ∃ t, templates[position]? = some t ∧ t.kind = .topic := by
  apply candidates_induction
  · intro position t entries listed topic _ _ other member
    exact List.mem_singleton.mp member ▸ ⟨t, listed, topic⟩
  · intro c d positions first second among position member
    rcases List.mem_append.mp (among member) with new | old
    · exact first position new
    · exact second position old

end Merger
end CompactTopicMap
