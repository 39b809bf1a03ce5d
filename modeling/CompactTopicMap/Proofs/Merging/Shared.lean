import CompactTopicMap.Proofs.Merging.Candidates
import CompactTopicMap.Proofs.Merging.EntryOrder
import Mathlib.Data.List.Sort
import Mathlib.Data.Multiset.Basic

namespace CompactTopicMap

section Sorting

theorem mergeSort_stable {α : Type} {le : α → α → Bool} {before : α → α → Prop} {items : List α}
    (trans : ∀ a b c, le a b = true → le b c = true → le a c = true)
    (total : ∀ a b, (le a b || le b a) = true) (listed : items.Pairwise before) :
    (items.mergeSort le).Pairwise fun a b => le a b = true ∧ (le b a = true → before a b) := by
  have sorted := List.pairwise_mergeSort (List.zipIdxLE_trans trans) (List.zipIdxLE_total total)
    items.zipIdx
  have perm := List.mergeSort_perm items.zipIdx (List.zipIdxLE le)
  have distinct : ((items.zipIdx.mergeSort (List.zipIdxLE le)).map Prod.snd).Nodup := by
    rw [(perm.map Prod.snd).nodup_iff, List.zipIdx_map_snd]
    exact List.nodup_range'
  -- Sorting is the same as sorting the numbered items, where the numbers decide between equal ones.
  rw [← List.mergeSort_zipIdx, List.pairwise_map]
  refine (sorted.and (List.pairwise_map.mp distinct)).imp_of_mem ?_
  rintro ⟨a, i⟩ ⟨b, j⟩ here there ⟨less, differ⟩
  have first := List.mk_mem_zipIdx_iff_getElem?.mp (perm.mem_iff.mp here)
  have second := List.mk_mem_zipIdx_iff_getElem?.mp (perm.mem_iff.mp there)
  obtain ⟨bound, rfl⟩ := List.getElem?_eq_some_iff.mp first
  obtain ⟨bound', rfl⟩ := List.getElem?_eq_some_iff.mp second
  simp only [List.zipIdxLE, Bool.if_false_right, Bool.and_eq_true, decide_eq_true_eq] at less
  refine ⟨less.1, fun back => ?_⟩
  have ascending : i ≤ j := by simpa [back] using less.2
  exact List.pairwise_iff_getElem.mp listed i j bound bound' (Nat.lt_of_le_of_ne ascending differ)

theorem compare_eq_lt {as bs : List Nat} : compare as bs = .lt ↔ as < bs := by
  induction as generalizing bs with
  | nil => cases bs <;> simp
  | cons a as ih =>
    cases bs with
    | nil => simp
    | cons b bs =>
      rw [List.compare_cons_cons, Ordering.then_eq_lt, ih, Nat.compare_eq_lt, Nat.compare_eq_eq,
        List.cons_lt_cons_iff]

theorem compare_total {α : Type} [Ord α] [Std.OrientedOrd α] (a b : α) :
    ((compare a b).isLE || (compare b a).isLE) = true := by
  rw [show compare a b = (compare b a).swap from Std.OrientedCmp.eq_swap]
  cases compare b a <;> rfl

end Sorting

section Ranks

variable {keys : List (List Nat)}

theorem Entry.compare_rank {a b : Entry} (member : a.key ∈ keys) (member' : b.key ∈ keys) :
    compare (a.rank keys) (b.rank keys) = compare a b := by
  cases order : compare a b with
  | lt =>
    have less := compare_eq_lt.mp ((Entry.codes.compare_key a b).trans order)
    exact Nat.compare_eq_lt.mpr (rank_lt_rank member less)
  | eq =>
    obtain rfl := Std.compare_eq_iff_eq.mp order
    exact Nat.compare_eq_eq.mpr rfl
  | gt =>
    have swapped := Std.OrientedCmp.gt_iff_lt.mp order
    have less := compare_eq_lt.mp ((Entry.codes.compare_key b a).trans swapped)
    exact Nat.compare_eq_gt.mpr (rank_lt_rank member' less)

theorem compare_ranks {as bs : List Entry} (keyed : ∀ e ∈ as, e.key ∈ keys)
    (keyed' : ∀ e ∈ bs, e.key ∈ keys) :
    compare (as.map (Entry.rank keys)) (bs.map (Entry.rank keys)) = compare as bs := by
  induction as generalizing bs with
  | nil => cases bs <;> rfl
  | cons a as ih =>
    cases bs with
    | nil => rfl
    | cons b bs =>
      obtain ⟨here, keyed⟩ := List.forall_mem_cons.mp keyed
      obtain ⟨there, keyed'⟩ := List.forall_mem_cons.mp keyed'
      rw [List.map_cons, List.map_cons, List.compare_cons_cons, List.compare_cons_cons,
        Entry.compare_rank here there, ih keyed keyed']

def EntriesSorted (entries : List Entry) : Prop :=
  entries.Pairwise fun a b => (compare a b).isLE = true

instance : Std.Antisymm fun a b : Entry => (compare a b).isLE = true :=
  ⟨fun _ _ first second => Std.compare_eq_iff_eq.mp (Std.OrientedCmp.isLE_antisymm first second)⟩

theorem Ranked.rank_eq {entries : List Entry} {r : Ranked} (member : r ∈ Ranked.sorted keys entries) :
    r.rank = r.entry.rank keys := by
  obtain ⟨entry, _, rfl⟩ := List.mem_map.mp (List.mem_mergeSort.mp member)
  rfl

theorem Ranked.map_entry_sorted {entries : List Entry} (keyed : ∀ e ∈ entries, e.key ∈ keys) :
    EntriesSorted ((Ranked.sorted keys entries).map Ranked.entry) := by
  have trans (a b c : Ranked) (first : decide (a.rank ≤ b.rank) = true)
      (second : decide (b.rank ≤ c.rank) = true) : decide (a.rank ≤ c.rank) = true := by
    simp only [decide_eq_true_eq] at *
    omega
  have total (a b : Ranked) : (decide (a.rank ≤ b.rank) || decide (b.rank ≤ a.rank)) = true := by
    simp only [Bool.or_eq_true, decide_eq_true_eq]
    omega
  have sorted : (Ranked.sorted keys entries).Pairwise fun a b => a.rank ≤ b.rank :=
    (List.pairwise_mergeSort trans total _).imp of_decide_eq_true
  have listed : ∀ r ∈ Ranked.sorted keys entries, r.entry.key ∈ keys := fun r member =>
    keyed r.entry ((Ranked.sorted_perm keys entries).mem_iff.mp (List.mem_map_of_mem member))
  rw [EntriesSorted, List.pairwise_map]
  refine sorted.imp_of_mem fun {a b} here there less => ?_
  rw [← Entry.compare_rank (listed a here) (listed b there), ← rank_eq here, ← rank_eq there]
  exact Nat.isLE_compare.mpr less

end Ranks

section Groups

namespace RankedCandidate

theorem le_eq (a b : RankedCandidate) : a.le b = (compare a.ranks b.ranks).isLE := by
  rw [Bool.eq_iff_iff, le, Bool.not_eq_true', decide_eq_false_iff_not, ← compare_eq_lt,
    Ordering.isLE_iff_ne_gt, Std.OrientedCmp.gt_iff_lt]

def Before (a b : RankedCandidate) : Prop :=
  compare a.ranks b.ranks = .lt ∨
    a.ranks = b.ranks ∧ ∀ i ∈ a.candidate.templates, ∀ j ∈ b.candidate.templates, i ≤ j

/-- The sets of the same ranks make one group, which has the positions of all of them. -/
structure Grouped (sets groups : List RankedCandidate) : Prop where
  ascending : groups.Pairwise fun a b => compare a.ranks b.ranks = .lt
  ranked : ∀ s ∈ sets, ∃ g ∈ groups, g.ranks = s.ranks
  drawn : ∀ g ∈ groups, ∃ s ∈ sets, s.ranks = g.ranks ∧
    s.candidate.entries = g.candidate.entries
  positions : ∀ g ∈ groups, ∀ i, i ∈ g.candidate.templates ↔
    ∃ s ∈ sets, s.ranks = g.ranks ∧ i ∈ s.candidate.templates
  distinct : ∀ g ∈ groups, g.candidate.templates.Pairwise (· < ·)

variable {s d : RankedCandidate} {sets groups rest : List RankedCandidate} {position : Nat}

theorem ne_of_compare_lt {ranks others : List Nat} (less : compare ranks others = .lt) :
    ranks ≠ others := by
  rintro rfl
  exact List.lt_irrefl ranks (compare_eq_lt.mp less)

theorem Grouped.cons (grouped : Grouped sets groups)
    (first : ∀ g ∈ groups, compare s.ranks g.ranks = .lt)
    (single : s.candidate.templates = [position]) : Grouped (s :: sets) (s :: groups) where
  ascending := List.pairwise_cons.mpr ⟨first, grouped.ascending⟩
  ranked := by
    intro x member
    rcases List.mem_cons.mp member with rfl | inside
    · exact ⟨x, List.mem_cons_self, rfl⟩
    · obtain ⟨g, listed, same⟩ := grouped.ranked x inside
      exact ⟨g, List.mem_cons_of_mem s listed, same⟩
  drawn := by
    intro g member
    rcases List.mem_cons.mp member with rfl | listed
    · exact ⟨g, List.mem_cons_self, rfl, rfl⟩
    · obtain ⟨x, inside, same⟩ := grouped.drawn g listed
      exact ⟨x, List.mem_cons_of_mem s inside, same⟩
  positions := by
    intro g member i
    rcases List.mem_cons.mp member with rfl | listed
    · have alone : ∀ x ∈ sets, x.ranks ≠ g.ranks := by
        intro x inside same
        obtain ⟨other, listed, ranks⟩ := grouped.ranked x inside
        exact ne_of_compare_lt (first other listed) (same.symm.trans ranks.symm)
      simp only [List.mem_cons, exists_eq_or_imp, true_and]
      refine (or_iff_left ?_).symm
      rintro ⟨x, inside, same, _⟩
      exact alone x inside same
    · simp [grouped.positions g listed i, ne_of_compare_lt (first g listed)]
  distinct := by
    refine List.forall_mem_cons.mpr ⟨?_, grouped.distinct⟩
    rw [single]
    exact List.pairwise_singleton _ _

theorem Grouped.join (grouped : Grouped sets (d :: rest)) (before : ∀ x ∈ sets, s.Before x)
    (single : s.candidate.templates = [position]) (same : s.ranks = d.ranks) :
    Grouped (s :: sets) (s.join (d :: rest)) := by
  obtain ⟨first, others⟩ := List.pairwise_cons.mp grouped.ascending
  obtain ⟨here, there⟩ := List.forall_mem_cons.mp grouped.drawn
  obtain ⟨held, elsewhere⟩ := List.forall_mem_cons.mp grouped.positions
  obtain ⟨distinct, apart⟩ := List.forall_mem_cons.mp grouped.distinct
  have later : ∀ j ∈ d.candidate.templates, position ≤ j := by
    intro j member
    obtain ⟨x, inside, ranks, listed⟩ := (held j).mp member
    rcases before x inside with less | ⟨_, below⟩
    · exact absurd (same.trans ranks.symm) (ne_of_compare_lt less)
    · exact below position (single ▸ List.mem_singleton_self position) j listed
  have mem_templates (i : Nat) :
      i ∈ [position].filter (!d.candidate.templates.contains ·) ++ d.candidate.templates ↔
        i = position ∨ i ∈ d.candidate.templates := by
    by_cases inside : i ∈ d.candidate.templates <;> simp [inside]
  rw [RankedCandidate.join, if_pos same, single]
  dsimp only
  constructor
  · exact List.pairwise_cons.mpr ⟨first, others⟩
  · intro x member
    rcases List.mem_cons.mp member with rfl | inside
    · exact ⟨_, List.mem_cons_self, same.symm⟩
    · obtain ⟨g, listed, ranks⟩ := grouped.ranked x inside
      rcases List.mem_cons.mp listed with rfl | listed
      · exact ⟨_, List.mem_cons_self, ranks⟩
      · exact ⟨g, List.mem_cons_of_mem _ listed, ranks⟩
  · refine List.forall_mem_cons.mpr ⟨?_, fun g listed => ?_⟩
    · obtain ⟨x, inside, drawn⟩ := here
      exact ⟨x, List.mem_cons_of_mem s inside, drawn⟩
    · obtain ⟨x, inside, drawn⟩ := there g listed
      exact ⟨x, List.mem_cons_of_mem s inside, drawn⟩
  · refine List.forall_mem_cons.mpr ⟨fun i => ?_, fun g listed i => ?_⟩
    · dsimp only
      rw [mem_templates, held i]
      simp [same, single]
    · have differ : s.ranks ≠ g.ranks := same ▸ ne_of_compare_lt (first g listed)
      simp [elsewhere g listed i, differ]
  · refine List.forall_mem_cons.mpr ⟨?_, apart⟩
    refine List.pairwise_append.mpr ⟨(List.pairwise_singleton _ _).filter _, distinct, ?_⟩
    intro i new j old
    obtain ⟨here, fresh⟩ := List.mem_filter.mp new
    obtain rfl := List.mem_singleton.mp here
    have differ : i ≠ j := by
      rintro rfl
      simp [old] at fresh
    exact Nat.lt_of_le_of_ne (later j old) differ

theorem grouped_foldr (ordered : sets.Pairwise Before)
    (single : ∀ s ∈ sets, ∃ position, s.candidate.templates = [position]) :
    Grouped sets (sets.foldr RankedCandidate.join []) := by
  induction sets with
  | nil => exact ⟨.nil, nofun, nofun, nofun, nofun⟩
  | cons s sets ih =>
    obtain ⟨before, ordered⟩ := List.pairwise_cons.mp ordered
    obtain ⟨⟨position, here⟩, single⟩ := List.forall_mem_cons.mp single
    have grouped := ih ordered single
    rw [List.foldr_cons]
    cases groups : sets.foldr RankedCandidate.join [] with
    | nil =>
      rw [groups] at grouped
      exact grouped.cons nofun here
    | cons d rest =>
      rw [groups] at grouped
      by_cases same : s.ranks = d.ranks
      · exact grouped.join before here same
      · rw [RankedCandidate.join, if_neg same]
        obtain ⟨x, inside, drawn, _⟩ := grouped.drawn d List.mem_cons_self
        have less : compare s.ranks d.ranks = .lt := by
          rcases before x inside with less | ⟨equal, _⟩
          · exact drawn ▸ less
          · exact absurd (equal.trans drawn) same
        refine grouped.cons (List.forall_mem_cons.mpr ⟨less, fun g listed => ?_⟩) here
        exact Std.TransCmp.lt_trans less ((List.pairwise_cons.mp grouped.ascending).1 g listed)

end RankedCandidate

end Groups

section Candidates

namespace Merger

variable {merger : Merger} {templates : List Template} {keys : List (List Nat)}

def HeldAt (templates : List Template) (entries : Multiset Entry) (position : Nat) : Prop :=
  ∃ t, templates[position]? = some t ∧ t.kind = .topic ∧ entries ≤ t.entries

theorem mem_sets_keyed {t : Template} {position : Nat} {c : RankedCandidate}
    (keyed : ∀ e ∈ t.entries, e.key ∈ keys) :
    c ∈ merger.sets keys t position ↔ t.kind = .topic ∧ c.candidate.templates = [position] ∧
      c.ranks = c.candidate.entries.map (Entry.rank keys) ∧ EntriesSorted c.candidate.entries ∧
      merger.Allows c.candidate.entries.length ∧ c.candidate.entries.Subperm t.entries := by
  have sorted := Ranked.map_entry_sorted keyed
  have perm := Ranked.sorted_perm keys t.entries
  have ranks {set : List Ranked} (sub : set.Sublist (Ranked.sorted keys t.entries)) :
      set.map Ranked.rank = (set.map Ranked.entry).map (Entry.rank keys) := by
    rw [List.map_map]
    exact List.map_congr_left fun r member => Ranked.rank_eq (sub.subset member)
  rw [mem_sets]
  refine and_congr_right fun _ => ?_
  constructor
  · rintro ⟨set, sub, allowed, rfl⟩
    have entries := sub.map Ranked.entry
    refine ⟨rfl, ranks sub, sorted.sublist entries, ?_, entries.subperm.trans perm.subperm⟩
    rwa [RankedCandidate.ofSet, List.length_map]
  · rintro ⟨single, ranked, ascending, allowed, inside⟩
    have entries := List.sublist_of_subperm_of_pairwise (inside.trans perm.symm.subperm) ascending
      sorted
    obtain ⟨set, sub, drawn⟩ := List.sublist_map_iff.mp entries
    refine ⟨set, sub, ?_, ?_⟩
    · rwa [drawn, List.length_map] at allowed
    · rw [RankedCandidate.ofSet, ranks sub, ← drawn, ← ranked, ← single]

def keysOf (templates : List Template) : List (List Nat) :=
  templates.flatMap fun template => template.entries.map Entry.key

theorem mem_keysOf {position : Nat} {t : Template} (listed : templates[position]? = some t) :
    ∀ e ∈ t.entries, e.key ∈ keysOf templates := fun _ member =>
  List.mem_flatMap.mpr ⟨t, List.mem_of_getElem? listed, List.mem_map_of_mem member⟩

def drawn (merger : Merger) (templates : List Template) : List RankedCandidate :=
  templates.zipIdx.flatMap fun (t, i) => merger.sets (keysOf templates) t i

def grouped (merger : Merger) (templates : List Template) : List RankedCandidate :=
  ((merger.drawn templates).mergeSort RankedCandidate.le).foldr RankedCandidate.join []

theorem candidates_eq : merger.candidates templates =
    ((merger.grouped templates).map RankedCandidate.candidate).mergeSort ranksBefore := rfl

theorem mem_drawn {c : RankedCandidate} : c ∈ merger.drawn templates ↔
    ∃ position, c.candidate.templates = [position] ∧
      HeldAt templates c.candidate.entries position ∧
      c.ranks = c.candidate.entries.map (Entry.rank (keysOf templates)) ∧
      EntriesSorted c.candidate.entries ∧ merger.Allows c.candidate.entries.length := by
  rw [drawn, List.mem_flatMap]
  constructor
  · rintro ⟨⟨t, i⟩, place, member⟩
    have listed := List.mk_mem_zipIdx_iff_getElem?.mp place
    obtain ⟨topic, single, ranks, sorted, allowed, inside⟩ :=
      (mem_sets_keyed (mem_keysOf listed)).mp member
    exact ⟨i, single, ⟨t, listed, topic, inside⟩, ranks, sorted, allowed⟩
  · rintro ⟨i, single, ⟨t, listed, topic, inside⟩, ranks, sorted, allowed⟩
    refine ⟨(t, i), List.mk_mem_zipIdx_iff_getElem?.mpr listed, ?_⟩
    exact (mem_sets_keyed (mem_keysOf listed)).mpr ⟨topic, single, ranks, sorted, allowed, inside⟩

theorem drawn_positions (merger : Merger) (templates : List Template) :
    (merger.drawn templates).Pairwise fun a b =>
      ∀ i ∈ a.candidate.templates, ∀ j ∈ b.candidate.templates, i ≤ j := by
  have ascending : templates.zipIdx.Pairwise fun a b => a.2 < b.2 := by
    rw [← List.pairwise_map (R := (· < ·)), List.zipIdx_map_snd]
    exact List.pairwise_lt_range'
  have position {t : Template} {i j : Nat} {c : RankedCandidate}
      (member : c ∈ merger.sets (keysOf templates) t i) (listed : j ∈ c.candidate.templates) :
      j = i := by
    rwa [(sets_spec member).2.1, List.mem_singleton] at listed
  refine List.pairwise_flatMap.mpr ⟨fun ⟨t, i⟩ _ => ?_, ascending.imp fun {a b} less => ?_⟩
  · refine List.pairwise_of_forall_mem_list fun a here b there j first k second => ?_
    exact Nat.le_of_eq ((position here first).trans (position there second).symm)
  · intro x here y there j first k second
    rw [position here first, position there second]
    exact Nat.le_of_lt less

theorem sorted_drawn (merger : Merger) (templates : List Template) :
    ((merger.drawn templates).mergeSort RankedCandidate.le).Pairwise RankedCandidate.Before := by
  have trans (a b c : RankedCandidate) : a.le b = true → b.le c = true → a.le c = true := by
    simp only [RankedCandidate.le_eq]
    exact Std.TransCmp.isLE_trans
  have total (a b : RankedCandidate) : (a.le b || b.le a) = true := by
    rw [RankedCandidate.le_eq, RankedCandidate.le_eq]
    exact compare_total a.ranks b.ranks
  refine (mergeSort_stable trans total (drawn_positions merger templates)).imp ?_
  rintro a b ⟨less, stays⟩
  rw [RankedCandidate.le_eq] at less stays
  rcases Ordering.isLE_iff_eq_lt_or_eq_eq.mp less with before | same
  · exact .inl before
  · refine .inr ⟨Std.compare_eq_iff_eq.mp same, stays ?_⟩
    rw [Std.OrientedCmp.eq_comm.mp same]
    rfl

theorem grouped_spec (merger : Merger) (templates : List Template) :
    RankedCandidate.Grouped ((merger.drawn templates).mergeSort RankedCandidate.le)
      (merger.grouped templates) := by
  refine RankedCandidate.grouped_foldr (sorted_drawn merger templates) fun s member => ?_
  obtain ⟨position, single, _⟩ := mem_drawn.mp (List.mem_mergeSort.mp member)
  exact ⟨position, single⟩

theorem grouped_drawn {g : RankedCandidate} (member : g ∈ merger.grouped templates) :
    (∃ position, HeldAt templates g.candidate.entries position) ∧
      g.ranks = g.candidate.entries.map (Entry.rank (keysOf templates)) ∧
      EntriesSorted g.candidate.entries ∧ merger.Allows g.candidate.entries.length := by
  obtain ⟨s, inside, ranks, entries⟩ := (grouped_spec merger templates).drawn g member
  obtain ⟨position, _, held, ranked, sorted, allowed⟩ := mem_drawn.mp (List.mem_mergeSort.mp inside)
  rw [ranks, entries] at ranked
  rw [entries] at held sorted allowed
  exact ⟨⟨position, held⟩, ranked, sorted, allowed⟩

theorem HeldAt.keyed {entries : List Entry} {position : Nat}
    (held : HeldAt templates entries position) : ∀ e ∈ entries, e.key ∈ keysOf templates := by
  obtain ⟨t, listed, _, inside⟩ := held
  exact fun e member => mem_keysOf listed e (Multiset.coe_le.mp inside |>.subset member)

theorem grouped_ascending (merger : Merger) (templates : List Template) :
    (merger.grouped templates).Pairwise fun a b =>
      compare a.candidate.entries b.candidate.entries = .lt := by
  refine (grouped_spec merger templates).ascending.imp_of_mem fun {a b} here there less => ?_
  obtain ⟨⟨_, held⟩, ranks, _⟩ := grouped_drawn here
  obtain ⟨⟨_, held'⟩, ranks', _⟩ := grouped_drawn there
  rwa [ranks, ranks', compare_ranks held.keyed held'.keyed] at less

theorem mem_grouped_templates {g : RankedCandidate} (member : g ∈ merger.grouped templates)
    (position : Nat) :
    position ∈ g.candidate.templates ↔ HeldAt templates g.candidate.entries position := by
  obtain ⟨⟨_, held⟩, ranks, sorted, allowed⟩ := grouped_drawn member
  rw [(grouped_spec merger templates).positions g member]
  simp only [List.mem_mergeSort]
  constructor
  · rintro ⟨s, inside, same, listed⟩
    obtain ⟨i, single, here, ranks', _⟩ := mem_drawn.mp inside
    obtain rfl := List.mem_singleton.mp (single ▸ listed)
    have equal : compare s.candidate.entries g.candidate.entries = .eq := by
      rw [← compare_ranks here.keyed held.keyed, ← ranks, ← ranks', same]
      exact Std.ReflCmp.compare_self
    rwa [← Std.compare_eq_iff_eq.mp equal]
  · intro here
    exact ⟨⟨g.ranks, g.candidate.entries, [position]⟩,
      mem_drawn.mpr ⟨position, rfl, here, ranks, sorted, allowed⟩, rfl, List.mem_singleton_self _⟩

end Merger

/-- The first has more entries; or as many, in more templates; or in as many, and its entries come
first. -/
def Candidate.order (a b : Candidate) : Ordering :=
  ((compare b.entries.length a.entries.length).then
    (compare b.templates.length a.templates.length)).then (compare a.entries b.entries)

/-- The list of candidates is that of the sets of entries, repeated entries included, that the
templates hold and the merger allows. -/
structure ListsShared (merger : Merger) (templates : List Template) (found : List Candidate) :
    Prop where
  sorted : ∀ c ∈ found, EntriesSorted c.entries
  once : (found.map fun c => (c.entries : Multiset Entry)).Nodup
  shared : ∀ entries : Multiset Entry, entries ∈ (found.map fun c => (c.entries : Multiset Entry)) ↔
    merger.Allows entries.card ∧ ∃ t ∈ templates, t.kind = .topic ∧ entries ≤ t.entries
  templates : ∀ c ∈ found, c.templates.Pairwise (· < ·) ∧
    ∀ position, position ∈ c.templates ↔ Merger.HeldAt templates c.entries position
  ordered : found.Pairwise fun a b => a.order b = .lt

namespace Merger

variable {merger : Merger} {templates : List Template}

theorem mem_candidates {c : Candidate} :
    c ∈ merger.candidates templates ↔ ∃ g ∈ merger.grouped templates, g.candidate = c := by
  rw [candidates_eq, List.mem_mergeSort, List.mem_map]

theorem exists_sorted (entries : Multiset Entry) :
    ∃ sorted : List Entry, EntriesSorted sorted ∧ (sorted : Multiset Entry) = entries := by
  refine Quotient.inductionOn entries fun listed => ?_
  refine ⟨listed.mergeSort fun a b => (compare a b).isLE, ?_, ?_⟩
  · exact List.pairwise_mergeSort (fun _ _ _ => Std.TransCmp.isLE_trans) compare_total listed
  · exact Multiset.coe_eq_coe.mpr (List.mergeSort_perm _ _)

theorem exists_candidate {entries : Multiset Entry} {position : Nat}
    (held : HeldAt templates entries position) (allowed : merger.Allows entries.card) :
    ∃ c ∈ merger.candidates templates, (c.entries : Multiset Entry) = entries := by
  obtain ⟨listed, sorted, rfl⟩ := exists_sorted entries
  have drawn : ⟨listed.map (Entry.rank (keysOf templates)), listed, [position]⟩ ∈
      merger.drawn templates :=
    mem_drawn.mpr ⟨position, rfl, held, rfl, sorted, allowed⟩
  obtain ⟨g, grouped, same⟩ :=
    (grouped_spec merger templates).ranked _ (List.mem_mergeSort.mpr drawn)
  obtain ⟨⟨_, elsewhere⟩, ranks, _⟩ := grouped_drawn grouped
  have equal : compare g.candidate.entries listed = .eq := by
    rw [← compare_ranks elsewhere.keyed held.keyed, ← ranks, same]
    exact Std.ReflCmp.compare_self
  exact ⟨g.candidate, mem_candidates.mpr ⟨g, grouped, rfl⟩, by rw [Std.compare_eq_iff_eq.mp equal]⟩

theorem candidates_once (merger : Merger) (templates : List Template) :
    ((merger.candidates templates).map fun c => (c.entries : Multiset Entry)).Nodup := by
  rw [candidates_eq, ((List.mergeSort_perm _ _).map _).nodup_iff, List.map_map, List.Nodup,
    List.pairwise_map]
  refine (grouped_ascending merger templates).imp_of_mem fun {a b} here there less same => ?_
  have sorted := (grouped_drawn here).2.2.1
  have sorted' := (grouped_drawn there).2.2.1
  rw [(Multiset.coe_eq_coe.mp same).eq_of_pairwise' sorted sorted'] at less
  exact absurd (less.symm.trans Std.ReflCmp.compare_self) (by decide)

theorem candidates_ordered (merger : Merger) (templates : List Template) :
    (merger.candidates templates).Pairwise fun a b => a.order b = .lt := by
  have before_iff (a b : Candidate) : ranksBefore a b = true ↔
      b.entries.length < a.entries.length ∨
        a.entries.length = b.entries.length ∧ b.templates.length ≤ a.templates.length := by
    simp [ranksBefore]
  have trans (a b c : Candidate) :
      ranksBefore a b = true → ranksBefore b c = true → ranksBefore a c = true := by
    simp only [before_iff]
    omega
  have total (a b : Candidate) : (ranksBefore a b || ranksBefore b a) = true := by
    simp only [Bool.or_eq_true, before_iff]
    omega
  have ascending : ((merger.grouped templates).map RankedCandidate.candidate).Pairwise
      fun a b => compare a.entries b.entries = .lt :=
    List.pairwise_map.mpr (grouped_ascending merger templates)
  rw [candidates_eq]
  refine (mergeSort_stable trans total ascending).imp ?_
  rintro a b ⟨before, tie⟩
  rw [before_iff] at before tie
  simp only [Candidate.order, Ordering.then_eq_lt, Ordering.then_eq_eq, Nat.compare_eq_lt,
    Nat.compare_eq_eq]
  rcases before with larger | ⟨same, shared⟩
  · exact .inl (.inl larger)
  · rcases Nat.lt_or_eq_of_le shared with more | equal
    · exact .inl (.inr ⟨same.symm, more⟩)
    · exact .inr ⟨⟨same.symm, equal⟩, tie (.inr ⟨same.symm, Nat.le_of_eq equal.symm⟩)⟩

/-- The candidates are exactly the sets of entries that topic templates hold, each one once with all
templates that hold it, from the largest and most shared one on. -/
theorem candidates_exact (merger : Merger) (templates : List Template) :
    ListsShared merger templates (merger.candidates templates) where
  sorted := by
    intro c member
    obtain ⟨g, grouped, rfl⟩ := mem_candidates.mp member
    exact (grouped_drawn grouped).2.2.1
  once := candidates_once merger templates
  shared := by
    intro entries
    constructor
    · intro listed
      obtain ⟨c, member, rfl⟩ := List.mem_map.mp listed
      obtain ⟨g, grouped, rfl⟩ := mem_candidates.mp member
      obtain ⟨⟨i, t, listed, topic, inside⟩, _, _, allowed⟩ := grouped_drawn grouped
      exact ⟨allowed, t, List.mem_of_getElem? listed, topic, inside⟩
    · rintro ⟨allowed, t, member, topic, inside⟩
      obtain ⟨i, listed⟩ := List.getElem?_of_mem member
      obtain ⟨c, found, rfl⟩ := exists_candidate ⟨t, listed, topic, inside⟩ allowed
      exact List.mem_map_of_mem found
  templates := by
    intro c member
    obtain ⟨g, grouped, rfl⟩ := mem_candidates.mp member
    exact ⟨(grouped_spec merger templates).distinct g grouped, mem_grouped_templates grouped⟩
  ordered := candidates_ordered merger templates

end Merger

end Candidates

end CompactTopicMap
