import CompactTopicMap.Template.Order

/-! Sets of entries that several topic templates share are factored out into new templates. -/

namespace CompactTopicMap

/-- The sublists of the given length, in the order of their positions. -/
def combinations {α : Type} : Nat → List α → List (List α)
  | 0, _ => [[]]
  | _ + 1, [] => []
  | n + 1, item :: items =>
    (combinations n items).map (item :: ·) ++ combinations (n + 1) items

def subsets {α : Type} (size : Nat) (items : List α) : List (List α) :=
  if size = 0 then [] else combinations size items

theorem mem_combinations {α : Type} {size : Nat} {items chosen : List α} :
    chosen ∈ combinations size items ↔ chosen.Sublist items ∧ chosen.length = size := by
  induction items generalizing size chosen with
  | nil =>
    cases size with
    | zero => simp [combinations]
    | succ n =>
      simp only [combinations, List.not_mem_nil, List.sublist_nil, false_iff]
      rintro ⟨rfl, length⟩
      simp at length
  | cons item items ih =>
    cases size with
    | zero =>
      simp only [combinations, List.mem_singleton, List.length_eq_zero_iff]
      exact ⟨fun empty => ⟨empty ▸ List.nil_sublist _, empty⟩, And.right⟩
    | succ n =>
      simp only [combinations, List.mem_append, List.mem_map, ih, List.sublist_cons_iff]
      constructor
      · rintro (⟨tail, ⟨sub, length⟩, rfl⟩ | ⟨sub, length⟩)
        · exact ⟨.inr ⟨tail, rfl, sub⟩, by simp [length]⟩
        · exact ⟨.inl sub, length⟩
      · rintro ⟨sub | ⟨tail, rfl, sub⟩, length⟩
        · exact .inr ⟨sub, length⟩
        · exact .inl ⟨tail, ⟨sub, by simpa using length⟩, rfl⟩

theorem mem_subsets {α : Type} {size : Nat} {items chosen : List α} :
    chosen ∈ subsets size items ↔ 0 < size ∧ chosen.Sublist items ∧ chosen.length = size := by
  unfold subsets
  split
  · simp_all
  · rename_i some_size
    simp [mem_combinations, Nat.pos_of_ne_zero some_size]

structure Candidate where
  /-- The shared entries in order. -/
  entries : List Entry
  /-- The positions of the templates that hold them, ascending. -/
  templates : List Nat
  deriving DecidableEq, Repr

/-- How many of the given keys are less than that of an entry. Among entries with these keys it says
which comes first, as the keys do. -/
def Entry.rank (keys : List (List Nat)) (entry : Entry) : Nat :=
  let key := entry.key
  keys.countP (· < key)

theorem Entry.rank_lt_rank {keys : List (List Nat)} {a b : Entry} (member : a.key ∈ keys)
    (before : a.key < b.key) : a.rank keys < b.rank keys := by
  have others : (keys.erase a.key).countP (· < a.key) ≤ (keys.erase a.key).countP (· < b.key) := by
    apply List.countP_mono_left
    intro key _ less
    simp only [decide_eq_true_eq] at less ⊢
    exact List.lt_trans less before
  have perm := List.perm_cons_erase member
  simp only [Entry.rank, perm.countP_eq, List.countP_cons, before, List.lt_irrefl]
  simp
  omega

structure Ranked where
  rank : Nat
  entry : Entry
  deriving DecidableEq, Repr

def Ranked.sorted (keys : List (List Nat)) (entries : List Entry) : List Ranked :=
  let ranked := entries.map fun entry => (⟨entry.rank keys, entry⟩ : Ranked)
  ranked.mergeSort fun a b => a.rank ≤ b.rank

structure RankedCandidate where
  ranks : List Nat
  candidate : Candidate
  deriving DecidableEq, Repr

namespace RankedCandidate

def le (a b : RankedCandidate) : Bool := !decide (b.ranks < a.ranks)

def ofSet (set : List Ranked) (position : Nat) : RankedCandidate :=
  ⟨set.map Ranked.rank, set.map Ranked.entry, [position]⟩

/-- Puts a candidate before others, of which the first may hold the same entries. -/
def join (c : RankedCandidate) : List RankedCandidate → List RankedCandidate
  | [] => [c]
  | d :: rest =>
    if c.ranks = d.ranks then
      let templates := c.candidate.templates.filter (!d.candidate.templates.contains ·)
      { d with candidate.templates := templates ++ d.candidate.templates } :: rest
    else c :: d :: rest

end RankedCandidate

/-- How templates are merged: how many entries a shared set has at least and at most, and how many
names were given out. -/
structure Merger where
  least : Nat
  greatest : Option Nat := none
  named : Nat := 0
  deriving DecidableEq, Repr

namespace Merger

def make (least : Nat) (greatest : Option Nat) : Merger := { least := max least 1, greatest }

def sizes (merger : Merger) (count : Nat) : List Nat :=
  let greatest := merger.greatest.elim count (min · count)
  (List.range (greatest + 1)).filter (merger.least ≤ ·)

def sets (merger : Merger) (keys : List (List Nat)) (template : Template) (position : Nat) :
    List RankedCandidate :=
  if template.kind = .topic then
    let ranked := Ranked.sorted keys template.entries
    (merger.sizes ranked.length).flatMap fun size =>
      (subsets size ranked).map fun set => RankedCandidate.ofSet set position
  else []

def ranksBefore (a b : Candidate) : Bool :=
  b.entries.length < a.entries.length ||
    (a.entries.length = b.entries.length && b.templates.length ≤ a.templates.length)

/-- All sets of entries of the topic templates, from the largest and most shared on. -/
def candidates (merger : Merger) (templates : List Template) : List Candidate :=
  let keys := templates.flatMap fun template => template.entries.map Entry.key
  let sets := templates.zipIdx.flatMap fun (template, i) => merger.sets keys template i
  let joined := (sets.mergeSort RankedCandidate.le).foldr RankedCandidate.join []
  (joined.map RankedCandidate.candidate).mergeSort ranksBefore

end Merger

def findAnother? (entries : List Entry) (found : List Nat) (wanted : Entry) : Option (List Nat) :=
  ((List.range entries.length).find? fun i =>
    !found.contains i && entries[i]? = some wanted).map (· :: found)

/-- The ascending positions of distinct entries equal to the wanted ones, if there are that many. -/
def positions? (entries : List Entry) (wanted : List Entry) : Option (List Nat) :=
  (wanted.foldlM (findAnother? entries) []).map fun found => found.mergeSort

def splitAtPositions (entries : List Entry) (positions : List Nat) : List Entry × List Entry :=
  let (inside, outside) := entries.zipIdx.partition fun (_, i) => positions.contains i
  (inside.map Prod.fst, outside.map Prod.fst)

/-- The state of a merge: the given templates as they are now, and those that were created. -/
structure Merging where
  merger : Merger
  working : List Template
  created : List Template := []

namespace Merging

/-- Replaces the wanted entries of one template by an invocation of a new template, if it holds all
of them. -/
def factor (m : Merging) (wanted : List Entry) (position : Nat) : Option Merging := do
  let template ← m.working[position]?
  let positions ← positions? template.entries wanted
  let first ← positions.head?
  let (inside, outside) := splitAtPositions template.entries positions
  let named := m.merger.named + 1
  let sub : Template := ⟨template.name ++ "-invoc-" ++ Nat.repr named, .topic, inside⟩
  let entries := outside.take first ++ sub.invoke :: outside.drop first
  some {
    merger := { m.merger with named }
    working := m.working.set position { template with entries }
    created := m.created ++ [sub] }

def apply (m : Merging) (c : Candidate) : Merging :=
  if c.templates.length ≤ 1 then m
  else
    let (m, applied) := c.templates.foldl
      (fun (m, applied) position =>
        match m.factor c.entries position with
        | some m => (m, true)
        | none => (m, applied))
      (m, false)
    if applied then
      let named := m.merger.named + 1
      { m with
        merger := { m.merger with named }
        created := m.created ++ [⟨"merged-" ++ Nat.repr named, .topic, c.entries⟩] }
    else m

end Merging

/-- Merges templates. The given ones come first and in their order, then the created ones. -/
def Merger.merge (merger : Merger) (templates : List Template) : Merger × List Template :=
  let m := (merger.candidates templates).foldl Merging.apply { merger, working := templates }
  (m.merger, m.working ++ m.created)

end CompactTopicMap
