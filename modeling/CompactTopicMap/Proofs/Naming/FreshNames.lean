import CompactTopicMap.Fresh

namespace CompactTopicMap

/-- The search for a free name from a number on: it ends with the first name that is not taken. -/
inductive SearchEnds (taken : List String) (stem : String) : Nat → String → Prop
  | free {n : Nat} (free : numbered stem n ∉ taken) : SearchEnds taken stem n (numbered stem n)
  | next {n : Nat} {name : String} (used : numbered stem n ∈ taken)
    (rest : SearchEnds taken stem (n + 1) name) : SearchEnds taken stem n name

namespace SearchEnds

variable {taken taken' : List String} {stem name name' : String} {n : Nat}

theorem unique (first : SearchEnds taken stem n name) (second : SearchEnds taken stem n name') :
    name = name' := by
  induction first with
  | free free =>
    cases second with
    | free => rfl
    | next used => exact absurd used free
  | next used _ ih =>
    cases second with
    | free free => exact absurd used free
    | next _ rest => exact ih rest

theorem congr (same : ∀ other, other ∈ taken ↔ other ∈ taken')
    (ends : SearchEnds taken stem n name) : SearchEnds taken' stem n name := by
  induction ends with
  | free free => exact .free (mt (same _).mpr free)
  | next used _ ih => exact .next ((same _).mp used) ih

end SearchEnds

theorem freshName_ends (taken : List String) (stem : String) :
    SearchEnds taken stem 0 (freshName taken stem) := by
  -- From the end backwards: the numbers below the chosen one are taken.
  have from_number : ∀ left n, n + left = freshNumber taken stem →
      SearchEnds taken stem n (freshName taken stem) := by
    intro left
    induction left with
    | zero =>
      rintro n rfl
      exact .free (freshName_not_mem taken stem)
    | succ left ih =>
      intro n sum
      have below : n < freshNumber taken stem := by omega
      exact .next (numbered_mem_of_lt_freshNumber below) (ih (n + 1) (by omega))
  exact from_number (freshNumber taken stem) 0 (Nat.zero_add _)

theorem freshName_congr {taken taken' : List String}
    (same : ∀ name, name ∈ taken ↔ name ∈ taken') (stem : String) :
    freshName taken stem = freshName taken' stem :=
  ((freshName_ends taken stem).congr same).unique (freshName_ends taken' stem)

end CompactTopicMap
