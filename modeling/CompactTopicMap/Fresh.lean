namespace CompactTopicMap

/-- The stem itself, then the stem with 1, 2, … behind it. -/
def numbered (stem : String) : Nat → String
  | 0 => stem
  | n + 1 => stem ++ Nat.repr (n + 1)

def freshNumber (taken : List String) (stem : String) : Nat :=
  ((List.range (taken.length + 1)).find? fun n => numbered stem n ∉ taken).getD 0

def freshName (taken : List String) (stem : String) : String :=
  numbered stem (freshNumber taken stem)

theorem numbered_injective {stem : String} {m n : Nat} (same : numbered stem m = numbered stem n) :
    m = n := by
  have chars := congrArg String.toList same
  cases m with
  | zero =>
    cases n with
    | zero => rfl
    | succ n => simp [numbered] at chars
  | succ m =>
    cases n with
    | zero => simp [numbered] at chars
    | succ n =>
      have digits : Nat.toDigits 10 (m + 1) = Nat.toDigits 10 (n + 1) := by
        simpa [numbered] using chars
      have value := congrArg (fun digits => Nat.ofDigitChars 10 digits 0) digits
      simpa using value

theorem numbered_range_nodup (stem : String) (count : Nat) :
    ((List.range count).map (numbered stem)).Nodup :=
  List.pairwise_map.mpr (List.nodup_range.imp fun differ same => differ (numbered_injective same))

theorem exists_free (taken : List String) (stem : String) :
    ∃ n, n < taken.length + 1 ∧ numbered stem n ∉ taken := by
  by_cases free : ∃ n, n < taken.length + 1 ∧ numbered stem n ∉ taken
  · exact free
  · have all_taken : (List.range (taken.length + 1)).map (numbered stem) ⊆ taken := by
      intro name member
      obtain ⟨n, bound, rfl⟩ := List.mem_map.mp member
      by_cases here : numbered stem n ∈ taken
      · exact here
      · exact absurd ⟨n, List.mem_range.mp bound, here⟩ free
    have count := (numbered_range_nodup stem (taken.length + 1)).length_le_of_subset all_taken
    rw [List.length_map, List.length_range] at count
    exact absurd count (Nat.not_succ_le_self _)

theorem freshName_not_mem (taken : List String) (stem : String) : freshName taken stem ∉ taken := by
  obtain ⟨n, bound, free⟩ := exists_free taken stem
  unfold freshName freshNumber
  cases found : (List.range (taken.length + 1)).find? fun n => numbered stem n ∉ taken with
  | none => exact absurd free (by simpa using List.find?_eq_none.mp found n (by simpa using bound))
  | some k => simpa using List.find?_some found

theorem numbered_mem_of_lt_freshNumber {taken : List String} {stem : String} {n : Nat}
    (smaller : n < freshNumber taken stem) : numbered stem n ∈ taken := by
  unfold freshNumber at smaller
  cases found : (List.range (taken.length + 1)).find? fun n => numbered stem n ∉ taken with
  | none =>
    rw [found] at smaller
    exact absurd smaller (Nat.not_lt_zero n)
  | some k =>
    rw [found] at smaller
    have smaller : n < k := smaller
    obtain ⟨_, i, bound, here, before⟩ := List.find?_eq_some_iff_getElem.mp found
    simp only [List.getElem_range] at here
    subst here
    simpa using before n smaller

end CompactTopicMap
