import Mathlib.Data.List.Induction
import CompactTopicMap.Text.Quoted

namespace CompactTopicMap.Text

def inFront (text : List Char) :
    Option (List Char × List Char) → Option (List Char × List Char) :=
  Option.map (Prod.map (text ++ ·) id)

/-- Reads up to the first `mark` that no backslash escapes. A character behind a backslash stands
for itself. -/
def readUntil (mark : List Char) : List Char → Option (List Char × List Char)
  | [] => none
  | c :: rest =>
    if mark <+: c :: rest then some ([], (c :: rest).drop mark.length)
    else if c = '\\' then
      match rest with
      | [] => none
      | d :: rest => inFront [d] (readUntil mark rest)
    else inFront [c] (readUntil mark rest)

def singleMark : List Char := ['"']

def tripleMark : List Char := ['"', '"', '"']

/-- Reads a quoted string, which stands between runs of three double quotes if it starts with one
and between two double quotes otherwise. -/
def readQuoted (input : List Char) : Option (List Char × List Char) :=
  if tripleMark <+: input then readUntil tripleMark (input.drop 3)
  else if singleMark <+: input then readUntil singleMark (input.drop 1)
  else none

/-- What a reader finds in a quoted string: the string itself in an argument, and apostrophes in the
place of double quotes in a statement. -/
def QuoteSite.heard : QuoteSite → List Char → List Char
  | .block, text => text.map fun c => if c = '"' then '\'' else c
  | .argument, text => text

theorem inFront_nil (read : Option (List Char × List Char)) : inFront [] read = read := by
  cases read <;> rfl

theorem inFront_inFront (text more : List Char) (read : Option (List Char × List Char)) :
    inFront text (inFront more read) = inFront (text ++ more) read := by
  cases read with
  | none => rfl
  | some _ => simp [inFront, Prod.map]

@[simp] theorem inFront_some (text more rest : List Char) :
    inFront text (some (more, rest)) = some (text ++ more, rest) :=
  rfl

section Steps

variable {mark : List Char} {c : Char} {rest : List Char}

theorem readUntil_mark (some_mark : mark ≠ []) (rest : List Char) :
    readUntil mark (mark ++ rest) = some ([], rest) := by
  obtain ⟨c, more, rfl⟩ := List.exists_cons_of_ne_nil some_mark
  have here : c :: more <+: c :: (more ++ rest) := List.prefix_append (c :: more) rest
  rw [List.cons_append, readUntil.eq_def]
  simp only [if_pos here]
  simp

theorem readUntil_escaped (plain : ¬ mark <+: '\\' :: c :: rest) :
    readUntil mark ('\\' :: c :: rest) = inFront [c] (readUntil mark rest) := by
  rw [readUntil.eq_def]
  simp only [if_neg plain, if_true]

theorem readUntil_cons (plain : ¬ mark <+: c :: rest) (other : c ≠ '\\') :
    readUntil mark (c :: rest) = inFront [c] (readUntil mark rest) := by
  rw [readUntil.eq_def]
  simp only [if_neg plain, if_neg other]

theorem not_prefix_cons (differ : c ≠ '"') : ¬ '"' :: mark <+: c :: rest := by
  rw [List.cons_prefix_cons]
  exact fun both => differ both.1.symm

theorem not_prefix_plain (differ : c ≠ '"') : ¬ tripleMark <+: c :: rest :=
  not_prefix_cons differ

end Steps

section Backslashes

def doubled (c : Char) : List Char := if c = '\\' then ['\\', '\\'] else [c]

variable {c : Char}

theorem doubleBackslashes_cons (c : Char) (text : List Char) :
    doubleBackslashes (c :: text) = doubled c ++ doubleBackslashes text :=
  List.flatMap_cons

theorem doubleBackslashes_append (text more : List Char) :
    doubleBackslashes (text ++ more) = doubleBackslashes text ++ doubleBackslashes more :=
  List.flatMap_append

theorem doubleBackslashes_quotes (count : Nat) :
    doubleBackslashes (List.replicate count '"') = List.replicate count '"' := by
  induction count with
  | zero => rfl
  | succ count ih =>
    rw [List.replicate_succ, doubleBackslashes_cons, ih]
    rfl

theorem quote_mem_doubled : '"' ∈ doubled c ↔ '"' = c := by
  by_cases backslash : c = '\\'
  · subst backslash
    decide
  · rw [doubled, if_neg backslash, List.mem_singleton]

theorem getLast?_doubled (c : Char) : (doubled c).getLast? = some c := by
  by_cases backslash : c = '\\'
  · subst backslash
    rfl
  · rw [doubled, if_neg backslash]
    rfl

theorem readUntil_doubled {mark : List Char} (differ : c ≠ '"') (after : List Char) :
    readUntil ('"' :: mark) (doubled c ++ after) = inFront [c] (readUntil ('"' :: mark) after) := by
  by_cases backslash : c = '\\'
  · subst backslash
    exact readUntil_escaped (not_prefix_cons differ)
  · rw [doubled, if_neg backslash]
    exact readUntil_cons (not_prefix_cons differ) backslash

theorem escapeThirdQuotes_doubled (differ : c ≠ '"') (run : Nat) (text : List Char) :
    escapeThirdQuotes run (doubled c ++ text) = doubled c ++ escapeThirdQuotes 0 text := by
  by_cases backslash : c = '\\'
  · subst backslash
    rfl
  · rw [doubled, if_neg backslash, List.singleton_append, escapeThirdQuotes, if_neg differ]
    rfl

theorem getLast?_doubleBackslashes (text : List Char) :
    (doubleBackslashes text).getLast? = text.getLast? := by
  induction text using List.reverseRecOn with
  | nil => rfl
  | append_singleton text c _ =>
    have single : doubleBackslashes [c] = doubled c := List.flatMap_singleton ..
    rw [doubleBackslashes_append, single, List.getLast?_append, getLast?_doubled,
      List.getLast?_concat]
    rfl

theorem doubleBackslashes_eq_nil {text : List Char} : doubleBackslashes text = [] ↔ text = [] := by
  rw [← List.getLast?_eq_none_iff, getLast?_doubleBackslashes, List.getLast?_eq_none_iff]

theorem quote_mem_doubleBackslashes {text : List Char} :
    '"' ∈ doubleBackslashes text ↔ '"' ∈ text := by
  induction text with
  | nil => rfl
  | cons c text ih =>
    rw [doubleBackslashes_cons, List.mem_append, quote_mem_doubled, ih, List.mem_cons]

theorem readUntil_doubleBackslashes {mark text : List Char} (plain : '"' ∉ text)
    (after : List Char) :
    readUntil ('"' :: mark) (doubleBackslashes text ++ after) =
      inFront text (readUntil ('"' :: mark) after) := by
  induction text with
  | nil => exact (inFront_nil _).symm
  | cons c text ih =>
    obtain ⟨differ, plain_rest⟩ := not_or.mp (mt List.mem_cons.mpr plain)
    rw [doubleBackslashes_cons, List.append_assoc, readUntil_doubled (Ne.symm differ),
      ih plain_rest, inFront_inFront, List.singleton_append]

end Backslashes

section Apostrophes

theorem quote_not_mem_apostrophes (text : List Char) : '"' ∉ apostrophes text := by
  simp only [apostrophes, List.mem_map, not_exists, not_and]
  intro c _
  split
  · decide
  · assumption

theorem apostrophes_doubleBackslashes (text : List Char) :
    apostrophes (doubleBackslashes text) = doubleBackslashes (apostrophes text) := by
  simp only [apostrophes, doubleBackslashes, List.map_flatMap, List.flatMap_map]
  congr 1
  funext c
  by_cases backslash : c = '\\'
  · subst backslash
    rfl
  · by_cases quote : c = '"'
    · subst quote
      rfl
    · simp [backslash, quote]

theorem apostrophes_eq_self {text : List Char} (plain : '"' ∉ text) : apostrophes text = text :=
  (List.map_congr_left fun _ here => if_neg (ne_of_mem_of_not_mem here plain)).trans
    (List.map_id text)

end Apostrophes

section ThirdQuotes

variable {run : Nat} {text : List Char}

theorem getLast?_ne_of_cons {c last : Char} (open_end : (c :: text).getLast? ≠ some last) :
    text.getLast? ≠ some last := by
  cases text with
  | nil => simp
  | cons d text => rwa [List.getLast?_cons_cons] at open_end

/-- Behind `run` quotes, no run of three comes up before the end of a text that ends in none. -/
theorem not_prefix_escapeThirdQuotes (bound : run ≤ 2) (some_text : text ≠ [])
    (open_end : text.getLast? ≠ some '"') (after : List Char) :
    ¬ List.replicate (3 - run) '"' <+: escapeThirdQuotes run text ++ after := by
  induction text generalizing run with
  | nil => exact absurd rfl some_text
  | cons c text ih =>
    obtain ⟨more, three⟩ : ∃ more, 3 - run = more + 1 := ⟨2 - run, by omega⟩
    by_cases quote : c = '"'
    · subst quote
      have some_more : text ≠ [] := by
        rintro rfl
        exact open_end rfl
      by_cases third : run = 2
      · subst third
        exact not_prefix_cons (by decide)
      · have more_eq : 3 - (run + 1) = more := by omega
        have next : ¬ List.replicate (3 - (run + 1)) '"' <+:
            escapeThirdQuotes (run + 1) text ++ after :=
          ih (by omega) some_more (getLast?_ne_of_cons open_end)
        rw [escapeThirdQuotes, if_pos rfl, if_neg third, three, List.replicate_succ,
          List.cons_append, List.cons_prefix_cons]
        exact fun both => next (more_eq ▸ both.2)
    · rw [escapeThirdQuotes, if_neg quote, three, List.replicate_succ]
      exact not_prefix_cons quote

theorem not_prefix_raw_quote (bound : run + 1 ≤ 2) (some_text : text ≠ [])
    (open_end : text.getLast? ≠ some '"') (after : List Char) :
    ¬ tripleMark <+: '"' :: (escapeThirdQuotes (run + 1) text ++ after) := by
  rw [tripleMark, List.cons_prefix_cons]
  rintro ⟨-, two⟩
  have short : List.replicate (3 - (run + 1)) '"' <+: List.replicate 2 '"' :=
    List.prefix_replicate_iff.mpr (by simp)
  exact not_prefix_escapeThirdQuotes bound some_text open_end after (short.trans two)

/-- Between runs of three quotes, a text that ends in none is read as it was before its backslashes
were doubled and every third quote of its runs was escaped. -/
theorem readUntil_escapeThirdQuotes (bound : run ≤ 2) (open_end : text.getLast? ≠ some '"')
    (after : List Char) :
    readUntil tripleMark (escapeThirdQuotes run (doubleBackslashes text) ++ after) =
      inFront text (readUntil tripleMark after) := by
  induction text generalizing run with
  | nil => exact (inFront_nil _).symm
  | cons c text ih =>
    have open_rest := getLast?_ne_of_cons open_end
    have found := inFront_inFront [c] text (readUntil tripleMark after)
    rw [doubleBackslashes_cons]
    by_cases quote : c = '"'
    · subst quote
      change readUntil tripleMark
        (escapeThirdQuotes run ('"' :: doubleBackslashes text) ++ after) = _
      rw [escapeThirdQuotes, if_pos rfl]
      split
      case isTrue =>
        rw [List.cons_append, List.cons_append, readUntil_escaped (not_prefix_plain (by decide)),
          ih (by omega) open_rest]
        exact found
      case isFalse early =>
        have short : run + 1 ≤ 2 := by omega
        have some_more : doubleBackslashes text ≠ [] := by
          intro none
          rw [doubleBackslashes_eq_nil.mp none] at open_end
          exact open_end rfl
        have plain := not_prefix_raw_quote short some_more
          (getLast?_doubleBackslashes text ▸ open_rest) after
        rw [List.cons_append, readUntil_cons plain (by decide), ih short open_rest]
        exact found
    · rw [escapeThirdQuotes_doubled quote, List.append_assoc, tripleMark, readUntil_doubled quote,
        ← tripleMark, ih (by omega) open_rest]
      exact found

end ThirdQuotes

section FinalQuotes

theorem exists_final_quotes (text : List Char) :
    ∃ body count, text = body ++ List.replicate count '"' ∧ body.getLast? ≠ some '"' := by
  induction text using List.reverseRecOn with
  | nil => exact ⟨[], 0, rfl, by simp⟩
  | append_singleton text c ih =>
    by_cases quote : c = '"'
    · subst quote
      obtain ⟨body, count, rfl, open_end⟩ := ih
      refine ⟨body, count + 1, ?_, open_end⟩
      rw [List.replicate_succ', List.append_assoc]
    · exact ⟨text ++ [c], 0, by simp, by simpa using quote⟩

theorem escapeQuotes_append {body : List Char} (open_end : body.getLast? ≠ some '"') (count : Nat) :
    escapeQuotes (body ++ List.replicate count '"') =
      escapeThirdQuotes 0 body ++ (List.replicate count '"').flatMap fun _ => ['\\', '"'] := by
  have final : (body ++ List.replicate count '"').reverse.takeWhile (· == '"') =
      List.replicate count '"' := by
    rw [List.reverse_append, List.reverse_replicate, List.takeWhile_append_of_pos (by simp)]
    have stop : body.reverse.takeWhile (· == '"') = [] := by
      rw [← List.head?_reverse] at open_end
      cases reversed : body.reverse with
      | nil => rfl
      | cons c _ =>
        rw [reversed] at open_end
        exact List.takeWhile_cons_of_neg (by simpa using open_end)
    rw [stop, List.append_nil]
  simp only [escapeQuotes, final]
  congr 2
  simp

theorem readUntil_escapedQuotes (count : Nat) (after : List Char) :
    readUntil tripleMark
        (((List.replicate count '"').flatMap fun _ => ['\\', '"']) ++ after) =
      inFront (List.replicate count '"') (readUntil tripleMark after) := by
  induction count with
  | zero => exact (inFront_nil _).symm
  | succ count ih =>
    rw [List.replicate_succ, List.flatMap_cons, List.append_assoc, List.cons_append,
      List.cons_append, List.nil_append, readUntil_escaped (not_prefix_plain (by decide)), ih,
      inFront_inFront]
    rfl

theorem readUntil_escapeQuotes (text after : List Char) :
    readUntil tripleMark (escapeQuotes (doubleBackslashes text) ++ after) =
      inFront text (readUntil tripleMark after) := by
  obtain ⟨body, count, rfl, open_end⟩ := exists_final_quotes text
  rw [doubleBackslashes_append, doubleBackslashes_quotes,
    escapeQuotes_append (getLast?_doubleBackslashes body ▸ open_end), List.append_assoc,
    readUntil_escapeThirdQuotes (by omega) open_end, readUntil_escapedQuotes, inFront_inFront]

end FinalQuotes

section Quoted

variable {rest : List Char}

theorem readQuoted_single {text : List Char} (plain : '"' ∉ text)
    (follows : rest.head? ≠ some '"') :
    readQuoted ('"' :: doubleBackslashes text ++ ['"'] ++ rest) = some (text, rest) := by
  have single : ¬ tripleMark <+: '"' :: (doubleBackslashes text ++ '"' :: rest) := by
    rw [tripleMark, List.cons_prefix_cons]
    rintro ⟨-, short⟩
    cases doubled : doubleBackslashes text with
    | nil =>
      rw [doubled, List.nil_append, List.cons_prefix_cons] at short
      obtain ⟨more, rfl⟩ := short.2
      exact follows rfl
    | cons c _ =>
      have other : '"' ≠ c := fun same =>
        plain (quote_mem_doubleBackslashes.mp (doubled ▸ same ▸ List.mem_cons_self))
      rw [doubled, List.cons_append] at short
      exact not_prefix_cons other.symm short
  have here : singleMark <+: '"' :: (doubleBackslashes text ++ '"' :: rest) := ⟨_, rfl⟩
  rw [List.append_assoc, List.cons_append, List.singleton_append, readQuoted, if_neg single,
    if_pos here, List.drop_one, List.tail_cons, singleMark, readUntil_doubleBackslashes plain]
  have closed : readUntil ['"'] (['"'] ++ rest) = some ([], rest) := readUntil_mark (by decide) rest
  rw [List.singleton_append] at closed
  rw [closed, inFront_some, List.append_nil]

theorem readQuoted_triple (text rest : List Char) :
    readQuoted (tripleMark ++ escapeQuotes (doubleBackslashes text) ++ tripleMark ++ rest) =
      some (text, rest) := by
  have here : tripleMark <+:
      tripleMark ++ (escapeQuotes (doubleBackslashes text) ++ (tripleMark ++ rest)) :=
    List.prefix_append _ _
  rw [List.append_assoc, List.append_assoc, readQuoted, if_pos here]
  change readUntil tripleMark (escapeQuotes (doubleBackslashes text) ++ (tripleMark ++ rest)) = _
  rw [readUntil_escapeQuotes, readUntil_mark (by decide), inFront_some, List.append_nil]

theorem readQuoted_quoteChars (site : QuoteSite) (text : List Char)
    (follows : rest.head? ≠ some '"') :
    readQuoted (quoteChars site text ++ rest) = some (site.heard text, rest) := by
  by_cases quoted : '"' ∈ text
  · have escaped := quote_mem_doubleBackslashes.mpr quoted
    simp only [quoteChars, if_pos escaped]
    cases site with
    | block =>
      change readQuoted ('"' :: apostrophes (doubleBackslashes text) ++ ['"'] ++ rest) = _
      rw [apostrophes_doubleBackslashes]
      exact readQuoted_single (quote_not_mem_apostrophes text) follows
    | argument => exact readQuoted_triple text rest
  · have escaped := mt quote_mem_doubleBackslashes.mp quoted
    simp only [quoteChars, if_neg escaped]
    have heard : site.heard text = text := by
      cases site with
      | block => exact apostrophes_eq_self quoted
      | argument => rfl
    rw [heard]
    exact readQuoted_single quoted follows

/-- A quoted string ends where its reader ends, and holds what the reader finds; without a double
quote it is the same in a statement and in an argument. -/
theorem readQuoted_quote (text : String) (follows : rest.head? ≠ some '"') :
    (∀ site : QuoteSite,
      readQuoted ((quote site text).toList ++ rest) = some (site.heard text.toList, rest)) ∧
    ('"' ∉ text.toList → quote .block text = quote .argument text) := by
  refine ⟨fun site => ?_, fun plain => ?_⟩
  · rw [quote, String.toList_ofList]
    exact readQuoted_quoteChars site text.toList follows
  · have plain := mt quote_mem_doubleBackslashes.mp plain
    simp only [quote, quoteChars, if_neg plain]

theorem readQuoted_runs :
    readQuoted ((quote .argument "a\\\"\"\"b\"\"").toList ++ [';']) =
      some ("a\\\"\"\"b\"\"".toList, [';']) ∧
    readQuoted ((quote .block "a\\\"\"\"b\"\"").toList ++ [';']) =
      some ("a\\'''b''".toList, [';']) ∧
    quote .block "a\\b" = quote .argument "a\\b" :=
  have follows : [';'].head? ≠ some '"' := by decide
  ⟨(readQuoted_quote _ follows).1 .argument, (readQuoted_quote _ follows).1 .block,
    (readQuoted_quote _ follows).2 (by decide)⟩

end Quoted

end CompactTopicMap.Text
