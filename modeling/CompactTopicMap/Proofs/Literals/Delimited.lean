import CompactTopicMap.Literal
import CompactTopicMap.Proofs.Literals.Quotation
import CompactTopicMap.Proofs.Naming.Injectivity
import CompactTopicMap.Text.Cut

namespace CompactTopicMap

namespace Text

theorem cutFirst?_append {separator : Char} {before : List Char} (plain : separator ∉ before)
    (after : List Char) :
    cutFirst? separator (before ++ separator :: after) = some (before, after) := by
  have inside : ∀ c ∈ before, (c != separator) = true :=
    fun c member => bne_iff_ne.mpr (ne_of_mem_of_not_mem member plain)
  simp [cutFirst?, List.dropWhile_append_of_pos inside, List.takeWhile_append_of_pos inside]

end Text

def isReferenceChar (c : Char) : Bool :=
  isNameChar c || c == '.' || c == ':'

def closing : List Char := [' ', '\n', ',', ';', ')']

/-- Reads on behind an opening angle bracket, up to the next closing one; returns what is left. -/
def readBracketed (input : List Char) : Option (List Char) :=
  (Text.cutFirst? '>' input).map Prod.snd

def readReference : List Char → Option (List Char)
  | '<' :: inside => readBracketed inside
  | text => if text.head?.any isReferenceChar then some (text.dropWhile isReferenceChar) else none

def readDatatype : List Char → Option (List Char)
  | '^' :: '^' :: reference => readReference reference
  | rest => some rest

def readLiteral : List Char → Option (List Char)
  | '<' :: inside => readBracketed inside
  | text => (Text.readQuoted text).bind fun (_, rest) => readDatatype rest

section Readers

variable {inside rest : List Char}

theorem readBracketed_eq_rest_iff :
    readBracketed (inside ++ '>' :: rest) = some rest ↔ '>' ∉ inside := by
  constructor
  · intro found member
    obtain ⟨before, after, rfl, plain⟩ := List.eq_append_cons_of_mem member
    rw [List.append_assoc, List.cons_append, readBracketed, Text.cutFirst?_append plain] at found
    have short := congrArg List.length (Option.some.inj found)
    simp only [List.length_append, List.length_cons] at short
    omega
  · intro plain
    rw [readBracketed, Text.cutFirst?_append plain]
    rfl

theorem readReference_absolute (iri : String) (rest : List Char) :
    readReference ((absoluteReference iri).toList ++ rest) = some rest := by
  have plain : '>' ∉ Text.percentWhere escapedInBrackets iri.toList := by
    rw [Text.mem_percentWhere_iff (by decide) (by decide)]
    exact fun both => absurd both.2 (by decide)
  have whole : (absoluteReference iri).toList ++ rest =
      '<' :: (Text.percentWhere escapedInBrackets iri.toList ++ '>' :: rest) := by
    simp [absoluteReference]
  rw [whole]
  exact readBracketed_eq_rest_iff.mpr plain

theorem readReference_run {run : List Char} (some_char : run ≠ [])
    (chars : ∀ c ∈ run, isReferenceChar c = true)
    (follows : ∀ c ∈ rest.head?, isReferenceChar c = false) :
    readReference (run ++ rest) = some rest := by
  have stop : rest.dropWhile isReferenceChar = rest := by
    cases rest with
    | nil => rfl
    | cons c _ => exact List.dropWhile_cons_of_neg (by simp [follows c rfl])
  have left : (run ++ rest).dropWhile isReferenceChar = rest := by
    rw [List.dropWhile_append_of_pos chars, stop]
  obtain ⟨first, more, rfl⟩ := List.exists_cons_of_ne_nil some_char
  have start := chars first List.mem_cons_self
  have bracket : first ≠ '<' := by
    rintro rfl
    exact absurd start (by decide)
  rw [List.cons_append] at left ⊢
  unfold readReference
  split
  case h_1 same => exact absurd (List.cons.inj same).1 bracket
  case h_2 => rw [List.head?_cons, Option.any_some, if_pos start, left]

end Readers

theorem PrefixTable.compress_cases (table : PrefixTable) (iri : String) :
    (∃ label ∈ table.labels, ∃ part : String, isLocalPart part.toList = true ∧
      (table.compress iri).1 = label ++ ":" ++ part) ∨
    (table.compress iri).1 = absoluteReference iri := by
  have compresses := table.compress_compresses iri
  generalize table.compress iri = written at compresses
  cases compresses with
  | @qualifiedName b part splits =>
    exact .inl ⟨b.label, List.mem_map_of_mem splits.longest.bound, part,
      isLocalPart_iff.mpr splits.plain, rfl⟩
  | absolute => exact .inr rfl

theorem readReference_compress {table : PrefixTable}
    (labels : ∀ label ∈ table.labels, isIdentifier label = true) (iri : String) {rest : List Char}
    (follows : ∀ c ∈ rest.head?, isReferenceChar c = false) :
    readReference ((table.compress iri).1.toList ++ rest) = some rest := by
  rcases table.compress_cases iri with ⟨label, member, part, local_part, written⟩ | written
  · obtain ⟨_, _, _, _, name⟩ := Identity.isNameChar_of_isIdentifier (labels label member)
    simp only [isLocalPart, Bool.and_eq_true, List.all_eq_true] at local_part
    rw [written]
    refine readReference_run (by simp) (fun c inside => ?_) follows
    simp only [String.toList_append, List.mem_append] at inside
    rcases inside with (inLabel | colon) | inPart
    · simp [isReferenceChar, name c inLabel]
    · obtain rfl : c = ':' := by simpa using colon
      decide
    · simp [isReferenceChar, local_part.2 c inPart]
  · rw [written]
    exact readReference_absolute iri rest

section Literals

variable {rest : List Char}

theorem closing_plain : ∀ c ∈ closing, c ≠ '"' ∧ c ≠ '^' ∧ isReferenceChar c = false := by
  intro c member
  simp only [closing, List.mem_cons, List.not_mem_nil, or_false] at member
  rcases member with rfl | rfl | rfl | rfl | rfl <;> decide

theorem readDatatype_plain (follows : rest.head? ≠ some '^') : readDatatype rest = some rest := by
  unfold readDatatype
  split
  · exact absurd rfl follows
  · rfl

theorem readLiteral_quote (site : Text.QuoteSite) (value : String)
    (follows : rest.head? ≠ some '"') :
    readLiteral ((Text.quote site value).toList ++ rest) = readDatatype rest := by
  have found := Text.readQuoted_quoteChars site value.toList follows
  have start : (Text.quoteChars site value.toList).head? = some '"' := by
    cases site <;> simp only [Text.quoteChars] <;> split <;> rfl
  rw [Text.quote, String.toList_ofList]
  unfold readLiteral
  split
  case h_1 inside same =>
    have : (Text.quoteChars site value.toList ++ rest).head? = some '"' := by
      rw [List.head?_append, start]
      rfl
    rw [same] at this
    exact absurd this (by simp)
  case h_2 => rw [found, Option.bind_some]

/-- An encoded value that is neither a variable nor an integer ends where its reader ends, unless it
is an address with a closing angle bracket in it. -/
theorem encodeLiteral_delimited_iff {table : PrefixTable}
    (labels : ∀ label ∈ table.labels, isIdentifier label = true) {value datatype : String}
    (plain : isVariable value = false) (other : datatype ≠ Iri.integer) (site : Text.QuoteSite)
    (follows : ∀ c ∈ rest.head?, c ∈ closing) :
    readLiteral ((encodeLiteral table site datatype value).toList ++ rest) = some rest ↔
      (datatype = Iri.anyUri → '>' ∉ value.toList) := by
  have noQuote : rest.head? ≠ some '"' := fun head =>
    (closing_plain _ (follows _ head)).1 rfl
  have noCaret : rest.head? ≠ some '^' := fun head =>
    (closing_plain _ (follows _ head)).2.1 rfl
  have stop : ∀ c ∈ rest.head?, isReferenceChar c = false := fun c head =>
    (closing_plain c (follows c head)).2.2
  rw [encodeLiteral, if_neg (by simp [plain])]
  by_cases isString : datatype = Iri.string
  · subst isString
    rw [if_pos rfl, readLiteral_quote site value noQuote, readDatatype_plain noCaret]
    exact iff_of_true rfl fun same => absurd same (by decide)
  · rw [if_neg isString]
    by_cases address : datatype = Iri.anyUri
    · subst address
      have whole : ("<" ++ encodeSpaces value ++ ">").toList ++ rest =
          '<' :: (Text.percentWhere (· == ' ') value.toList ++ '>' :: rest) := by
        simp [encodeSpaces]
      rw [if_pos rfl, whole, readLiteral, readBracketed_eq_rest_iff,
        Text.mem_percentWhere_iff (by decide) (by decide)]
      simp
    · rw [if_neg address, if_neg other]
      have whole : (Text.quote site value ++ "^^" ++ (table.compress datatype).1).toList ++ rest =
          (Text.quote site value).toList ++
            '^' :: '^' :: ((table.compress datatype).1.toList ++ rest) := by
        simp
      rw [whole, readLiteral_quote site value (by simp), readDatatype,
        readReference_compress labels datatype stop]
      exact iff_of_true rfl fun same => absurd same address

def annotatedDatatypes : List String := [Iri.decimal, Iri.boolean, Iri.date, Iri.dateTime]

theorem annotatedDatatypes_part {datatype : String} (common : datatype ∈ annotatedDatatypes) :
    ∃ part, datatype = Iri.datatypes ++ part ∧ PlainPart part.toList ∧
      datatype ≠ Iri.string ∧ datatype ≠ Iri.anyUri ∧ datatype ≠ Iri.integer := by
  simp only [annotatedDatatypes, List.mem_cons, List.not_mem_nil, or_false] at common
  rcases common with rfl | rfl | rfl | rfl
  · exact ⟨"decimal", by decide, isLocalPart_iff.mp (by decide), by decide⟩
  · exact ⟨"boolean", by decide, isLocalPart_iff.mp (by decide), by decide⟩
  · exact ⟨"date", by decide, isLocalPart_iff.mp (by decide), by decide⟩
  · exact ⟨"dateTime", by decide, isLocalPart_iff.mp (by decide), by decide⟩

/-- A value of a common datatype is quoted and followed by the label of the datatypes and the name
of this one, unless a longer namespace is bound for it. -/
theorem encodeLiteral_annotated {table : PrefixTable} {datatype value label : String}
    (common : datatype ∈ annotatedDatatypes)
    (longest : table.LongestFor datatype ⟨label, Iri.datatypes⟩)
    (plain : isVariable value = false) (site : Text.QuoteSite) :
    ∃ part, datatype = Iri.datatypes ++ part ∧
      encodeLiteral table site datatype value =
        Text.quote site value ++ "^^" ++ (label ++ ":" ++ part) := by
  obtain ⟨part, whole, plainPart, notString, notAddress, notInteger⟩ :=
    annotatedDatatypes_part common
  have splits : table.Splits datatype ⟨label, Iri.datatypes⟩ part := ⟨longest, whole, plainPart⟩
  refine ⟨part, whole, ?_⟩
  rw [encodeLiteral, if_neg (by simp [plain]), if_neg notString, if_neg notAddress,
    if_neg notInteger, splits.compress]

example : encodeLiteral .standard .block Iri.decimal "1.5" = "\"1.5\"^^xsd:decimal" := by
  decide +kernel

theorem date_delimited :
    let encoded := encodeLiteral .standard .argument Iri.date "the \"ides\""
    readLiteral (encoded.toList ++ [')']) = some [')'] := by
  have labels : ∀ label ∈ PrefixTable.standard.labels, isIdentifier label = true := by decide
  have follows : ∀ c ∈ [')'].head?, c ∈ closing := by
    intro c head
    obtain rfl := Option.some.inj head
    decide
  exact (encodeLiteral_delimited_iff labels (by decide) (by decide) .argument follows).mpr
    fun same => absurd same (by decide)

/-- An address ends early at a closing angle bracket, and its last two characters are left over. -/
theorem address_ends_early :
    let value := "http://t.example/a>b"
    let encoded := encodeLiteral .standard .block Iri.anyUri value
    (∀ label ∈ PrefixTable.standard.labels, isIdentifier label = true) ∧
      isVariable value = false ∧ Iri.anyUri ≠ Iri.integer ∧
      readLiteral (encoded.toList ++ [';']) = some ['b', '>', ';'] := by
  decide +kernel

end Literals

end CompactTopicMap
