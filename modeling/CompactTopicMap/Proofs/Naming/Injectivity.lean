import CompactTopicMap.Proofs.Naming.Compression
import CompactTopicMap.Proofs.Naming.Identifiers

/-! A reader that knows the prefix table and the base address finds the locator in its display. -/

namespace CompactTopicMap

namespace PrefixTable

variable {table : PrefixTable} {binding : Binding}

theorem find?_of_mem (member : binding ∈ table.bindings) :
    table.find? binding.label = some binding.space := by
  obtain ⟨bindings, ordered⟩ := table
  have listed : binding ∈ bindings := member
  suffices found : bindings.find? (·.label = binding.label) = some binding by
    simp [find?, found]
  clear member
  induction bindings with
  | nil => cases listed
  | cons first rest ih =>
    obtain ⟨least, later⟩ := List.pairwise_cons.mp ordered
    rcases List.mem_cons.mp listed with rfl | inside
    · simp
    · have differ : first.label ≠ binding.label := by
        intro same
        exact String.lt_irrefl _ (same ▸ least binding inside)
      rw [List.find?_cons_of_neg (by simpa using differ)]
      exact ih later inside

end PrefixTable

namespace Identity

inductive Refers (table : PrefixTable) (base : Option String) (kind : LocatorKind) (iri : String) :
    Identity → Prop
  | localName {address text : String} (item : kind = .itemIdentifier) (under : base = some address)
    (identifier : isIdentifier text = true) (whole : iri = address ++ "#" ++ text) :
    Refers table base kind iri { kind, iri, text, form := .localName }
  | qualifiedName {binding : Binding} {rest : String} (member : binding ∈ table.bindings)
    (whole : iri = binding.space ++ rest) :
    Refers table base kind iri
      { kind, iri, text := binding.label ++ ":" ++ rest, form := .qualifiedName }
  | absolute :
    Refers table base kind iri { kind, iri, text := absoluteReference iri, form := .absolute }

section Shapes

variable {table : PrefixTable} {base : Option String} {kind : LocatorKind} {iri : String}
  {identity : Identity}

theorem Refers.qualified (refers : Refers table base kind iri identity)
    (form : identity.form = .qualifiedName) :
    ∃ label space rest, table.find? label = some space ∧
      identity.text = label ++ ":" ++ rest ∧ iri = space ++ rest := by
  cases refers with
  | @qualifiedName binding rest member whole =>
    exact ⟨binding.label, binding.space, rest, PrefixTable.find?_of_mem member, rfl, whole⟩
  | localName => cases form
  | absolute => cases form

theorem Refers.bare (refers : Refers table base kind iri identity)
    (form : identity.form = .localName) :
    ∃ address, base = some address ∧ iri = address ++ "#" ++ identity.text := by
  cases refers with
  | localName item under identifier whole => exact ⟨_, under, whole⟩
  | qualifiedName => cases form
  | absolute => cases form

end Shapes

theorem localIdentifier?_spec {address iri text : String}
    (found : localIdentifier? address iri = some text) :
    isIdentifier text = true ∧ iri = address ++ "#" ++ text := by
  unfold localIdentifier? at found
  split at found
  · rename_i fragment start
    simp only [Option.ite_none_right_eq_some, Option.some.injEq] at found
    rcases found with ⟨identifier, rfl⟩
    refine ⟨identifier, String.toList_inj.mp ?_⟩
    simpa using (List.append_eq_of_isPrefixOf?_eq_some start).symm
  · cases found

theorem compress_refers (table : PrefixTable) (base : Option String) (kind : LocatorKind)
    (iri : String) :
    Refers table base kind iri
      { kind, iri, text := (table.compress iri).1, form := (table.compress iri).2 } := by
  have compresses := table.compress_compresses iri
  generalize table.compress iri = written at compresses
  cases compresses with
  | qualifiedName splits => exact .qualifiedName splits.longest.bound splits.whole
  | absolute => exact .absolute

theorem ofLocator_refers (table : PrefixTable) (base : Option String) (kind : LocatorKind)
    (iri : String) : Refers table base kind iri (ofLocator table base kind iri) := by
  rw [ofLocator]
  split
  · rename_i text short
    simp only [Option.ite_none_right_eq_some, Option.bind_eq_some_iff] at short
    rcases short with ⟨item, address, under, found⟩
    obtain ⟨identifier, whole⟩ := localIdentifier?_spec found
    exact .localName item under identifier whole
  · exact compress_refers table base kind iri

structure Reading where
  kind : LocatorKind
  form : IdentityForm
  address : List Char
  deriving DecidableEq, Repr

/-- Reads a reference behind its mark: something in angle brackets, a label and a local part, or an
identifier under the base address. -/
def readBody (table : PrefixTable) (base : Option String) (body : List Char) :
    IdentityForm × List Char :=
  if body.head? = some '<' then (.absolute, body.tail.dropLast)
  else if ':' ∈ body then
    let label := body.takeWhile (· != ':')
    let rest := (body.dropWhile (· != ':')).tail
    (.qualifiedName, ((table.find? (.ofList label)).getD "").toList ++ rest)
  else (.localName, (base.getD "").toList ++ '#' :: body)

def read (table : PrefixTable) (base : Option String) : List Char → Reading
  | '=' :: ' ' :: body =>
    let (form, address) := readBody table base body
    ⟨.subjectLocator, form, address⟩
  | '^' :: ' ' :: body =>
    let (form, address) := readBody table base body
    ⟨.itemIdentifier, form, address⟩
  | body =>
    let (form, address) := readBody table base body
    ⟨if form = .localName then .itemIdentifier else .subjectIdentifier, form, address⟩

section Reading

variable {table : PrefixTable} {base : Option String}

theorem isNameChar_of_isIdentifier {text : String} (identifier : isIdentifier text = true) :
    ∃ first rest, text.toList = first :: rest ∧ isNameStart first = true ∧
      ∀ c ∈ text.toList, isNameChar c = true := by
  have identifier_chars := isIdentifierChars_of_isIdentifier identifier
  cases chars : text.toList with
  | nil => simp [chars, isIdentifierChars] at identifier_chars
  | cons first rest =>
    simp only [chars, isIdentifierChars, Bool.and_eq_true, List.all_eq_true] at identifier_chars
    obtain ⟨start, follow⟩ := identifier_chars
    exact ⟨first, rest, rfl, start,
      List.forall_mem_cons.mpr ⟨isNameChar_of_isNameStart start, follow⟩⟩

theorem readBody_absolute (iri : String) :
    readBody table base (absoluteReference iri).toList =
      (.absolute, Text.percentWhere escapedInBrackets iri.toList) := by
  simp [readBody, absoluteReference]

theorem readBody_qualifiedName {binding : Binding} (member : binding ∈ table.bindings)
    (identifier : isIdentifier binding.label = true) (rest : String) :
    readBody table base (binding.label ++ ":" ++ rest).toList =
      (.qualifiedName, (binding.space ++ rest).toList) := by
  obtain ⟨first, others, chars, start, name⟩ := isNameChar_of_isIdentifier identifier
  have noBracket : first ≠ '<' := by
    rintro rfl
    exact absurd start (by decide)
  have noColon : ∀ c ∈ binding.label.toList, (c != ':') = true := by
    intro c inside
    rw [bne_iff_ne]
    rintro rfl
    exact absurd (name ':' inside) (by decide)
  have whole : (binding.label ++ ":" ++ rest).toList =
      binding.label.toList ++ ':' :: rest.toList := by
    simp
  have colon : ':' ∈ binding.label.toList ++ ':' :: rest.toList := by simp
  have head : (binding.label.toList ++ ':' :: rest.toList).head? ≠ some '<' := by
    simpa [chars] using noBracket
  rw [whole, readBody, if_neg head, if_pos colon, List.takeWhile_append_of_pos noColon,
    List.dropWhile_append_of_pos noColon]
  simp [PrefixTable.find?_of_mem member]

theorem readBody_localName {address text : String} (identifier : isIdentifier text = true) :
    readBody table (some address) text.toList = (.localName, (address ++ "#" ++ text).toList) := by
  obtain ⟨first, others, chars, start, name⟩ := isNameChar_of_isIdentifier identifier
  have head : text.toList.head? ≠ some '<' := by
    rw [chars]
    rintro same
    obtain rfl := Option.some.inj same
    exact absurd start (by decide)
  have noColon : ':' ∉ text.toList := fun inside => absurd (name ':' inside) (by decide)
  rw [readBody, if_neg head, if_neg noColon]
  simp

theorem read_of_unmarked {body : List Char} (unmarked : body.head? ≠ some '=' ∧ body.head? ≠ some '^') :
    read table base body =
      ⟨if (readBody table base body).1 = .localName then .itemIdentifier else .subjectIdentifier,
        (readBody table base body).1, (readBody table base body).2⟩ := by
  unfold read
  split
  · exact absurd rfl unmarked.1
  · exact absurd rfl unmarked.2
  · rfl

theorem read_mark (kind : LocatorKind) {body : List Char} {form : IdentityForm}
    {address : List Char} (unmarked : body.head? ≠ some '=' ∧ body.head? ≠ some '^')
    (found : readBody table base body = (form, address)) (marked : form ≠ .localName) :
    read table base (kind.mark.toList ++ body) = ⟨kind, form, address⟩ := by
  cases kind with
  | subjectIdentifier =>
    change read table base body = _
    rw [read_of_unmarked unmarked, found, if_neg marked]
  | subjectLocator =>
    change read table base ('=' :: ' ' :: body) = _
    rw [read, found]
  | itemIdentifier =>
    change read table base ('^' :: ' ' :: body) = _
    rw [read, found]

theorem unmarked_of_isIdentifier {text : String} (identifier : isIdentifier text = true)
    (more : List Char) :
    (text.toList ++ more).head? ≠ some '=' ∧ (text.toList ++ more).head? ≠ some '^' := by
  obtain ⟨first, others, chars, start, _⟩ := isNameChar_of_isIdentifier identifier
  rw [chars]
  constructor
  all_goals
    intro same
    obtain rfl := Option.some.inj same
    exact absurd start (by decide)

theorem read_display (labels : ∀ label ∈ table.labels, isIdentifier label = true)
    {kind : LocatorKind} {iri : String} {identity : Identity}
    (refers : Refers table base kind iri identity) :
    ∃ address, read table base identity.display.toList = ⟨kind, identity.form, address⟩ ∧
      Text.percentDecode (Text.octets address) = Text.percentDecode (Text.octets iri.toList) ∧
      (identity.form ≠ .absolute → address = iri.toList) := by
  cases refers with
  | @localName address text item under identifier whole =>
    subst item under whole
    have unmarked := unmarked_of_isIdentifier identifier []
    rw [List.append_nil] at unmarked
    refine ⟨(address ++ "#" ++ text).toList, ?_, rfl, fun _ => rfl⟩
    rw [display, if_pos rfl, read_of_unmarked unmarked, readBody_localName identifier, if_pos rfl]
  | @qualifiedName binding rest member whole =>
    subst whole
    have identifier := labels binding.label (List.mem_map_of_mem member)
    refine ⟨(binding.space ++ rest).toList, ?_, rfl, fun _ => rfl⟩
    rw [display, if_neg nofun, String.toList_append]
    refine read_mark kind ?_ (readBody_qualifiedName member identifier rest) nofun
    simpa using unmarked_of_isIdentifier identifier (':' :: rest.toList)
  | absolute =>
    refine ⟨Text.percentWhere escapedInBrackets iri.toList, ?_, ?_, fun other => absurd rfl other⟩
    · rw [display, if_neg nofun, String.toList_append]
      refine read_mark kind ?_ (readBody_absolute iri) nofun
      simp [absoluteReference]
    · exact Text.percentDecode_percentWhere isInert_of_escapedInBrackets iri.toList

end Reading

/-- Two locators that are displayed alike have one kind, one form and one address: the same one
where it is shortened, and the same one but for percent-encoding in angle brackets. -/
theorem display_determines_locator (table : PrefixTable) (base : Option String)
    (labels : ∀ label ∈ table.labels, isIdentifier label = true)
    {kind kind' : LocatorKind} {iri iri' : String}
    (same : (ofLocator table base kind iri).display = (ofLocator table base kind' iri').display) :
    let identity := ofLocator table base kind iri
    kind = kind' ∧ identity.form = (ofLocator table base kind' iri').form ∧
      Text.percentDecode (Text.octets iri.toList) = Text.percentDecode (Text.octets iri'.toList) ∧
      (identity.form ≠ .absolute → iri = iri') ∧
      (identity.form = .qualifiedName → ∃ label space rest, table.find? label = some space ∧
        identity.text = label ++ ":" ++ rest ∧ iri = space ++ rest) ∧
      (identity.form = .localName → ∃ address, base = some address ∧
        iri = address ++ "#" ++ identity.text) := by
  intro identity
  obtain ⟨address, found, decoded, plain⟩ :=
    read_display labels (ofLocator_refers table base kind iri)
  obtain ⟨address', found', decoded', plain'⟩ :=
    read_display labels (ofLocator_refers table base kind' iri')
  rw [same, found'] at found
  obtain ⟨sameKind, sameForm, sameAddress⟩ := Reading.mk.inj found
  refine ⟨sameKind.symm, sameForm.symm, ?_, ?_, ?_, ?_⟩
  · rw [← decoded, ← decoded', sameAddress]
  · intro short
    have short' : (ofLocator table base kind' iri').form ≠ .absolute := sameForm ▸ short
    apply String.toList_inj.mp
    rw [← plain short, ← plain' short', sameAddress]
  · exact (ofLocator_refers table base kind iri).qualified
  · exact (ofLocator_refers table base kind iri).bare

theorem blank_displayed_alike :
    let table := PrefixTable.standard
    let iri := "http://t.example/a b"
    let iri' := "http://t.example/a%20b"
    (∀ label ∈ table.labels, isIdentifier label = true) ∧
      (ofLocator table none .itemIdentifier iri).display =
        (ofLocator table none .itemIdentifier iri').display ∧
      Text.percentDecode (Text.octets iri.toList) =
        Text.percentDecode (Text.octets iri'.toList) := by
  have labels : ∀ label ∈ PrefixTable.standard.labels, isIdentifier label = true := by decide
  have same : (ofLocator .standard none .itemIdentifier "http://t.example/a b").display =
      (ofLocator .standard none .itemIdentifier "http://t.example/a%20b").display := by
    decide +kernel
  exact ⟨labels, same, (display_determines_locator .standard none labels same).2.2.1⟩

end Identity
end CompactTopicMap
