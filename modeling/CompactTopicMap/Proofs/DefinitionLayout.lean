import CompactTopicMap.Proofs.DocumentLayout

/-! Where a statement is found in the body of a definition, and when a margin alters it. -/

namespace CompactTopicMap
namespace Text

/-- The text with a margin in front of each of its lines that is not empty, and with newlines for its
line ends. The first line may have begun before the text. -/
def indented (margin : List Char) : Bool → List Char → List Char
  | _, [] => []
  | _, '\n' :: rest => '\n' :: indented margin false rest
  | _, '\r' :: '\n' :: rest => '\n' :: indented margin false rest
  | begun, c :: rest => (if begun then [c] else margin ++ [c]) ++ indented margin true rest

def begunBehind (begun : Bool) (text : List Char) : Bool := text.getLast?.elim begun (· != '\n')

def EndsLines (text : List Char) : Prop := ∀ c ∈ text.getLast?, c = '\n'

def Apart (first second : List Char) : Prop := '\r' ∈ first.getLast? → '\n' ∉ second.head?

/-- No line begins inside of the text except empty ones, and no line end has a carriage return. -/
def Unbroken (text : List Char) : Prop :=
  ∀ before after, text = before ++ '\n' :: after →
    (∀ c ∈ after, c = '\n') ∧ '\r' ∉ before.getLast?

variable {margin : List Char}

theorem begunBehind_cons (begun : Bool) (c : Char) (rest : List Char) :
    begunBehind begun (c :: rest) = begunBehind (c != '\n') rest := by
  rw [begunBehind, begunBehind, List.getLast?_cons]
  cases rest.getLast? <;> rfl

theorem EndsLines.of_cons {c : Char} {rest : List Char} (ends : EndsLines (c :: rest)) :
    EndsLines rest := by
  intro d last
  apply ends
  rw [List.getLast?_cons, Option.mem_def.mp last]
  rfl

theorem EndsLines.append {first second : List Char} (ends : EndsLines first)
    (ends' : EndsLines second) : EndsLines (first ++ second) := by
  intro c last
  rw [List.getLast?_append] at last
  rcases Option.or_eq_some_iff.mp last with second | ⟨-, first⟩
  · exact ends' c second
  · exact ends c first

theorem endsLines_append {second : List Char} (first : List Char)
    (newline : second.getLast? = some '\n') : EndsLines (first ++ second) := by
  intro c last
  rw [List.getLast?_append, newline] at last
  exact (Option.some.inj last).symm

theorem lines_ne_nil {text : List Char} (some_char : text ≠ []) : lines text ≠ [] := by
  fun_cases lines text with
  | case1 => exact absurd rfl some_char
  | _ => simp

theorem indented_lines {text : List Char} (ends : EndsLines text) :
    (lines text).flatMap (indentLine margin) = indented margin false text ∧
      ∀ line more, lines text = line :: more →
        line ++ '\n' :: more.flatMap (indentLine margin) = indented margin true text := by
  -- The second half is for the induction, as a character is put into a line that was found before.
  fun_induction lines text with
  | case1 => exact ⟨rfl, nofun⟩
  | case2 rest ih =>
    have rest_lines := (ih ends.of_cons).1
    refine ⟨?_, fun line more split => ?_⟩
    · rw [List.flatMap_cons, rest_lines]
      rfl
    · obtain ⟨rfl, rfl⟩ := List.cons.inj split
      rw [rest_lines]
      rfl
  | case3 rest ih =>
    have rest_lines := (ih ends.of_cons.of_cons).1
    refine ⟨?_, fun line more split => ?_⟩
    · rw [List.flatMap_cons, rest_lines]
      rfl
    · obtain ⟨rfl, rfl⟩ := List.cons.inj split
      rw [rest_lines]
      rfl
  | case4 c rest ordinary unpaired none =>
    by_cases last : rest = []
    · subst last
      exact absurd (ends c rfl) ordinary
    · exact absurd none (lines_ne_nil last)
  | case5 c rest ordinary unpaired line more split ih =>
    have rest_lines := (ih ends.of_cons).2 line more split
    refine ⟨?_, fun line' more' split' => ?_⟩
    · rw [indented.eq_4 margin false c rest ordinary unpaired, ← rest_lines]
      simp [indentLine]
    · obtain ⟨rfl, rfl⟩ := List.cons.inj split'
      rw [indented.eq_4 margin true c rest ordinary unpaired, ← rest_lines]
      rfl

theorem Apart.of_cons {c : Char} {rest second : List Char} (apart : Apart (c :: rest) second) :
    Apart rest second := by
  intro last
  apply apart
  rw [List.getLast?_cons, Option.mem_def.mp last]
  rfl

theorem indented_append {first second : List Char} (begun : Bool) (apart : Apart first second) :
    indented margin begun (first ++ second) =
      indented margin begun first ++ indented margin (begunBehind begun first) second := by
  fun_induction indented margin begun first with
  | case1 begun => rfl
  | case2 begun rest ih =>
    rw [begunBehind_cons]
    exact congrArg ('\n' :: ·) (ih apart.of_cons)
  | case3 begun rest ih =>
    rw [begunBehind_cons, begunBehind_cons]
    exact congrArg ('\n' :: ·) (ih apart.of_cons.of_cons)
  | case4 begun c rest ordinary unpaired ih =>
    have unpaired' : ∀ more, c = '\r' → rest ++ second = '\n' :: more → False := by
      intro more carriage split
      cases rest with
      | nil =>
        subst carriage
        exact apart rfl (by rw [← List.nil_append second, split]; rfl)
      | cons d rest => exact unpaired rest carriage (by rw [(List.cons.inj split).1])
    rw [List.cons_append, indented.eq_4 _ _ _ _ ordinary unpaired', ih apart.of_cons,
      begunBehind_cons, bne_iff_ne.mpr ordinary, List.append_assoc]

theorem indented_suffix (begun : Bool) (text : List Char) :
    indented margin true text <:+ indented margin begun text := by
  fun_cases indented margin begun text with
  | case1 => exact List.suffix_rfl
  | case2 => exact List.suffix_rfl
  | case3 => exact List.suffix_rfl
  | case4 begun c rest ordinary unpaired =>
    rw [indented.eq_4 _ _ _ _ ordinary unpaired]
    cases begun with
    | true => exact List.suffix_rfl
    | false => exact ⟨margin, by simp⟩

theorem indented_infix {before text after : List Char} (apart : '\r' ∉ before.getLast?)
    (apart' : Apart text after) :
    indented margin true text <:+: indented margin false (before ++ text ++ after) := by
  rw [List.append_assoc, indented_append _ fun carriage => absurd carriage apart,
    indented_append _ apart']
  exact (indented_suffix _ text).isInfix.trans
    ⟨indented margin false before, _, List.append_assoc ..⟩

theorem Unbroken.of_cons {c : Char} {rest : List Char} (unbroken : Unbroken (c :: rest)) :
    Unbroken rest := by
  intro before after split
  obtain ⟨newlines, plain⟩ := unbroken (c :: before) after (by rw [split, List.cons_append])
  refine ⟨newlines, fun carriage => plain ?_⟩
  rw [List.getLast?_cons, Option.mem_def.mp carriage]
  rfl

theorem Unbroken.cons {c : Char} {rest : List Char} (unbroken : Unbroken rest) (ordinary : c ≠ '\n')
    (unpaired : ∀ more, c = '\r' → rest = '\n' :: more → False) : Unbroken (c :: rest) := by
  intro before after split
  cases before with
  | nil => exact absurd (List.cons.inj split).1 ordinary
  | cons d before =>
    obtain ⟨rfl, split'⟩ := List.cons.inj split
    obtain ⟨newlines, plain⟩ := unbroken before after split'
    refine ⟨newlines, fun carriage => ?_⟩
    cases before with
    | nil => exact unpaired after (Option.some.inj carriage) split'
    | cons e before => exact plain (by rwa [List.getLast?_cons_cons] at carriage)

theorem unbroken_of_not_mem {text : List Char} (no_line : '\n' ∉ text) : Unbroken text := by
  rintro before after rfl
  exact absurd (List.mem_append_right before List.mem_cons_self) no_line

theorem unbroken_of_newlines {text : List Char} (newlines : ∀ c ∈ text, c = '\n') :
    Unbroken text := by
  rintro before after rfl
  refine ⟨fun c member => newlines c (by simp [member]), fun carriage => ?_⟩
  cases newlines '\r' (List.mem_append_left _ (List.mem_of_getLast? carriage))

theorem indented_newlines (begun : Bool) {text : List Char} (newlines : ∀ c ∈ text, c = '\n') :
    indented margin begun text = text := by
  induction text generalizing begun with
  | nil => rfl
  | cons c rest ih =>
    obtain rfl := newlines c List.mem_cons_self
    exact congrArg ('\n' :: ·) (ih false fun d member => newlines d (List.mem_cons_of_mem _ member))

theorem Unbroken.indented_eq {text : List Char} (unbroken : Unbroken text) :
    indented margin true text = text := by
  induction text with
  | nil => rfl
  | cons c rest ih =>
    by_cases newline : c = '\n'
    · subst newline
      exact congrArg ('\n' :: ·) (indented_newlines false (unbroken [] rest rfl).1)
    · have unpaired : ∀ more, c = '\r' → rest = '\n' :: more → False := by
        rintro more rfl rfl
        exact (unbroken ['\r'] more rfl).2 rfl
      rw [indented.eq_4 _ _ _ _ newline unpaired, ih unbroken.of_cons]
      rfl

/-- A text is never the same as its lines with margins behind a few characters: it would begin with
these characters over and over. -/
theorem ne_append_indented {front : List Char} (some_char : front ≠ []) (no_line : '\n' ∉ front)
    (no_return : '\r' ∉ front) (text : List Char) : text ≠ front ++ indented margin true text := by
  intro same
  have apart : Apart front (indented margin true text) := fun carriage =>
    absurd (List.mem_of_getLast? carriage) no_return
  have begun : begunBehind true front = true := by
    rw [begunBehind]
    cases last : front.getLast? with
    | none => rfl
    | some c =>
      have plain : c ≠ '\n' := fun newline => no_line (newline ▸ List.mem_of_getLast? last)
      exact bne_iff_ne.mpr plain
  have again : indented margin true text =
      front ++ indented margin true (indented margin true text) :=
    calc indented margin true text
        = indented margin true (front ++ indented margin true text) := by rw [← same]
      _ = indented margin true front ++
            indented margin (begunBehind true front) (indented margin true text) :=
          indented_append true apart
      _ = front ++ indented margin true (indented margin true text) := by
          rw [(unbroken_of_not_mem no_line).indented_eq, begun]
  have shorter : (indented margin true text).length < text.length := by
    have lengths := congrArg List.length same
    rw [List.length_append] at lengths
    have positive := List.length_pos_iff.mpr some_char
    omega
  exact ne_append_indented some_char no_line no_return (indented margin true text) again
termination_by text.length

theorem newlines_of_indented_eq (some_char : margin ≠ []) (no_line : '\n' ∉ margin)
    (no_return : '\r' ∉ margin) {text : List Char} (same : indented margin false text = text) :
    ∀ c ∈ text, c = '\n' := by
  generalize fresh : false = begun at same
  fun_induction indented margin begun text with
  | case1 => exact nofun
  | case2 begun rest ih =>
    intro c member
    rcases List.mem_cons.mp member with rfl | later
    · rfl
    · exact ih rfl (List.cons.inj same).2 c later
  | case3 => cases (List.cons.inj same).1
  | case4 begun c rest ordinary unpaired =>
    subst fresh
    cases margin with
    | nil => exact absurd rfl some_char
    | cons d margin =>
      obtain ⟨rfl, same'⟩ := List.cons.inj same
      have circular : rest = (margin ++ [d]) ++ indented (d :: margin) true rest := same'.symm
      refine absurd circular (ne_append_indented (by simp) ?_ ?_ rest)
      · rw [List.mem_append, List.mem_singleton, or_comm]
        exact fun newline => no_line (List.mem_cons.mpr newline)
      · rw [List.mem_append, List.mem_singleton, or_comm]
        exact fun carriage => no_return (List.mem_cons.mpr carriage)

theorem indented_eq_iff (some_char : margin ≠ []) (no_line : '\n' ∉ margin)
    (no_return : '\r' ∉ margin) (text : List Char) :
    indented margin true text = text ↔ Unbroken text := by
  refine ⟨fun same => ?_, Unbroken.indented_eq⟩
  generalize inside : true = begun at same
  fun_induction indented margin begun text with
  | case1 => exact unbroken_of_not_mem List.not_mem_nil
  | case2 begun rest =>
    have newlines :=
      newlines_of_indented_eq some_char no_line no_return (List.cons.inj same).2
    exact unbroken_of_newlines (List.forall_mem_cons.mpr ⟨rfl, newlines⟩)
  | case3 => cases (List.cons.inj same).1
  | case4 begun c rest ordinary unpaired ih =>
    subst inside
    exact (ih rfl (List.cons.inj same).2).cons ordinary unpaired

end Text

namespace DefinedStatement

def text : DefinedStatement → String
  | inBlock text => text
  | behindBlock text => text

/-- The text as it stands in the body of a definition. One behind the block has a line of its own. -/
def written : DefinedStatement → String
  | inBlock text => text
  | behindBlock text => text ++ "\n"

theorem text_prefix_written (statement : DefinedStatement) :
    statement.text.toList <+: statement.written.toList := by
  cases statement with
  | inBlock text => exact List.prefix_rfl
  | behindBlock text => exact ⟨"\n".toList, String.toList_append.symm⟩

end DefinedStatement

section Body

open Text

theorem foldl_line (buffer : Buffer) (lines : List String) :
    (lines.foldl Buffer.line buffer).finish = buffer.finish ++ linesText lines := by
  induction lines generalizing buffer with
  | nil => simp [linesText]
  | cons line lines ih =>
    have step : (buffer.line line).finish = buffer.finish ++ (line ++ "\n") := by
      cases state : buffer.state <;>
        simp [Buffer.line, Buffer.append, Buffer.finish, Buffer.endBlock, state]
    rw [List.foldl_cons, ih, step, linesText, linesText, List.map_cons, String.join_cons,
      String.append_assoc]

def subjectBlock (statements : List String) : String :=
  if statements.isEmpty then "" else blockText subjectToken statements

theorem definitionBody_eq (statements : List DefinedStatement) :
    Session.definitionBody statements =
      subjectBlock (statements.filterMap DefinedStatement.inBlock?) ++
        linesText (statements.filterMap DefinedStatement.behindBlock?) := by
  rw [Session.definitionBody, foldl_line, subjectBlock]
  split
  · rfl
  · rw [← Session.block_eq, Session.block]

theorem linesText_append (first second : List String) :
    linesText (first ++ second) = linesText first ++ linesText second := by
  rw [linesText, List.map_append, String.join_append]
  rfl

theorem linesText_cons (line : String) (lines : List String) :
    linesText (line :: lines) = line ++ "\n" ++ linesText lines := by
  rw [linesText, List.map_cons, String.join_cons]
  rfl

theorem endsLines_linesText (lines : List String) : EndsLines (linesText lines).toList := by
  induction lines with
  | nil => exact nofun
  | cons line lines ih =>
    rw [linesText_cons, String.toList_append, String.toList_append]
    exact (endsLines_append line.toList rfl).append ih

theorem endsLines_subjectBlock (statements : List String) :
    EndsLines (subjectBlock statements).toList := by
  rw [subjectBlock]
  split
  · exact nofun
  · rw [blockText, String.toList_append]
    exact endsLines_append _ rfl

theorem intercalate_split (separator text : String) (first rest : List String) :
    separator.intercalate (first ++ text :: rest) =
      String.join (first.map (· ++ separator)) ++ text ++
        String.join (rest.map (separator ++ ·)) := by
  induction first with
  | nil => simp [intercalate_cons]
  | cons head first ih =>
    have more : first ++ text :: rest ≠ [] := by simp
    rw [List.cons_append, String.intercalate_cons_of_ne_nil more, ih, List.map_cons,
      String.join_cons]
    simp only [String.append_assoc]

/-- The body has the text in a place where it shares no line end with what surrounds it. -/
def PlacedIn (body text : String) : Prop :=
  ∃ before after, body = before ++ text ++ after ∧ '\r' ∉ before.toList.getLast? ∧
    Apart text.toList after.toList

theorem getLast?_indented {head : String} (spaced : head.toList.getLast? = some ' ')
    (statements : List String) :
    (head ++ String.join (statements.map (· ++ ";\n    "))).toList.getLast? = some ' ' := by
  induction statements generalizing head with
  | nil => simpa using spaced
  | cons statement statements ih =>
    rw [List.map_cons, String.join_cons, ← String.append_assoc]
    apply ih
    rw [String.toList_append, String.toList_append, List.getLast?_append, List.getLast?_append]
    rfl

theorem subjectBlock_placed {text : String} {statements : List String} (after : String)
    (member : text ∈ statements) : PlacedIn (subjectBlock statements ++ after) text := by
  obtain ⟨first, rest, rfl⟩ := List.append_of_mem member
  have some_statement : ¬(first ++ text :: rest).isEmpty := by simp
  refine ⟨subjectToken ++ "\n    " ++ String.join (first.map (· ++ ";\n    ")),
    String.join (rest.map (";\n    " ++ ·)) ++ " .\n" ++ after, ?_, ?_, ?_⟩
  · rw [subjectBlock, if_neg some_statement, blockText, if_neg some_statement, intercalate_split]
    simp only [String.append_assoc]
  · rw [getLast?_indented rfl]
    decide
  · intro _ newline
    cases rest with
    | nil => simp at newline
    | cons statement rest => simp at newline

theorem linesText_placed {line before : String} {lines : List String}
    (ends : EndsLines before.toList) (member : line ∈ lines) :
    PlacedIn (before ++ linesText lines) (line ++ "\n") := by
  obtain ⟨first, rest, rfl⟩ := List.append_of_mem member
  refine ⟨before ++ linesText first, linesText rest, ?_, fun carriage => ?_, fun carriage => ?_⟩
  · rw [linesText_append, linesText_cons]
    simp only [String.append_assoc]
  · rw [String.toList_append] at carriage
    cases ends.append (endsLines_linesText first) _ carriage
  · rw [String.toList_append] at carriage
    cases endsLines_append line.toList rfl _ carriage

theorem definitionBody_placed {statements : List DefinedStatement} {statement : DefinedStatement}
    (member : statement ∈ statements) :
    PlacedIn (Session.definitionBody statements) statement.written := by
  rw [definitionBody_eq]
  cases statement with
  | inBlock text =>
    exact subjectBlock_placed _ (List.mem_filterMap.mpr ⟨.inBlock text, member, rfl⟩)
  | behindBlock text =>
    exact linesText_placed (endsLines_subjectBlock _)
      (List.mem_filterMap.mpr ⟨.behindBlock text, member, rfl⟩)

theorem indentLines_eq {margin text : String} (ends : EndsLines text.toList) :
    (indentLines margin text).toList = indented margin.toList false text.toList := by
  rw [indentLines, String.toList_ofList]
  exact (indented_lines ends).1

theorem endsLines_definitionBody (statements : List DefinedStatement) :
    EndsLines (Session.definitionBody statements).toList := by
  rw [definitionBody_eq, String.toList_append]
  exact (endsLines_subjectBlock _).append (endsLines_linesText _)

end Body

namespace Session

open Text

theorem indent_eq : indent.toList ≠ [] ∧ '\n' ∉ indent.toList ∧ '\r' ∉ indent.toList := by decide

/-- A definition has each of its statements with a margin in front of every line that begins inside
of it. This is the statement itself, character for character, exactly if no line begins inside of it:
behind a line end in a literal stands a margin that the literal does not have. -/
theorem define_statements {s : Session} {t : Template} {text : String}
    (defined : s.define t = .ok text) :
    ∃ statements, (Entry.ungroupAll t.entries).mapM (s.entryText t.name) = .ok statements ∧
      ∀ statement ∈ statements,
        indented indent.toList true statement.written.toList <:+: text.toList ∧
          (indented indent.toList true statement.written.toList = statement.written.toList ↔
            Unbroken statement.written.toList) ∧
          (Unbroken statement.written.toList → statement.text.toList <:+: text.toList) := by
  obtain ⟨statements, listed, rfl⟩ := define_eq defined
  refine ⟨statements, listed, fun statement member => ?_⟩
  have inside : indented indent.toList true statement.written.toList <:+:
      (indentLines indent (definitionBody statements)).toList := by
    obtain ⟨before, after, body, apart, apart'⟩ := definitionBody_placed member
    rw [indentLines_eq (endsLines_definitionBody _), body, String.toList_append,
      String.toList_append]
    exact indented_infix apart apart'
  have placed := inside.trans
    (List.infix_append ("def " ++ t.invocation t.parameters ++ "\n").toList _ "end\n".toList)
  rw [← String.toList_append, ← String.toList_append] at placed
  have changed := indented_eq_iff indent_eq.1 indent_eq.2.1 indent_eq.2.2 statement.written.toList
  refine ⟨placed, changed, fun unbroken => ?_⟩
  rw [changed.mpr unbroken] at placed
  exact statement.text_prefix_written.isInfix.trans placed

theorem loop_defined :
    ∃ text, villageSession.define loopTemplate = .ok text ∧
      "$type($type : $topic)".toList <:+: text.toList := by
  refine ⟨_, rfl, ?_⟩
  obtain ⟨statements, listed, placed⟩ :=
    define_statements (s := villageSession) (t := loopTemplate) rfl
  obtain rfl : [.behindBlock "$type($type : $topic)"] = statements := Except.ok.inj listed
  obtain ⟨_, unaltered, verbatim⟩ := placed _ List.mem_cons_self
  exact verbatim (unaltered.mp (by decide))

def noteTemplate : Template :=
  ⟨"note", .topic, [.statement (.occurrence {
    type := .fixed ⟨0⟩, value := "first\nsecond", datatype := Iri.string })]⟩

def noteText : String := "<http://t.example/village>: \"first\nsecond\""

/-- The definition says another literal than the template. -/
theorem note_altered :
    noteTemplate.validate = .ok () ∧
      (Entry.ungroupAll noteTemplate.entries).mapM (villageSession.entryText noteTemplate.name) =
        .ok [.inBlock noteText] ∧
      ∃ text, villageSession.define noteTemplate = .ok text ∧ ¬noteText.toList <:+: text.toList := by
  refine ⟨by rfl, by rfl, _, rfl, ?_⟩
  decide +kernel

end Session
end CompactTopicMap
