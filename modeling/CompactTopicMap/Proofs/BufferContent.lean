import CompactTopicMap.Proofs.DocumentLayout
import Mathlib.Data.List.DropRight

/-! The operations on a buffer, read as lines, texts and blocks. -/

namespace CompactTopicMap
namespace Buffer

inductive Op where
  | line (text : String)
  | append (text : String)
  | blank
  | comment (text : String)
  | beginBlock (head : String)
  | statement (text : String)
  | endBlock
  | take
  deriving DecidableEq, Repr

structure Run where
  taken : List String := []
  buffer : Buffer := {}
  deriving DecidableEq, Repr

def Run.perform (run : Run) : Op → Run
  | .line text => { run with buffer := run.buffer.line text }
  | .append text => { run with buffer := run.buffer.append text }
  | .blank => { run with buffer := run.buffer.blank }
  | .comment text => { run with buffer := run.buffer.comment text }
  | .beginBlock head => { run with buffer := run.buffer.beginBlock head }
  | .statement text => { run with buffer := run.buffer.statement text }
  | .endBlock => { run with buffer := run.buffer.endBlock }
  | .take => { taken := run.taken ++ [run.buffer.take.2], buffer := run.buffer.take.1 }

/-- The operations on a new buffer. -/
def run (ops : List Op) : Run := ops.foldl Run.perform {}

def Run.output (run : Run) : String := String.join run.taken ++ run.buffer.finish

structure Block where
  head : String
  statements : List String
  deriving DecidableEq, Repr

inductive Item where
  | verbatim (text : String)
  | block (block : Block)
  deriving DecidableEq, Repr

def Block.unterminated (block : Block) : String :=
  let body := if block.statements.isEmpty then "" else
    "\n    " ++ ";\n    ".intercalate block.statements
  block.head ++ body

def Item.render : Item → String
  | verbatim s => s
  | block b => blockText b.head b.statements

def itemsText (items : List Item) : String := String.join (items.map Item.render)

/-- Complete items, and behind them a block to which statements can be added. -/
structure Content where
  items : List Item := []
  opened : Option Block := none
  deriving DecidableEq, Repr

namespace Content

def all (content : Content) : List Item := content.items ++ content.opened.toList.map .block

def text (content : Content) : String :=
  itemsText content.items ++ content.opened.elim "" Block.unterminated

def behind (items : List Item) (content : Content) : Content :=
  { content with items := items ++ content.items }

end Content

namespace Op

def isTake : Op → Bool
  | take => true
  | _ => false

def items : Op → List Item
  | line text | statement text => [.verbatim (text ++ "\n")]
  | append text => [.verbatim text]
  | blank => [.verbatim "\n"]
  | comment text => [.verbatim ("# " ++ text ++ "\n")]
  | beginBlock _ | endBlock | take => []

end Op

def leading : List Op → List String
  | .statement text :: ops => text :: leading ops
  | _ => []

def following : List Op → List Op
  | .statement _ :: ops => following ops
  | ops => ops

theorem length_following_le (ops : List Op) : (following ops).length ≤ ops.length := by
  fun_induction following ops with
  | case1 text ops ih => exact Nat.le_succ_of_le ih
  | case2 ops => exact Nat.le_refl _

/-- Reads operations as items. A block has the statements up to the first other operation, and it is
open if there is none. -/
def content : List Op → Content
  | [] => {}
  | .beginBlock head :: ops =>
    let block : Block := ⟨head, leading ops⟩
    if following ops = [] then { opened := some block }
    else (content (following ops)).behind [.block block]
  | op :: ops => (content ops).behind op.items
termination_by ops => ops.length
decreasing_by
  · exact Nat.lt_succ_of_le (length_following_le ops)
  · exact Nat.lt_succ_self _

def Content.add (content : Content) : Op → Content
  | .statement text =>
    match content.opened with
    | some block =>
      { content with opened := some { block with statements := block.statements ++ [text] } }
    | none => { content with items := content.items ++ [.verbatim (text ++ "\n")] }
  | .beginBlock head => { items := content.all, opened := some ⟨head, []⟩ }
  | op => { items := content.all ++ op.items }

theorem Content.add_behind (front : List Item) (content : Content) (op : Op) :
    (content.behind front).add op = (content.add op).behind front := by
  obtain ⟨items, opened⟩ := content
  cases op <;> cases opened <;> simp [add, behind, all]

theorem Content.add_of_leading {content : Content} {op : Op} (other : leading [op] = []) :
    content.add op = (Content.add {} op).behind content.all := by
  cases op with
  | statement text => cases other
  | line | append | blank | comment | beginBlock | endBlock | take => simp [add, behind, all]

theorem leading_concat_of_ended {ops : List Op} (ended : following ops = []) (op : Op) :
    leading (ops ++ [op]) = leading ops ++ leading [op] ∧
      following (ops ++ [op]) = following [op] := by
  fun_induction following ops with
  | case1 text ops ih => exact (ih ended).imp_left (congrArg (text :: ·))
  | case2 ops =>
    subst ended
    exact ⟨rfl, rfl⟩

theorem leading_concat_of_further {ops : List Op} (further : following ops ≠ []) (op : Op) :
    leading (ops ++ [op]) = leading ops ∧ following (ops ++ [op]) = following ops ++ [op] := by
  fun_induction following ops with
  | case1 text ops ih => exact (ih further).imp_left (congrArg (text :: ·))
  | case2 ops other =>
    obtain ⟨first, rest, rfl⟩ := List.exists_cons_of_ne_nil further
    cases first with
    | statement text => exact absurd rfl (other text rest)
    | line | append | blank | comment | beginBlock | endBlock | take => exact ⟨rfl, rfl⟩

theorem content_concat (ops : List Op) (op : Op) :
    content (ops ++ [op]) = (content ops).add op := by
  have single : content [op] = Content.add {} op := by
    cases op <;>
      simp [content, Content.add, Content.behind, Content.all, Op.items, leading, following]
  fun_induction content ops with
  | case1 => exact single
  | case2 head ops block ended =>
    -- A statement goes on with the block, and any other operation ends it.
    obtain ⟨statements, rest⟩ := leading_concat_of_ended ended op
    rw [List.cons_append, content, statements, rest]
    cases op with
    | statement text => rfl
    | line | append | blank | comment | beginBlock | endBlock | take =>
      rw [Content.add_of_leading rfl, ← single]
      simp [following, leading, Content.all, block]
  | case3 head ops block further ih =>
    obtain ⟨statements, rest⟩ := leading_concat_of_further further op
    rw [List.cons_append, content, statements, rest,
      if_neg (List.append_ne_nil_of_left_ne_nil further _), ih, Content.add_behind]
  | case4 other ops ordinary ih =>
    rw [List.cons_append, content, ih, Content.add_behind]
    exact ordinary

section Shown

variable {front : String} {run : Run} {buffer : Buffer} {c : Content} {op : Op}

theorem itemsText_append (items others : List Item) :
    itemsText (items ++ others) = itemsText items ++ itemsText others := by
  rw [itemsText, List.map_append, String.join_append]
  rfl

theorem itemsText_verbatim (text : String) : itemsText [.verbatim text] = text := by
  simp [itemsText, Item.render]

theorem itemsText_block (block : Block) :
    itemsText [.block block] = block.unterminated ++ " .\n" := by
  simp [itemsText, Item.render, Block.unterminated, blockText, String.append_assoc]

theorem Block.unterminated_concat (block : Block) (text : String) :
    Block.unterminated { block with statements := block.statements ++ [text] } =
      block.unterminated ++ (if block.statements.isEmpty then "\n    " else ";\n    ") ++ text := by
  obtain ⟨head, statements⟩ := block
  cases statements with
  | nil => simp [unterminated, String.append_assoc]
  | cons first rest =>
    simp [unterminated, intercalate_cons, String.join_append, String.append_assoc]

/-- Behind the given text, the buffer has the text of the content, and its state says whether there
is an open block, and whether this has a statement. -/
inductive Shows (front : String) : Buffer → Content → Prop
  | closed {text : String} {items : List Item} (same : front ++ text = itemsText items) :
    Shows front ⟨text, .closed⟩ { items }
  | headed {text head : String} {items : List Item}
    (same : front ++ text = itemsText items ++ head) :
    Shows front ⟨text, .headed⟩ { items, opened := some ⟨head, []⟩ }
  | stated {text : String} {items : List Item} {block : Block} (stated : block.statements ≠ [])
    (same : front ++ text = itemsText items ++ block.unterminated) :
    Shows front ⟨text, .stated⟩ { items, opened := some block }

namespace Shows

theorem text (shows : Shows front buffer c) : front ++ buffer.text = c.text := by
  cases shows with
  | closed same => simpa [Content.text] using same
  | headed same => simpa [Content.text, Block.unterminated] using same
  | stated _ same => exact same

theorem isBlockOpen (shows : Shows front buffer c) : buffer.isBlockOpen = c.opened.isSome := by
  cases shows <;> rfl

theorem endBlock (shows : Shows front buffer c) :
    Shows front buffer.endBlock { items := c.all } := by
  have ended {text : String} {block : Block} {items : List Item}
      (same : front ++ text = itemsText items ++ block.unterminated) :
      Shows front ⟨text ++ " .\n", .closed⟩ { items := items ++ [.block block] } := by
    refine .closed ?_
    rw [itemsText_append, itemsText_block, ← String.append_assoc, same, String.append_assoc]
  cases shows with
  | closed same => exact .closed (by simpa [Content.all] using same)
  | headed same => exact ended (by simpa [Block.unterminated] using same)
  | stated _ same => exact ended same

theorem finish (shows : Shows front buffer c) : front ++ buffer.finish = itemsText c.all :=
  shows.endBlock.text.trans String.append_empty

theorem append (shows : Shows front buffer c) (text : String) :
    Shows front (buffer.append text) { items := c.all ++ [.verbatim text] } := by
  have ended := shows.endBlock
  rw [Buffer.append]
  generalize buffer.endBlock = closed at ended
  cases ended with
  | closed same =>
    refine .closed ?_
    rw [itemsText_append, itemsText_verbatim, ← same, String.append_assoc]

theorem beginBlock (shows : Shows front buffer c) (head : String) :
    Shows front (buffer.beginBlock head) { items := c.all, opened := some ⟨head, []⟩ } := by
  have before := shows.finish
  refine .headed ?_
  rw [← before, String.append_assoc]
  rfl

theorem statement (shows : Shows front buffer c) (text : String) :
    Shows front (buffer.statement text) (c.add (.statement text)) := by
  cases shows with
  | @closed before items same =>
    have line : Shows front (Buffer.line ⟨before, .closed⟩ text)
        { items := items ++ [] ++ [.verbatim (text ++ "\n")] } :=
      (Shows.closed same).append (text ++ "\n")
    rwa [List.append_nil] at line
  | @headed before head items same =>
    refine .stated (List.cons_ne_nil text []) ?_
    calc front ++ (before ++ "\n" ++ indent ++ text)
        = front ++ before ++ ("\n    " ++ text) := by simp [indent, String.append_assoc]
      _ = itemsText items ++ Block.unterminated ⟨head, [text]⟩ := by
          rw [same]
          simp [Block.unterminated, String.append_assoc]
  | @stated before items block some_statement same =>
    refine .stated (List.concat_ne_nil text block.statements) ?_
    calc front ++ (before ++ ";\n" ++ indent ++ text)
        = front ++ before ++ (";\n    " ++ text) := by simp [indent, String.append_assoc]
      _ = itemsText items ++
            Block.unterminated { block with statements := block.statements ++ [text] } := by
          rw [same, Block.unterminated_concat, List.isEmpty_eq_false_iff.mpr some_statement]
          simp [String.append_assoc]

theorem perform (shows : Shows front run.buffer c) (other : op ≠ .take) :
    Shows front (run.perform op).buffer (c.add op) := by
  cases op with
  | line text => exact shows.append (text ++ "\n")
  | append text => exact shows.append text
  | blank => exact shows.append "\n"
  | comment text => exact shows.append ("# " ++ text ++ "\n")
  | beginBlock head => exact shows.beginBlock head
  | statement text => exact shows.statement text
  | endBlock =>
    have ended := shows.endBlock
    rwa [← List.append_nil c.all] at ended
  | take => exact absurd rfl other

end Shows

end Shown

section Runs

theorem run_concat (ops : List Op) (op : Op) : run (ops ++ [op]) = (run ops).perform op :=
  List.foldl_append

theorem Run.taken_perform {run : Run} {op : Op} (other : op ≠ .take) :
    (run.perform op).taken = run.taken := by
  cases op with
  | take => exact absurd rfl other
  | line | append | blank | comment | beginBlock | statement | endBlock => rfl

theorem run_shows (ops : List Op) :
    Shows (String.join (run ops).taken) (run ops).buffer (content ops) := by
  induction ops using List.reverseRecOn with
  | nil =>
    rw [content]
    exact .closed rfl
  | append_singleton ops op ih =>
    rw [run_concat, content_concat]
    by_cases take : op = .take
    · subst take
      have finished := ih.finish
      refine .closed ?_
      simp [Run.perform, Buffer.take, Op.items, String.join_append, finished]
    · rw [Run.taken_perform take]
      exact ih.perform take

def sinceTake (ops : List Op) : List Op := ops.rtakeWhile (!·.isTake)

theorem run_shows_since (ops : List Op) : Shows "" (run ops).buffer (content (sinceTake ops)) := by
  induction ops using List.reverseRecOn with
  | nil =>
    rw [sinceTake, List.rtakeWhile_nil, content]
    exact .closed rfl
  | append_singleton ops op ih =>
    rw [run_concat, sinceTake, List.rtakeWhile_concat]
    by_cases take : op = .take
    · subst take
      rw [if_neg (by simp [Op.isTake]), content]
      exact .closed rfl
    · have further : (!op.isTake) = true := by
        cases op with
        | take => exact absurd rfl take
        | line | append | blank | comment | beginBlock | statement | endBlock => rfl
      rw [if_pos further, content_concat]
      exact ih.perform take

theorem Content.add_opened_headed {c : Content} {op : Op} {head : String} :
    (c.add op).opened = some ⟨head, []⟩ ↔ op = .beginBlock head := by
  cases op with
  | statement text =>
    obtain ⟨items, opened⟩ := c
    cases opened <;> simp [add]
  | line | append | blank | comment | beginBlock | endBlock | take => simp [add]

theorem Content.add_opened_stated {c : Content} {op : Op} {head last : String}
    {statements : List String} :
    (c.add op).opened = some ⟨head, statements ++ [last]⟩ ↔
      op = .statement last ∧ c.opened = some ⟨head, statements⟩ := by
  cases op with
  | statement text =>
    obtain ⟨items, opened⟩ := c
    cases opened with
    | none => simp [add]
    | some block =>
      obtain ⟨front, before⟩ := block
      simp only [add, Option.some.injEq, Block.mk.injEq, Op.statement.injEq,
        List.append_singleton_inj]
      tauto
  | line | append | blank | comment | beginBlock | endBlock | take => simp [add]

theorem content_opened_iff {ops : List Op} {block : Block} :
    (content ops).opened = some block ↔
      ∃ before, ops = before ++ .beginBlock block.head :: block.statements.map .statement := by
  obtain ⟨head, statements⟩ := block
  induction ops using List.reverseRecOn generalizing statements with
  | nil => simp [content]
  | append_singleton ops op ih =>
    rw [content_concat]
    rcases List.eq_nil_or_concat statements with rfl | ⟨earlier, last, rfl⟩
    · rw [Content.add_opened_headed]
      simp
    · rw [List.concat_eq_append, Content.add_opened_stated, ih]
      constructor
      · rintro ⟨rfl, before, rfl⟩
        exact ⟨before, by simp⟩
      · rintro ⟨before, split⟩
        have parts : ops ++ [op] =
            (before ++ .beginBlock head :: earlier.map .statement) ++ [.statement last] := by
          simpa using split
        obtain ⟨rfl, rfl⟩ := List.append_singleton_inj.mp parts
        exact ⟨rfl, before, rfl⟩

/-- All that is taken from a buffer, with what is left in the end, is the text of the items that the
operations stand for, in order. At each moment the buffer has the text of the complete items since
the last take and, without its point, of the open block: there is one exactly if since the last take
nothing but statements has followed the last head. A take then gives the text of all these items. -/
theorem run_renders (ops : List Op) :
    let since := content (sinceTake ops)
    (run ops).output = itemsText (content ops).all ∧
      (run ops).buffer.text =
        itemsText since.items ++ since.opened.elim "" Block.unterminated ∧
      (run ops).buffer.isBlockOpen = since.opened.isSome ∧
      (∀ block, since.opened = some block ↔ ∃ before,
        sinceTake ops = before ++ .beginBlock block.head :: block.statements.map .statement) ∧
      (run ops).buffer.take = ({}, itemsText since.all) := by
  intro since
  have shows := run_shows_since ops
  have text := shows.text
  have finish := shows.finish
  rw [String.empty_append] at text finish
  exact ⟨(run_shows ops).finish, text, shows.isBlockOpen, fun block => content_opened_iff,
    congrArg (Prod.mk _) finish⟩

example : (run [.beginBlock "a", .statement "b", .statement "c", .take, .statement "d",
    .beginBlock "e"]).output = "a\n    b;\n    c .\nd\ne .\n" := by rfl

end Runs

end Buffer
end CompactTopicMap
