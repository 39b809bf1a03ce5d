import CompactTopicMap.Proofs.Reference
import Mathlib.Data.List.Nodup

/-! Pieces of text with the constructs that they stand for. -/

namespace CompactTopicMap

structure Emission where
  before : Written
  text : String
  constructs : List Construct
  after : Written

namespace Emission

/-- What the piece stands for was not written before, and is what it adds. -/
structure Once (e : Emission) : Prop where
  distinct : e.constructs.Nodup
  fresh : ∀ c ∈ e.constructs, c ∉ e.before
  marked : ∀ c, c ∈ e.after ↔ c ∈ e.constructs ∨ c ∈ e.before

theorem once_mark {p : Progress} {c : Construct} (text : String) (fresh : c ∉ p.written) :
    Once ⟨p.written, text, [c], (p.mark c).written⟩ where
  distinct := List.nodup_singleton c
  fresh := by
    intro other member
    exact List.mem_singleton.mp member ▸ fresh
  marked := by
    intro other
    rw [List.mem_singleton]
    exact Written.mem_insert

theorem once_markAll {p : Progress} {cs : List Construct} (text : String) (distinct : cs.Nodup)
    (fresh : ∀ c ∈ cs, c ∉ p.written) :
    Once ⟨p.written, text, cs, (p.markAll cs).written⟩ :=
  ⟨distinct, fresh, fun _ => Written.mem_insertAll⟩

end Emission

inductive Chain (Good : Emission → Prop) : Written → List Emission → Written → Prop where
  | nil (written : Written) : Chain Good written [] written
  | cons {e : Emission} {es : List Emission} {stop : Written} (once : e.Once) (good : Good e)
    (rest : Chain Good e.after es stop) : Chain Good e.before (e :: es) stop

namespace Chain

variable {Good : Emission → Prop} {start middle stop : Written} {es : List Emission}

theorem append {more : List Emission} (first : Chain Good start es middle)
    (second : Chain Good middle more stop) : Chain Good start (es ++ more) stop := by
  induction first with
  | nil => exact second
  | cons once good _ ih => exact .cons once good (ih second)

theorem eq_of_nil (chain : Chain Good start [] stop) : stop = start := by
  cases chain
  rfl

theorem imp {Better : Emission → Prop} (better : ∀ e, Good e → Better e)
    (chain : Chain Good start es stop) : Chain Better start es stop := by
  induction chain with
  | nil => exact .nil _
  | cons once good _ ih => exact .cons once (better _ good) ih

theorem once (chain : Chain Good start es stop) : ∀ e ∈ es, e.Once := by
  induction chain with
  | nil => simp
  | cons once _ _ ih => simpa [once] using ih

theorem good (chain : Chain Good start es stop) : ∀ e ∈ es, Good e := by
  induction chain with
  | nil => simp
  | cons _ good _ ih => simpa [good] using ih

theorem mem_iff (chain : Chain Good start es stop) (c : Construct) :
    c ∈ stop ↔ c ∈ start ∨ c ∈ es.flatMap Emission.constructs := by
  induction chain with
  | nil => simp
  | cons once _ _ ih =>
    rw [ih, once.marked, List.flatMap_cons, List.mem_append, or_assoc, or_left_comm]

theorem fresh (chain : Chain Good start es stop) {c : Construct}
    (member : c ∈ es.flatMap Emission.constructs) : c ∉ start := by
  induction chain with
  | nil => cases member
  | cons once _ _ ih =>
    rw [List.flatMap_cons, List.mem_append] at member
    rcases member with here | later
    · exact once.fresh c here
    · intro old
      exact ih later ((once.marked c).mpr (.inr old))

theorem nodup (chain : Chain Good start es stop) :
    (es.flatMap Emission.constructs).Nodup := by
  induction chain with
  | nil => exact List.nodup_nil
  | cons once _ rest ih =>
    rw [List.flatMap_cons, List.nodup_append]
    refine ⟨once.distinct, ih, ?_⟩
    intro c here d later same
    exact rest.fresh (same ▸ later) ((once.marked c).mpr (.inl here))

theorem mem_before (chain : Chain Good start es stop) {e : Emission} (member : e ∈ es)
    {c : Construct} (old : c ∈ start) : c ∈ e.before := by
  induction chain with
  | nil => cases member
  | cons once _ _ ih =>
    rcases List.mem_cons.mp member with rfl | later
    · exact old
    · exact ih later ((once.marked c).mpr (.inr old))

theorem pairwise (chain : Chain Good start es stop) :
    es.Pairwise fun e later => ∀ c, c ∈ e.after → c ∈ later.before := by
  induction chain with
  | nil => exact .nil
  | cons _ _ rest ih =>
    refine List.pairwise_cons.mpr ⟨?_, ih⟩
    intro later member c old
    exact rest.mem_before member old

end Chain

variable {α β γ : Type} {construct : α → Construct}

theorem encodeUnwritten_map {encode : Progress → α → Progress × Option β}
    {shown : Progress → α → Progress × Option γ} (f : β → γ)
    (same : ∀ p item, shown p item = ((encode p item).1, (encode p item).2.map f))
    (items : List α) (p : Progress) :
    Session.encodeUnwritten construct shown items p =
      ((Session.encodeUnwritten construct encode items p).1,
        (Session.encodeUnwritten construct encode items p).2.map f) := by
  induction items generalizing p with
  | nil => rfl
  | cons item items ih =>
    by_cases present : construct item ∈ p.written
    · rw [Session.encodeUnwritten_cons_of_mem present, Session.encodeUnwritten_cons_of_mem present]
      exact ih p
    · rcases encoded : encode p item with ⟨q, none | text⟩
      · have dropped : shown p item = (q, none) := by
          rw [same, encoded, Option.map_none]
        rw [Session.encodeUnwritten_cons_of_none present dropped,
          Session.encodeUnwritten_cons_of_none present encoded]
        exact ih q.skip
      · have kept : shown p item = (q, some (f text)) := by
          rw [same, encoded, Option.map_some]
        rw [Session.encodeUnwritten_cons_of_some present kept,
          Session.encodeUnwritten_cons_of_some present encoded, ih q, List.map_cons]

def emitting (constructs : Progress → α → List Construct)
    (encode : Progress → α → Progress × Option String) (p : Progress) (item : α) :
    Progress × Option Emission :=
  ((encode p item).1,
    (encode p item).2.map fun text =>
      ⟨p.written, text, constructs p item, (encode p item).1.written⟩)

def emitUnwritten (construct : α → Construct) (constructs : Progress → α → List Construct)
    (encode : Progress → α → Progress × Option String) :
    List α → Progress → Progress × List Emission :=
  Session.encodeUnwritten construct (emitting constructs encode)

variable {constructs : Progress → α → List Construct}
  {encode : Progress → α → Progress × Option String}

theorem encodeUnwritten_eq_emitUnwritten (construct : α → Construct)
    (constructs : Progress → α → List Construct)
    (encode : Progress → α → Progress × Option String) (items : List α) (p : Progress) :
    Session.encodeUnwritten construct encode items p =
      ((emitUnwritten construct constructs encode items p).1,
        (emitUnwritten construct constructs encode items p).2.map Emission.text) := by
  apply encodeUnwritten_map
  intro p item
  cases encoded : encode p item with
  | mk q text => cases text <;> simp [emitting, encoded]

theorem emitUnwritten_chain {Good : Emission → Prop} {Encodable : α → Prop}
    {after : Progress → α → Progress} (encodes : Encodes Encodable after encode)
    (once : ∀ p item text, construct item ∉ p.written →
      Emission.Once ⟨p.written, text, constructs p item, (after p item).written⟩)
    (good : ∀ p item text, Good ⟨p.written, text, constructs p item, (after p item).written⟩)
    (items : List α) (p : Progress) :
    Chain Good p.written (emitUnwritten construct constructs encode items p).2
      (emitUnwritten construct constructs encode items p).1.written := by
  induction items generalizing p with
  | nil => exact .nil _
  | cons item items ih =>
    by_cases present : construct item ∈ p.written
    · rw [emitUnwritten, Session.encodeUnwritten_cons_of_mem present]
      exact ih p
    · rcases encodes p item with ⟨_, text, encoded⟩ | ⟨_, encoded⟩
      · have emitted : emitting constructs encode p item = (after p item,
            some ⟨p.written, text, constructs p item, (after p item).written⟩) := by
          simp only [emitting, encoded, Option.map_some]
        rw [emitUnwritten, Session.encodeUnwritten_cons_of_some present emitted]
        exact .cons (once p item text present) (good p item text) (ih _)
      · have dropped : emitting constructs encode p item = (p, none) := by
          simp only [emitting, encoded, Option.map_none]
        rw [emitUnwritten, Session.encodeUnwritten_cons_of_none present dropped]
        exact ih p.skip

end CompactTopicMap
