import CompactTopicMap.Proofs.Nesting
import CompactTopicMap.Template.Order

namespace CompactTopicMap

/-- The templates are listed under names of their own, each behind all that it invokes. -/
inductive InvokedFirst : List Template → Prop
  | nil : InvokedFirst []
  | concat {placed : List Template} {t : Template} (earlier : InvokedFirst placed)
    (invoked : Entry.withinAll t.entries ⊆ placed) (fresh : ∀ u ∈ placed, u.name ≠ t.name) :
    InvokedFirst (placed ++ [t])

namespace InvokedFirst

variable {placed before behind : List Template} {t : Template}

theorem names_nodup (ordered : InvokedFirst placed) : (placed.map Template.name).Nodup := by
  induction ordered with
  | nil => exact List.nodup_nil
  | @concat placed t _ _ fresh ih =>
    rw [List.map_append, List.map_singleton]
    refine ih.append (List.nodup_singleton _) (List.disjoint_singleton.mpr fun member => ?_)
    obtain ⟨u, earlier, same⟩ := List.mem_map.mp member
    exact fresh u earlier same

theorem within_subset_before (ordered : InvokedFirst placed)
    (split : placed = before ++ t :: behind) : Entry.withinAll t.entries ⊆ before := by
  induction ordered generalizing behind with
  | nil => simp at split
  | @concat placed last _ invoked _ ih =>
    rcases List.eq_nil_or_concat' behind with rfl | ⟨others, other, rfl⟩
    · obtain ⟨rfl, same⟩ := List.append_inj' split rfl
      exact (List.singleton_inj.mp same) ▸ invoked
    · rw [← List.cons_append, ← List.append_assoc] at split
      exact ih (List.append_inj' split rfl).1

theorem within_subset (ordered : InvokedFirst placed) (member : t ∈ placed) :
    Entry.withinAll t.entries ⊆ placed := by
  obtain ⟨before, behind, split⟩ := List.append_of_mem member
  rw [split]
  exact List.subset_append_of_subset_left _ (ordered.within_subset_before split)

end InvokedFirst

namespace Placement

def mark (p : Placement) (name : String) : Placement := { p with visited := name :: p.visited }

def put (p : Placement) (t : Template) : Placement := { p with placed := p.placed ++ [t] }

/-- The placed templates and those that are open are marked, and no others. -/
structure Sound (mentioned opened : List Template) (p : Placement) : Prop where
  ordered : InvokedFirst p.placed
  mentioned : p.placed ⊆ mentioned
  visited : ∀ name, name ∈ p.visited ↔ ∃ t ∈ opened ++ p.placed, t.name = name
  apart : ∀ o ∈ opened, ∀ u ∈ p.placed, u.name ≠ o.name

/-- The second placement is sound, and has what the first one has and `found`. -/
structure Adds (mentioned opened found : List Template) (p q : Placement) : Prop where
  sound : q.Sound mentioned opened
  mem : ∀ u, u ∈ q.placed ↔ u ∈ p.placed ∨ u ∈ found

variable {mentioned opened found more : List Template} {p p' q : Placement} {t : Template}

theorem Adds.none (sound : p.Sound mentioned opened) : p.Adds mentioned opened [] p :=
  ⟨sound, fun u => by simp⟩

theorem Adds.trans (first : p.Adds mentioned opened found p')
    (second : p'.Adds mentioned opened more q) : p.Adds mentioned opened (found ++ more) q where
  sound := second.sound
  mem u := by rw [second.mem, first.mem, List.mem_append, or_assoc]

theorem Sound.mem_placed (sound : p.Sound mentioned opened) (one : OneMeaning mentioned)
    (known : t ∈ mentioned) (closed : ∀ o ∈ opened, t.name ≠ o.name) (marked : t.name ∈ p.visited) :
    t ∈ p.placed := by
  obtain ⟨u, here, same⟩ := (sound.visited t.name).mp marked
  rcases List.mem_append.mp here with open_yet | placed
  · exact absurd same.symm (closed u open_yet)
  · exact one u (sound.mentioned placed) t known same ▸ placed

theorem Sound.adds_placed (sound : p.Sound mentioned opened) (placed : t ∈ p.placed) :
    p.Adds mentioned opened (t :: Entry.withinAll t.entries) p := by
  refine ⟨sound, fun u => ⟨.inl, fun either => either.elim id fun inside => ?_⟩⟩
  rcases List.mem_cons.mp inside with rfl | deeper
  · exact placed
  · exact sound.ordered.within_subset placed deeper

theorem Sound.mark (sound : p.Sound mentioned opened) (unmarked : t.name ∉ p.visited) :
    (p.mark t.name).Sound mentioned (t :: opened) where
  ordered := sound.ordered
  mentioned := sound.mentioned
  visited name := by
    rw [Placement.mark, List.mem_cons, sound.visited, List.cons_append, List.exists_mem_cons_iff,
      eq_comm]
  apart := by
    refine List.forall_mem_cons.mpr ⟨fun u placed same => unmarked ?_, sound.apart⟩
    exact (sound.visited t.name).mpr ⟨u, List.mem_append_right _ placed, same⟩

theorem Adds.put (adds : (p.mark t.name).Adds mentioned (t :: opened) (Entry.withinAll t.entries) q)
    (known : t ∈ mentioned) (closed : ∀ o ∈ opened, t.name ≠ o.name) :
    p.Adds mentioned opened (t :: Entry.withinAll t.entries) (q.put t) := by
  have fresh := (List.forall_mem_cons.mp adds.sound.apart).1
  have invoked : Entry.withinAll t.entries ⊆ q.placed := fun u inside =>
    (adds.mem u).mpr (.inr inside)
  constructor
  · exact {
      ordered := .concat adds.sound.ordered invoked fresh
      mentioned := List.append_subset.mpr ⟨adds.sound.mentioned, by simpa using known⟩
      visited := fun name => by
        rw [Placement.put, adds.sound.visited, ← List.append_assoc]
        exact exists_congr fun u => and_congr_left fun _ => by
          rw [List.cons_append, List.mem_cons, List.mem_append (t := [t]), List.mem_singleton, or_comm]
      apart := fun o inside u member => by
        rcases List.mem_append.mp member with earlier | last
        · exact adds.sound.apart o (List.mem_cons_of_mem _ inside) u earlier
        · exact List.mem_singleton.mp last ▸ closed o inside }
  · intro u
    rw [Placement.put, List.mem_append, adds.mem, List.mem_singleton, List.mem_cons, or_assoc,
      or_comm (a := u = t)]
    rfl

end Placement

section Placing

variable {mentioned : List Template}

mutual

theorem Entry.place_adds (one : OneMeaning mentioned) (entry : Entry) {opened : List Template}
    {p : Placement} (known : entry.within ⊆ mentioned) (sound : p.Sound mentioned opened)
    (closed : ∀ o ∈ opened, ∀ u ∈ entry.within, u.name ≠ o.name) :
    p.Adds mentioned opened entry.within (entry.place p) := by
  match entry with
  | .statement _ => exact .none sound
  | .group entries => exact Entry.placeAll_adds one entries known sound closed
  | .invocation name kind body =>
    let t : Template := ⟨name, kind, body⟩
    obtain ⟨t_known, body_known⟩ := List.cons_subset.mp known
    have t_closed : ∀ o ∈ opened, t.name ≠ o.name := fun o inside =>
      closed o inside t List.mem_cons_self
    by_cases marked : name ∈ p.visited
    · rw [Entry.place, if_pos (List.contains_iff_mem.mpr marked)]
      exact sound.adds_placed (sound.mem_placed one t_known t_closed marked)
    · rw [Entry.place, if_neg (mt List.contains_iff_mem.mp marked)]
      have body_closed : ∀ o ∈ t :: opened, ∀ u ∈ Entry.withinAll body, u.name ≠ o.name := by
        refine List.forall_mem_cons.mpr ⟨fun u inside same => ?_, fun o here u inside => ?_⟩
        · obtain rfl := one u (body_known inside) t t_known same
          exact t.not_mem_withinAll inside
        · exact closed o here u (List.mem_cons_of_mem _ inside)
      exact (Entry.placeAll_adds one body body_known (sound.mark marked) body_closed).put
        t_known t_closed

theorem Entry.placeAll_adds (one : OneMeaning mentioned) (entries : List Entry)
    {opened : List Template} {p : Placement} (known : Entry.withinAll entries ⊆ mentioned)
    (sound : p.Sound mentioned opened)
    (closed : ∀ o ∈ opened, ∀ u ∈ Entry.withinAll entries, u.name ≠ o.name) :
    p.Adds mentioned opened (Entry.withinAll entries) (Entry.placeAll entries p) := by
  match entries with
  | [] => exact .none sound
  | entry :: entries =>
    obtain ⟨head_known, tail_known⟩ := List.append_subset.mp known
    have head := Entry.place_adds one entry head_known sound fun o inside u member =>
      closed o inside u (List.mem_append_left _ member)
    exact head.trans (Entry.placeAll_adds one entries tail_known head.sound fun o inside u member =>
      closed o inside u (List.mem_append_right _ member))

end

theorem mem_withinAll_map_invoke {templates : List Template} {u : Template} :
    u ∈ Entry.withinAll (templates.map Template.invoke) ↔ u ∈ templates ++ nestedIn templates := by
  rw [Entry.withinAll_eq_flatMap, List.flatMap_map, List.mem_flatMap, List.mem_append, mem_nestedIn]
  constructor
  · rintro ⟨t, listed, inside⟩
    rcases List.mem_cons.mp inside with rfl | deeper
    · exact .inl listed
    · exact .inr ⟨t, listed, deeper⟩
  · rintro (listed | ⟨t, listed, deeper⟩)
    · exact ⟨u, listed, List.mem_cons_self⟩
    · exact ⟨t, listed, List.mem_cons_of_mem _ deeper⟩

/-- If each name means one template, then the listed templates and all that they invoke are ordered, each
once and under a name of its own, so that each stands behind all that it invokes, itself or by way of
others. -/
theorem dependencyOrder_sorted {templates : List Template} (unambiguous : Unambiguous templates) :
    ((dependencyOrder templates).map Template.name).Nodup ∧
      (∀ u, u ∈ dependencyOrder templates ↔
        u ∈ templates ∨ ∃ t ∈ templates, t.Invokes u) ∧
      ∀ before t behind, dependencyOrder templates = before ++ t :: behind →
        ∀ u, t.Invokes u → u ∈ before := by
  have start : ({} : Placement).Sound (templates ++ nestedIn templates) [] :=
    ⟨.nil, List.nil_subset _, fun name => by simp, nofun⟩
  have adds := Entry.placeAll_adds unambiguous (templates.map Template.invoke)
    (fun u inside => mem_withinAll_map_invoke.mp inside) start nofun
  refine ⟨adds.sound.ordered.names_nodup, fun u => ?_, fun before t behind split u invokes => ?_⟩
  · rw [dependencyOrder, adds.mem, mem_withinAll_map_invoke, List.mem_append, mem_nestedIn]
    simp [Template.invokes_iff]
  · exact adds.sound.ordered.within_subset_before split (Template.invokes_iff.mp invokes)

/-- A house has an address, which it gives by way of a building; the address is also listed, and it
comes after the house. -/
def estate : List Template :=
  let street : Entry := .statement (.occurrence
    { type := .fixed ⟨0⟩, value := "$street", datatype := Iri.string })
  let address : Template := ⟨"address", .topic, [street]⟩
  let building : Template := ⟨"building", .topic, [.group [address.invoke]]⟩
  [⟨"house", .topic, [.group [building.invoke], address.invoke]⟩, address]

theorem estate_sorted :
    Unambiguous estate ∧
      (dependencyOrder estate).map Template.name = ["address", "building", "house"] ∧
      ∀ before t behind, dependencyOrder estate = before ++ t :: behind →
        ∀ u, t.Invokes u → u ∈ before := by
  have unambiguous : Unambiguous estate := by decide
  exact ⟨unambiguous, by decide, (dependencyOrder_sorted unambiguous).2.2⟩

end Placing
end CompactTopicMap
