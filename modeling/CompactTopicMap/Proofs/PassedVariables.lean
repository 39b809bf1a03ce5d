import CompactTopicMap.Proofs.Adaptivity
import CompactTopicMap.Proofs.Nesting

namespace CompactTopicMap

theorem foldl_insertNew_firstSeen {α : Type} [DecidableEq α] (seen items : List α) :
    (firstSeen items).foldl insertNew seen = items.foldl insertNew seen := by
  -- By induction from the end, where `firstSeen` either has the last item already or puts it last.
  induction items using List.reverseRecOn with
  | nil => rfl
  | append_singleton items item ih =>
    rw [firstSeen_concat, List.foldl_append, List.foldl_cons, List.foldl_nil, insertNew]
    split
    · rename_i old
      have member : item ∈ items.foldl insertNew seen :=
        mem_foldl_insertNew.mpr (.inr (mem_firstSeen.mp old))
      rw [ih, insertNew, if_pos member]
    · rw [List.foldl_append, ih, List.foldl_cons, List.foldl_nil]

/-- The variables that were seen, and behind them the other ones of a list without the subject. -/
def gather (seen tokens : List String) : List String :=
  (tokens.filter (· != subjectToken)).foldl insertNew seen

section Gather

variable (seen tokens : List String)

theorem gather_nil : gather [] tokens = parameterTokens tokens := rfl

theorem gather_append (others : List String) :
    gather seen (tokens ++ others) = gather (gather seen tokens) others := by
  rw [gather, List.filter_append, List.foldl_append]
  rfl

theorem gather_parameterTokens : gather seen (parameterTokens tokens) = gather seen tokens := by
  have kept : (parameterTokens tokens).filter (· != subjectToken) = parameterTokens tokens := by
    refine List.filter_eq_self.mpr fun token member => ?_
    exact bne_iff_ne.mpr (mem_parameterTokens.mp member).2
  rw [gather, kept, parameterTokens, foldl_insertNew_firstSeen]
  rfl

end Gather

namespace Entry

mutual

theorem gather_tokens (seen : List String) : (entry : Entry) →
    gather seen (tokens entry) = gather seen ((flatten entry).flatMap Statement.tokens)
  | .statement s => by rw [tokens, flatten, List.flatMap_singleton]
  | .invocation _ _ body => (gather_parameterTokens seen _).trans (gather_tokensAll seen body)
  | .group entries => gather_tokensAll seen entries

theorem gather_tokensAll (seen : List String) : (entries : List Entry) →
    gather seen (tokensAll entries) = gather seen ((flattenAll entries).flatMap Statement.tokens)
  | [] => rfl
  | entry :: entries => by
    rw [tokensAll, flattenAll, List.flatMap_append, gather_append, gather_append,
      gather_tokens seen entry, gather_tokensAll _ entries]

end

mutual

theorem flattened_sublist {u : Template} : (entry : Entry) → u ∈ invoked entry →
    u.flattened.Sublist (flatten entry)
  | .statement _, inside => nomatch inside
  | .invocation name kind body, inside => by
    obtain rfl := List.mem_singleton.mp inside
    exact List.Sublist.refl _
  | .group entries, inside => flattened_sublist_all entries inside

theorem flattened_sublist_all {u : Template} : (entries : List Entry) → u ∈ invokedAll entries →
    u.flattened.Sublist (flattenAll entries)
  | [], inside => nomatch inside
  | entry :: entries, inside => by
    rcases List.mem_append.mp inside with here | later
    · exact (flattened_sublist entry here).trans (List.sublist_append_left _ _)
    · exact (flattened_sublist_all entries later).trans (List.sublist_append_right _ _)

end

end Entry

namespace Template

variable {t u : Template}

theorem argumentTokens_eq (t : Template) :
    t.argumentTokens = parameterTokens (t.flattened.flatMap Statement.tokens) := by
  rw [argumentTokens, ← gather_nil, Entry.gather_tokensAll]
  rfl

theorem Invokes.flattened_sublist (invokes : t.Invokes u) : u.flattened.Sublist t.flattened := by
  induction invokes with
  | single invoked => exact Entry.flattened_sublist_all t.entries invoked
  | @tail v w _ invoked ih => exact (Entry.flattened_sublist_all v.entries invoked).trans ih

/-- The variables of a template are those of its flattened statements without the subject, each once
and in the order of their first occurrences. So the variables of all templates that it invokes,
itself or by way of others, are variables of its own. -/
theorem variables_flattened (t : Template) :
    t.argumentTokens = parameterTokens (t.flattened.flatMap Statement.tokens) ∧
      ListsFirst ((t.flattened.flatMap Statement.tokens).filter (· != subjectToken))
        t.argumentTokens ∧
      ∀ u, t.Invokes u → u.argumentTokens ⊆ t.argumentTokens := by
  refine ⟨t.argumentTokens_eq, ?_, fun u invokes token member => ?_⟩
  · rw [argumentTokens_eq, parameterTokens]
    exact firstSeen_lists _
  · rw [argumentTokens_eq, mem_parameterTokens, List.mem_flatMap] at member ⊢
    obtain ⟨⟨statement, inside, here⟩, differ⟩ := member
    exact ⟨⟨statement, invokes.flattened_sublist.subset inside, here⟩, differ⟩

def placeTemplate : Template :=
  ⟨"place", .topic, [.statement (.occurrence {
    type := .fixed ⟨0⟩, value := "$street", datatype := Iri.string
    scope := some [.var "$language"] })]⟩

def contactTemplate : Template :=
  ⟨"contact", .topic, [.group [
    placeTemplate.invoke,
    .statement (.name { type := .fixed ⟨1⟩, value := "$label", scope := some [.var "$language"] }),
    .statement (.isa (.var subjectToken))]]⟩

def shopTemplate : Template :=
  ⟨"shop", .topic, [
    .statement (.isa (.var "$kind")),
    .group [.group [contactTemplate.invoke], placeTemplate.invoke]]⟩

theorem shop_passed :
    shopTemplate.Invokes contactTemplate ∧ contactTemplate.Invokes placeTemplate ∧
      shopTemplate.argumentTokens = ["$kind", "$street", "$language", "$label"] ∧
      contactTemplate.argumentTokens ⊆ shopTemplate.argumentTokens ∧
      placeTemplate.argumentTokens ⊆ shopTemplate.argumentTokens := by
  have contact : shopTemplate.Invokes contactTemplate := .single (by decide)
  have place : contactTemplate.Invokes placeTemplate := .single (by decide)
  obtain ⟨same, _, passed⟩ := variables_flattened shopTemplate
  exact ⟨contact, place, same.trans (by decide), passed contactTemplate contact,
    passed placeTemplate (contact.trans place)⟩

end Template
end CompactTopicMap
