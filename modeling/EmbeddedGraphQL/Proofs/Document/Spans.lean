import EmbeddedGraphQL.Proofs.Document.Between
import EmbeddedGraphQL.Proofs.Document.TokenText
import EmbeddedGraphQL.Proofs.Walk.Standing

/-!
# Spans of nodes

The span of a node runs from a token to a token of the text. Hence it is not empty, and it starts
and ends between characters. It lies in the span of the definition that the node stands in, and the
spans of definitions come one after the other: a node lies in the span of no other definition.

* `Cursor.Passes.standsIn`: tokens that are passed stand in the text.
* `Document.ReadFrom.exists_node`: a node was read while its definition was.
* `Document.Extent`: the span of a node and that of its definition.
* `Document.exists_extent`: every node of a document has an extent.
* `Document.Extent.eq_of_within`: a node lies in its own definition only.
-/

namespace EmbeddedGraphQL

namespace Cursor

/-- The tokens that are left were there before. -/
theorem Reaches.subset {c c' : Cursor} (h : c.Reaches c') : c'.tokens ⊆ c.tokens := by
  induction h with
  | refl => exact List.Subset.refl _
  | take _ ih => exact List.subset_cons_of_subset _ ih

/-- The last token taken was there before, if one was taken. -/
theorem Reaches.exists_last {c c' : Cursor} (h : c.Reaches c') :
    c'.last = c.last ∨ ∃ t ∈ c.tokens, c'.last = t.span.stop := by
  induction h with
  | refl => exact Or.inl rfl
  | @take t rest last c h ih =>
    apply Or.inr
    rcases ih with hlast | ⟨u, hu, hlast⟩
    · exact ⟨t, List.mem_cons_self, hlast⟩
    · exact ⟨u, List.mem_cons_of_mem _ hu, hlast⟩

/-- If the tokens of a cursor stand in a text, so does what is passed from there on. -/
theorem Passes.standsIn {text : List Char} {c c' : Cursor} (h : c.Passes c') (hc : c.Sound)
    (htokens : ∀ t ∈ c.tokens, t.span.StandsIn text) :
    Span.StandsIn text ⟨c.start, c'.last⟩ := by
  obtain ⟨tokens, last⟩ := c
  obtain ⟨t, rest, rfl, h⟩ := h
  have ht := htokens t List.mem_cons_self
  refine ⟨ht.start, ?_, Nat.lt_of_lt_of_le ht.nonempty (h.le hc.take).2⟩
  rcases h.exists_last with hlast | ⟨u, hu, hlast⟩
  · rw [hlast]
    exact ht.stop
  · rw [hlast]
    exact (htokens u (List.mem_cons_of_mem _ hu)).stop

end Cursor

namespace Document

variable {d : Document}

/-- A node was read while the definition was that it stands in. -/
theorem ReadFrom.exists_node {tokens : List Token} (h : d.ReadFrom tokens) {s : Standing} {n : Node}
    (hs : s.In d) (hn : s.entry = .node n) :
    ∃ root c c' a b, d.root? s.address.definition = some root ∧ Cursor.Reaches ⟨tokens, 0⟩ c ∧
      root.ReadBetween c c' ∧ c.Reaches a ∧ n.ReadBetween a b ∧ b.Reaches c' := by
  induction hs generalizing n with
  | @definition index root hroot =>
    obtain rfl : root = n := by
      cases hn
      rfl
    obtain ⟨x, hx, hxroot⟩ := Option.bind_eq_some_iff.mp hroot
    obtain ⟨c, c', hreaches, hbetween⟩ := h.entry (List.mem_of_getElem? hx)
    have hread := hbetween root hxroot
    exact ⟨root, c, c', c, c', hroot, hreaches, hread, .refl c, hread, .refl c'⟩
  | @selection address ancestors parent index s hparent hs ih =>
    -- The node around was read within the definition, and the selection within the node.
    obtain ⟨root, c, c', a, b, hroot, hreaches, hread, hca, hparent, hbc'⟩ := ih rfl
    obtain ⟨a', b', haa', hselection, hb'b⟩ := hparent.2.2.entry (List.mem_of_getElem? hs)
    have hnode : Node.ofSelection? s = some n := by
      cases s <;> cases hn <;> rfl
    exact ⟨root, c, c', a', b', hroot, hreaches, hread, hca.trans haa', hselection.node hnode,
      hb'b.trans hbc'⟩

/-- The span of a node and that of the definition it stands in. -/
structure Extent (d : Document) (text : List Char) (s : Standing) (n root : Node)
    (inner outer : Span) : Prop where
  standsIn : d.root? s.address.definition = some root
  rootSpan : root.span = some outer
  span : n.span = some inner
  /-- The node lies in the definition. -/
  within : outer.start ≤ inner.start ∧ inner.stop ≤ outer.stop
  innerStands : inner.StandsIn text
  outerStands : outer.StandsIn text

/-- Every node of a document that was read from a text has a span in that of its definition. -/
theorem exists_extent {text : String} (h : parse? text = some d) {s : Standing} {n : Node}
    (hs : s.In d) (hn : s.entry = .node n) :
    ∃ root inner outer, d.Extent text.toList s n root inner outer := by
  obtain ⟨tokens, hscan, hread⟩ := exists_readFrom h
  obtain ⟨root, c, c', a, b, hroot, hreaches, hrootRead, hca, hnRead, hbc'⟩ :=
    hread.exists_node hs hn
  have hstands := Token.standsIn_of_scan? hscan
  have hc : c.Sound := (sound_of_scan? hscan).reaches hreaches
  have ha : a.Sound := hc.reaches hca
  have hctokens : ∀ t ∈ c.tokens, t.span.StandsIn text.toList :=
    fun t ht => hstands t (hreaches.subset ht)
  have hatokens : ∀ t ∈ a.tokens, t.span.StandsIn text.toList :=
    fun t ht => hctokens t (hca.subset ht)
  have hb : b.Sound := ha.reaches hnRead.2.1.reaches
  exact ⟨root, _, _, hroot, hrootRead.1, hnRead.1, ⟨(hca.le hc).1, (hbc'.le hb).2⟩,
    hnRead.2.1.standsIn ha hatokens, hrootRead.2.1.standsIn hc hctokens⟩

end Document

/-! ## Definitions -/

/-- Whether the span of a definition ends before that of another one starts, if both are nodes. -/
def Definition.EndsBefore (x y : Definition) : Prop :=
  ∀ m ∈ Node.ofDefinition? x, ∀ n ∈ Node.ofDefinition? y, ∀ first ∈ m.span, ∀ second ∈ n.span,
    first.stop ≤ second.start

/-- Definitions that were read one after the other stand one after the other. -/
theorem Definition.RowReadFrom.pairwise {c : Cursor} {row : List Definition}
    (h : RowReadFrom c row) (hc : c.Sound) : row.Pairwise EndsBefore := by
  induction row generalizing c with
  | nil => exact .nil
  | cons x rest ih =>
    obtain ⟨b, hcb, hx, hrest⟩ := h
    have hb := hc.reaches hcb
    refine List.pairwise_cons.mpr ⟨?_, ih hrest hb⟩
    intro y hy m hm n hn first hfirst second hsecond
    obtain ⟨a', b', hba', hyRead⟩ := hrest.entry hy
    -- The first definition ends at the cursor where the reading of the others begins.
    rw [(hx m hm).1] at hfirst
    rw [(hyRead n hn).1] at hsecond
    cases hfirst
    cases hsecond
    exact Nat.le_trans hb.last_le_start (hba'.le hb).1

namespace Document

variable {d : Document}

/-- The definitions of a document stand one after the other. -/
theorem pairwise_endsBefore {text : String} (h : parse? text = some d) :
    d.definitions.Pairwise Definition.EndsBefore := by
  obtain ⟨tokens, hscan, hread⟩ := exists_readFrom h
  exact Definition.RowReadFrom.pairwise hread (sound_of_scan? hscan)

/-- A node lies in the definition it stands in and in no other one. -/
theorem Extent.eq_of_within {text : String} (h : parse? text = some d) {s : Standing}
    {n root : Node} {inner outer : Span} (he : d.Extent text.toList s n root inner outer)
    {index : Nat} {other : Node} {span : Span} (hother : d.root? index = some other)
    (hspan : other.span = some span)
    (hwithin : span.start ≤ inner.start ∧ inner.stop ≤ span.stop) :
    index = s.address.definition := by
  obtain ⟨x, hx, hxroot⟩ := Option.bind_eq_some_iff.mp he.standsIn
  obtain ⟨y, hy, hyother⟩ := Option.bind_eq_some_iff.mp hother
  obtain ⟨hxlt, hxeq⟩ := List.getElem?_eq_some_iff.mp hx
  obtain ⟨hylt, hyeq⟩ := List.getElem?_eq_some_iff.mp hy
  have hnonempty := he.innerStands.nonempty
  have hin := he.within
  -- The span is not empty, so that it does not lie in two spans of which one ends before the other.
  have hordered := List.pairwise_iff_getElem.mp (pairwise_endsBefore h)
  rcases Nat.lt_trichotomy index s.address.definition with hlt | heq | hlt
  · have hends := hordered _ _ hylt hxlt hlt
    rw [hxeq, hyeq] at hends
    have hle := hends other hyother root hxroot span hspan outer he.rootSpan
    omega
  · exact heq
  · have hends := hordered _ _ hxlt hylt hlt
    rw [hxeq, hyeq] at hends
    have hle := hends root hxroot other hyother outer he.rootSpan span hspan
    omega

end Document
end EmbeddedGraphQL
