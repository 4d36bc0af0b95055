import EmbeddedGraphQL.Address
import EmbeddedGraphQL.Proofs.Document.Reading

/-!
# Between which tokens the parts of a document were read

The spans of a document come from cursors: a part starts where the next token stands when its
reading begins, and ends where the last token taken for it ends. What is under a part was read on
the way, and the entries of a set, as well as the definitions of a document, one after the other.
Everything about places in the text follows from this and from what is known of tokens.

* `Cursor.Passes`: taking at least one token.
* `Selection.ReadBetween`, `Selection.SetReadBetween`, `Node.ReadBetween`: parts that were read
  between two cursors.
* `Document.ReadFrom`: documents that were read from a row of tokens.
* `Document.exists_readFrom`: what is read from a text is read from its tokens.
-/

namespace EmbeddedGraphQL

/-! ## Cursors -/

namespace Cursor

/-- Where the next token starts; at the end, where the last token ends. -/
def start (c : Cursor) : Nat := (c.tokens.head?.map (·.span.start)).getD c.last

/-- Whether a cursor is what is left of another one after at least one token was taken. -/
def Passes (c c' : Cursor) : Prop :=
  ∃ t rest, c.tokens = t :: rest ∧ Reaches ⟨rest, t.span.stop⟩ c'

/-- A cursor that passes tokens reaches the next one. -/
theorem Passes.reaches {c c' : Cursor} (h : c.Passes c') : c.Reaches c' := by
  obtain ⟨tokens, last⟩ := c
  obtain ⟨t, rest, rfl, h⟩ := h
  exact .take h

/-- Passing a token and then reaching further is passing one. -/
theorem Passes.trans {a b c : Cursor} (hab : a.Passes b) (hbc : b.Reaches c) : a.Passes c := by
  obtain ⟨t, rest, htokens, h⟩ := hab
  exact ⟨t, rest, htokens, h.trans hbc⟩

/-- Reaching a place and then passing a token is passing one. -/
theorem Reaches.passes {a b c : Cursor} (hab : a.Reaches b) (hbc : b.Passes c) : a.Passes c := by
  cases hab with
  | refl => exact hbc
  | take h => exact ⟨_, _, rfl, h.trans hbc.reaches⟩

/-- What comes next starts after what was taken. -/
theorem Sound.last_le_start {c : Cursor} (h : c.Sound) : c.last ≤ c.start := by
  obtain ⟨tokens, last⟩ := c
  cases tokens with
  | nil => exact Nat.le_refl _
  | cons t rest => exact h.inOrder.1

/-- Taking a token leads beyond it. -/
theorem Sound.start_le_stop {t : Token} {rest : List Token} {last : Nat}
    (h : Sound ⟨t :: rest, last⟩) : start ⟨t :: rest, last⟩ ≤ t.span.stop := h.inOrder.2.1

/-- Taking tokens leads on. -/
theorem Reaches.le {a b : Cursor} (h : a.Reaches b) (ha : a.Sound) :
    a.start ≤ b.start ∧ a.last ≤ b.last := by
  induction h with
  | refl => exact ⟨Nat.le_refl _, Nat.le_refl _⟩
  | @take t rest last c h ih =>
    have hnext := ih ha.take
    have hstart := ha.start_le_stop
    have hlast := ha.last_le_start
    have hrest := ha.take.last_le_start
    simp only at hnext hstart hlast hrest ⊢
    omega

/-- What is passed starts before it ends. -/
theorem Passes.start_le_last {c c' : Cursor} (h : c.Passes c') (hc : c.Sound) :
    c.start ≤ c'.last := by
  obtain ⟨tokens, last⟩ := c
  obtain ⟨t, rest, rfl, h⟩ := h
  exact Nat.le_trans hc.start_le_stop (h.le hc.take).2

end Cursor

/-! ## Parts -/

namespace Selection

mutual

/-- Whether a selection was read between two cursors, and what is under it on the way. -/
def ReadBetween (c c' : Cursor) : Selection → Prop
  | .field f set => f.span = some ⟨c.start, c'.last⟩ ∧ c.Passes c' ∧ SetReadBetween c c' set
  | .inline f set => f.span = some ⟨c.start, c'.last⟩ ∧ c.Passes c' ∧ SetReadBetween c c' set
  | .spread s => s.span = some ⟨c.start, c'.last⟩ ∧ c.Passes c'

/-- Whether the entries of a set were read one after the other between two cursors. -/
def SetReadBetween (c c' : Cursor) : List Selection → Prop
  | [] => True
  | s :: rest => ∃ a b, c.Reaches a ∧ s.ReadBetween a b ∧ b.Reaches c' ∧ SetReadBetween b c' rest

end

/-- At least one token was taken for a selection. -/
theorem ReadBetween.passes {c c' : Cursor} {s : Selection} (h : s.ReadBetween c c') :
    c.Passes c' := by
  cases s with
  | field f set => exact h.2.1
  | inline f set => exact h.2.1
  | spread s => exact h.2

/-- A set that was read from one cursor on was read from every one before it on. -/
theorem SetReadBetween.mono {a b c : Cursor} {set : List Selection} (h : SetReadBetween b c set)
    (hab : a.Reaches b) : SetReadBetween a c set := by
  cases set with
  | nil => trivial
  | cons s rest =>
    obtain ⟨d, e, hbd, hs, hec, hrest⟩ := h
    exact ⟨d, e, hab.trans hbd, hs, hec, hrest⟩

/-- Every entry of a set was read on the way. -/
theorem SetReadBetween.entry {c c' : Cursor} {set : List Selection} (h : SetReadBetween c c' set)
    {s : Selection} (hs : s ∈ set) :
    ∃ a b, c.Reaches a ∧ s.ReadBetween a b ∧ b.Reaches c' := by
  induction set generalizing c with
  | nil => cases hs
  | cons t rest ih =>
    obtain ⟨a, b, hca, ht, hbc', hrest⟩ := h
    rcases List.mem_cons.mp hs with rfl | hs
    · exact ⟨a, b, hca, ht, hbc'⟩
    · obtain ⟨a', b', hba', hs, hb'c'⟩ := ih hrest hs
      exact ⟨a', b', (hca.trans ht.passes.reaches).trans hba', hs, hb'c'⟩

end Selection

/-- Whether a node was read between two cursors, with its selections on the way. -/
def Node.ReadBetween (c c' : Cursor) (n : Node) : Prop :=
  n.span = some ⟨c.start, c'.last⟩ ∧ c.Passes c' ∧ Selection.SetReadBetween c c' n.selections

/-- The node that a selection is was read where the selection was. -/
theorem Selection.ReadBetween.node {c c' : Cursor} {s : Selection} {n : Node}
    (h : s.ReadBetween c c') (hn : Node.ofSelection? s = some n) : n.ReadBetween c c' := by
  cases s <;> cases hn <;> exact h

/-- Whether a definition, if it is a node, was read between two cursors. -/
def Definition.ReadBetween (c c' : Cursor) (x : Definition) : Prop :=
  ∀ n ∈ Node.ofDefinition? x, n.ReadBetween c c'

/-- Whether definitions were read one after the other from a cursor on. -/
def Definition.RowReadFrom (c : Cursor) : List Definition → Prop
  | [] => True
  | x :: rest => ∃ b, c.Reaches b ∧ x.ReadBetween c b ∧ RowReadFrom b rest

/-- Every definition of a row was read on the way. -/
theorem Definition.RowReadFrom.entry {c : Cursor} {row : List Definition} (h : RowReadFrom c row)
    {x : Definition} (hx : x ∈ row) : ∃ a b, c.Reaches a ∧ x.ReadBetween a b := by
  induction row generalizing c with
  | nil => cases hx
  | cons y rest ih =>
    obtain ⟨b, hcb, hy, hrest⟩ := h
    rcases List.mem_cons.mp hx with rfl | hx
    · exact ⟨c, b, .refl c, hy⟩
    · obtain ⟨a', b', hba', hx⟩ := ih hrest hx
      exact ⟨a', b', hcb.trans hba', hx⟩

/-- Whether the definitions of a document were read from a row of tokens. -/
def Document.ReadFrom (tokens : List Token) (d : Document) : Prop :=
  Definition.RowReadFrom ⟨tokens, 0⟩ d.definitions

/-! ## Readers -/

namespace Reader

variable {α β : Type}

/-- The first step of a reader: what it gives, and where it leads. -/
theorem Gives.step {P : α → Prop} {r : Reader α} {f : α → Reader β} {c c' : Cursor} {y : β}
    (hr : r.Gives P) (hc : c.Sound) (h : (r >>= f) c = some (y, c')) :
    ∃ x d, r c = some (x, d) ∧ c.Reaches d ∧ d.Sound ∧ f x d = some (y, c') := by
  obtain ⟨x, d, hx, hy⟩ := bind_eq_some.mp h
  obtain ⟨hcd, -⟩ := hr hc hx
  exact ⟨x, d, hx, hcd, hc.reaches hcd, hy⟩

/-- A reader of selections whose selections are read from its first to its last token. -/
def ReadsBetween (item : Reader Selection) : Prop :=
  ∀ ⦃c : Cursor⦄ ⦃s : Selection⦄ ⦃c' : Cursor⦄, c.Sound → item c = some (s, c') →
    s.ReadBetween c c'

/-- A reader of selection sets whose entries are read one after the other. -/
def ReadsSetBetween (set : Reader (List Selection)) : Prop :=
  ∀ ⦃c : Cursor⦄ ⦃selections : List Selection⦄ ⦃c' : Cursor⦄, c.Sound →
    set c = some (selections, c') → Selection.SetReadBetween c c' selections

/-- A name that is read is passed. -/
theorem passes_of_name {c c' : Cursor} {text : String} (h : name c = some (text, c')) :
    c.Passes c' := by
  obtain ⟨t, rest, htokens, -, rfl⟩ := name_eq_some.mp h
  exact ⟨t, rest, htokens, .refl _⟩

/-- A token that is accepted is passed, and one that is not stays. -/
theorem passes_of_accept {c c' : Cursor} {lexeme : Lexeme} {accepted : Bool}
    (h : accept lexeme c = some (accepted, c')) : if accepted then c.Passes c' else c' = c := by
  obtain ⟨tokens, last⟩ := c
  cases tokens with
  | nil =>
    cases h
    rfl
  | cons t rest =>
    rw [accept_cons] at h
    split at h
    · cases h
      exact ⟨t, rest, rfl, .refl _⟩
    · cases h
      rfl

/-- Selections up to a mark are read one after the other. -/
theorem setReadBetween_of_untilMarkUpTo {P : Selection → Prop} {item : Reader Selection}
    (hitem : item.Gives P) (hreads : item.ReadsBetween) {close : Char} {fuel : Nat}
    {c c' : Cursor} {set : List Selection} (hc : c.Sound)
    (h : untilMarkUpTo close item fuel c = some (set, c')) :
    Selection.SetReadBetween c c' set := by
  induction fuel generalizing c set with
  | zero => cases h
  | succ fuel ih =>
    obtain ⟨closed, d, -, hcd, hd, h⟩ := (acceptMark_gives close).step hc h
    split at h
    · cases h
      trivial
    · obtain ⟨first, e, hfirst, -, he, h⟩ := hitem.step hd h
      obtain ⟨rest, e', hrest, hee', -, h⟩ := (untilMarkUpTo_gives close hitem fuel).step he h
      cases h
      exact ⟨d, e, hcd, hreads hd hfirst, hee', ih he hrest⟩

/-- Selections between two marks are read one after the other. -/
theorem ReadsBetween.between {P : Selection → Prop} {item : Reader Selection}
    (hitem : item.Gives P) (hreads : item.ReadsBetween) (opening close : Char) :
    (between opening close item).ReadsSetBetween := by
  intro c set c' hc h
  obtain ⟨-, d, -, hcd, hd, h⟩ := (expectMark_gives opening).step hc h
  obtain ⟨first, e, hfirst, -, he, h⟩ := hitem.step hd h
  obtain ⟨rest, e', hrest, hee', -, h⟩ := (untilMark_gives close hitem).step he h
  obtain ⟨fuel, e'', hfuel, hrest⟩ := bind_eq_some.mp hrest
  cases hfuel
  cases h
  exact ⟨d, e, hcd, hreads hd hfirst, hee',
    setReadBetween_of_untilMarkUpTo hitem hreads he hrest⟩

end Reader

/-! ## Selections -/

namespace Grammar

open Reader

/-- The set under a field is read on the way. -/
theorem setIfAny_readsSetBetween {set : Reader (List Selection)} (hreads : set.ReadsSetBetween) :
    (setIfAny set).ReadsSetBetween := by
  intro c selections c' hc h
  obtain ⟨next, d, hnext, h⟩ := bind_eq_some.mp h
  cases hnext
  split at h
  · exact hreads hc h
  · cases h
    trivial

/-- A field is read from its first to its last token. -/
theorem fieldWith_readsBetween {depth : Nat} {set : Reader (List Selection)}
    (hset : set.Gives (IsSet depth)) (hreads : set.ReadsSetBetween) :
    (fieldWith depth set).ReadsBetween := by
  intro c s c' hc h
  obtain ⟨start, c1, hstart, h⟩ := bind_eq_some.mp h
  cases hstart
  obtain ⟨second, c2, hsecond, h⟩ := bind_eq_some.mp h
  cases hsecond
  obtain ⟨first, d, hfirst, -, hd, h⟩ := name_gives.step hc h
  have hname := passes_of_name hfirst
  have hisName := (name_gives hc hfirst).2
  obtain ⟨name, d1, -, hdd1, hd1, h⟩ := (fieldName_gives _ hisName).step hd h
  obtain ⟨args, d2, -, hdd2, hd2, h⟩ := (arguments_gives false depth).step hd1 h
  obtain ⟨ds, d3, -, hdd3, hd3, h⟩ := (directives_gives false depth).step hd2 h
  obtain ⟨selections, d4, hselections, hdd4, -, h⟩ := (setIfAny_gives hset).step hd3 h
  obtain ⟨stop, d5, hstop, h⟩ := bind_eq_some.mp h
  cases hstop
  cases h
  -- The name was passed, and the last token taken for the set is the last one of the field.
  have hto := hname.trans ((hdd1.trans hdd2).trans hdd3)
  exact ⟨rfl, hto.trans hdd4,
    (setIfAny_readsSetBetween hreads hd3 hselections).mono hto.reaches⟩

/-- An inline fragment is read from its dots to its last token. -/
theorem inlineWith_readBetween {depth : Nat} {set : Reader (List Selection)}
    (hset : set.Gives (IsSet depth)) (hreads : set.ReadsSetBetween) {dots c c' : Cursor}
    {s : Selection} (hc : c.Sound) (hdots : dots.Passes c)
    (h : inlineWith depth dots.start set c = some (s, c')) : s.ReadBetween dots c' := by
  obtain ⟨condition, d, -, hcd, hd, h⟩ := typeCondition_gives.step hc h
  obtain ⟨ds, d1, -, hdd1, hd1, h⟩ := (directives_gives false depth).step hd h
  obtain ⟨selections, d2, hselections, hdd2, -, h⟩ := hset.step hd1 h
  obtain ⟨stop, d3, hstop, h⟩ := bind_eq_some.mp h
  cases hstop
  cases h
  have hto := hdots.trans (hcd.trans hdd1)
  exact ⟨rfl, hto.trans hdd2, (hreads hd1 hselections).mono hto.reaches⟩

/-- A spread is read from its dots to its last token. -/
theorem spreadAfterDots_readBetween {depth : Nat} {dots c c' : Cursor} {s : Selection}
    (hc : c.Sound) (hdots : dots.Passes c)
    (h : spreadAfterDots depth dots.start c = some (s, c')) : s.ReadBetween dots c' := by
  obtain ⟨name, d, -, hcd, hd, h⟩ := name_gives.step hc h
  obtain ⟨ds, d1, -, hdd1, -, h⟩ := (directives_gives false depth).step hd h
  obtain ⟨stop, d2, hstop, h⟩ := bind_eq_some.mp h
  cases hstop
  cases h
  exact ⟨rfl, hdots.trans (hcd.trans hdd1)⟩

/-- A selection is read from its first to its last token. -/
theorem selectionWith_readsBetween {depth : Nat} {set : Reader (List Selection)}
    (hset : set.Gives (IsSet depth)) (hreads : set.ReadsSetBetween) :
    (selectionWith depth set).ReadsBetween := by
  intro c s c' hc h
  obtain ⟨start, c1, hstart, h⟩ := bind_eq_some.mp h
  cases hstart
  obtain ⟨second, c2, hsecond, h⟩ := bind_eq_some.mp h
  obtain rfl : c2 = c := by
    cases hsecond
    rfl
  obtain ⟨accepted, d, haccept, -, hd, h⟩ := (accept_gives .dots).step hc h
  have hdots := passes_of_accept haccept
  split at h
  · rename_i htrue
    rw [if_pos htrue] at hdots
    split at h
    · split at h
      · exact inlineWith_readBetween hset hreads hd hdots h
      · exact spreadAfterDots_readBetween hd hdots h
    · exact inlineWith_readBetween hset hreads hd hdots h
    · cases h
  · -- Without dots nothing was taken, and the field starts where the selection does.
    rename_i hfalse
    rw [if_neg hfalse] at hdots
    rw [hdots] at h
    exact fieldWith_readsBetween hset hreads hc h

/-- The entries of a selection set are read one after the other. -/
theorem selectionSet_readsSetBetween (depth : Nat) : (selectionSet depth).ReadsSetBetween := by
  -- By induction over the depth that is left, as the grammar itself goes down.
  induction depth with
  | zero =>
    intro c set c' _ h
    cases h
  | succ depth ih =>
    have hset := selectionSet_gives depth
    exact ReadsBetween.between (selectionWith_gives hset) (selectionWith_readsBetween hset ih) _ _

/-- A selection set that is read passes its opening brace. -/
theorem passes_of_selectionSet {depth : Nat} {c c' : Cursor} {set : List Selection} (hc : c.Sound)
    (h : selectionSet depth c = some (set, c')) : c.Passes c' := by
  cases depth with
  | zero => cases h
  | succ depth =>
    have hset := selectionWith_gives (selectionSet_gives depth)
    obtain ⟨_, d, hopen, h⟩ := bind_eq_some.mp h
    obtain ⟨accepted, e, haccept, hopen⟩ := bind_eq_some.mp hopen
    have hbrace := passes_of_accept haccept
    split at hopen
    · rename_i htrue
      rw [if_pos htrue] at hbrace
      cases hopen
      obtain ⟨first, e, -, hde, he, h⟩ := hset.step (hc.reaches hbrace.reaches) h
      obtain ⟨rest, e', -, hee', -, h⟩ := (untilMark_gives _ hset).step he h
      cases h
      exact hbrace.trans (hde.trans hee')
    · cases hopen

/-! ## Definitions -/

/-- Definitions of the type system are no nodes. -/
theorem systemDefinition_gives_none (start : Nat) (description : Option String) :
    (systemDefinition start description).Gives fun x => Node.ofDefinition? x = none := by
  refine name_gives.bind fun keyword _ => ?_
  split
  · exact schemaDeclaration_gives.bind fun _ _ => stop_gives.bind fun _ _ => .pure rfl
  · exact directiveDeclaration_gives.bind fun _ _ => stop_gives.bind fun _ _ => .pure rfl
  · exact (typeDeclaration_gives keyword).bind fun _ _ => stop_gives.bind fun _ _ => .pure rfl

/-- Extensions of the type system are no nodes. -/
theorem extension_gives_none (start : Nat) :
    (extension start).Gives fun x => Node.ofDefinition? x = none := by
  refine peekSecond_gives.bind fun _ _ => (expect_gives _).bind fun _ _ =>
    (guard_gives _).bind fun _ _ => name_gives.bind fun keyword _ => ?_
  split
  · exact schemaAddition_gives.bind fun _ _ => stop_gives.bind fun _ _ => .pure rfl
  · exact (typeDeclaration_gives keyword).bind fun _ _ =>
      .ite (fun _ => stop_gives.bind fun _ _ => .pure rfl) fun _ => .failure

/-- A definition that is no node counts as read between any two cursors. -/
theorem readBetween_of_eq_none {x : Definition} (h : Node.ofDefinition? x = none) (c c' : Cursor) :
    x.ReadBetween c c' := by
  intro n hn
  rw [h] at hn
  cases hn

/-- A query that is nothing but a selection set is read from brace to brace. -/
theorem bareQuery_readBetween {c c' : Cursor} {x : Definition} (hc : c.Sound)
    (h : bareQuery c.start c = some (x, c')) : x.ReadBetween c c' := by
  obtain ⟨selections, d, hset, h⟩ := bind_eq_some.mp h
  obtain ⟨stop, d1, hstop, h⟩ := bind_eq_some.mp h
  cases hstop
  cases h
  rintro n hn
  cases hn
  exact ⟨rfl, passes_of_selectionSet hc hset, selectionSet_readsSetBetween _ hc hset⟩

/-- An operation with a keyword is read from the keyword to its last brace. -/
theorem namedOperation_readBetween {c c' : Cursor} {x : Definition} (hc : c.Sound)
    (h : namedOperation c.start c = some (x, c')) : x.ReadBetween c c' := by
  obtain ⟨kind, c1, -, h01, hc1, h⟩ := operationKind_gives.step hc h
  obtain ⟨name, c2, -, h12, hc2, h⟩ := operationName_gives.step hc1 h
  obtain ⟨variables', c3, -, h23, hc3, h⟩ :=
    (betweenIfAny_gives '(' ')' variableDefinition_gives).step hc2 h
  obtain ⟨ds, c4, -, h34, hc4, h⟩ := (directives_gives false maxDepth).step hc3 h
  obtain ⟨selections, c5, hset, h⟩ := bind_eq_some.mp h
  obtain ⟨stop, c6, hstop, h⟩ := bind_eq_some.mp h
  cases hstop
  cases h
  rintro n hn
  cases hn
  have hto := ((h01.trans h12).trans h23).trans h34
  exact ⟨rfl, hto.passes (passes_of_selectionSet hc4 hset),
    (selectionSet_readsSetBetween _ hc4 hset).mono hto⟩

/-- A fragment definition is read from its first token to its last brace. -/
theorem fragmentDefinition_readBetween {c c' : Cursor} {x : Definition} (hc : c.Sound)
    (h : fragmentDefinition c.start c = some (x, c')) : x.ReadBetween c c' := by
  obtain ⟨first, c1, -, h01, hc1, h⟩ := take_gives.step hc h
  obtain ⟨name, c2, -, h12, hc2, h⟩ := name_gives.step hc1 h
  obtain ⟨-, c3, -, h23, hc3, h⟩ := (guard_gives _).step hc2 h
  obtain ⟨-, c4, -, h34, hc4, h⟩ := (expect_gives _).step hc3 h
  obtain ⟨condition, c5, -, h45, hc5, h⟩ := name_gives.step hc4 h
  obtain ⟨ds, c6, -, h56, hc6, h⟩ := (directives_gives false maxDepth).step hc5 h
  obtain ⟨selections, c7, hset, h⟩ := bind_eq_some.mp h
  obtain ⟨stop, c8, hstop, h⟩ := bind_eq_some.mp h
  cases hstop
  cases h
  rintro n hn
  cases hn
  have hto := ((((h01.trans h12).trans h23).trans h34).trans h45).trans h56
  exact ⟨rfl, hto.passes (passes_of_selectionSet hc6 hset),
    (selectionSet_readsSetBetween _ hc6 hset).mono hto⟩

/-- A definition is read in one of three ways, or is none that holds selections. -/
theorem definition_cases {c c' : Cursor} {x : Definition} (hc : c.Sound)
    (h : definition c = some (x, c')) :
    bareQuery c.start c = some (x, c') ∨ namedOperation c.start c = some (x, c') ∨
      fragmentDefinition c.start c = some (x, c') ∨ Node.ofDefinition? x = none := by
  obtain ⟨start, c1, hstart, h⟩ := bind_eq_some.mp h
  obtain ⟨rfl, rfl⟩ : start = c.start ∧ c1 = c := by
    cases hstart
    exact ⟨rfl, rfl⟩
  obtain ⟨next, c2, hnext, h⟩ := bind_eq_some.mp h
  obtain rfl : c2 = c1 := by
    cases hnext
    rfl
  split at h
  · exact .inl h
  · obtain ⟨second, c3, hsecond, h⟩ := bind_eq_some.mp h
    obtain rfl : c3 = c2 := by
      cases hsecond
      rfl
    -- A description comes first: it may belong to a fragment or to the type system.
    split at h
    · cases h
    · exact .inr (.inr (.inl h))
    · exact .inr (.inr (.inr ((description_gives.bind fun text _ =>
        systemDefinition_gives_none c3.start text) hc h).2))
  · exact .inr (.inr (.inl h))
  · exact .inr (.inr (.inr (extension_gives_none c2.start hc h).2))
  · split at h
    · exact .inr (.inl h)
    · exact .inr (.inr (.inr (systemDefinition_gives_none c2.start none hc h).2))
  · cases h

/-- Every definition is read from its first to its last token. -/
theorem definition_readBetween {c c' : Cursor} {x : Definition} (hc : c.Sound)
    (h : definition c = some (x, c')) : x.ReadBetween c c' := by
  rcases definition_cases hc h with h | h | h | h
  · exact bareQuery_readBetween hc h
  · exact namedOperation_readBetween hc h
  · exact fragmentDefinition_readBetween hc h
  · exact readBetween_of_eq_none h c c'

/-- Definitions are read one after the other. -/
theorem definitionsUpTo_rowReadFrom {fuel : Nat} {c c' : Cursor} {row : List Definition}
    (hc : c.Sound) (h : definitionsUpTo fuel c = some (row, c')) :
    Definition.RowReadFrom c row := by
  induction fuel generalizing c row with
  | zero =>
    cases h
    trivial
  | succ fuel ih =>
    obtain ⟨next, d, hnext, h⟩ := bind_eq_some.mp h
    cases hnext
    split at h
    · cases h
      trivial
    · obtain ⟨first, d, hfirst, hcd, hd, h⟩ := definition_gives.step hc h
      obtain ⟨rest, e, hrest, h⟩ := bind_eq_some.mp h
      cases h
      exact ⟨d, hcd, definition_readBetween hc hfirst, ih hd hrest⟩

end Grammar

/-- What is read from a text is read from its tokens. -/
theorem Document.exists_readFrom {text : String} {d : Document} (h : parse? text = some d) :
    ∃ tokens, Token.scan? text.toList = some tokens ∧ d.ReadFrom tokens := by
  obtain ⟨tokens, c, hscan, hread, -⟩ := parse?_eq_some_iff.mp h
  exact ⟨tokens, hscan, Grammar.definitionsUpTo_rowReadFrom (sound_of_scan? hscan) hread⟩

end EmbeddedGraphQL
