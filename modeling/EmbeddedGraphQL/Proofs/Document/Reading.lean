import EmbeddedGraphQL.Proofs.Document.Grammatical

/-!
# What readers give

Every reader takes tokens from the front and gives something grammatical. Both are said at once:
`Reader.Gives` holds of a reader if all it gives has a property, whatever tokens with legal lexemes
are left. It composes along the readers, so that each reader has one short proof.

* `Cursor.Reaches`: taking tokens from the front.
* `Reader.Gives`: a property of everything that a reader gives.
* `Document.grammatical_of_parse?`: what is read from a text is grammatical.
-/

namespace EmbeddedGraphQL

/-! ## Cursors -/

namespace Cursor

/-- Whether the tokens that are left have legal lexemes and stand in order. -/
structure Sound (c : Cursor) : Prop where
  legal : ∀ t ∈ c.tokens, t.lexeme.Legal
  inOrder : Token.InOrder c.last c.tokens

/-- Whether a cursor is what is left of another one after some tokens were taken. -/
inductive Reaches : Cursor → Cursor → Prop where
  /-- No token was taken. -/
  | refl (c : Cursor) : Reaches c c
  /-- A token was taken before the others. -/
  | take {t : Token} {rest : List Token} {last : Nat} {c : Cursor}
      (h : Reaches ⟨rest, t.span.stop⟩ c) : Reaches ⟨t :: rest, last⟩ c

/-- What is left after tokens were taken twice. -/
theorem Reaches.trans {a b c : Cursor} (hab : a.Reaches b) (hbc : b.Reaches c) : a.Reaches c := by
  induction hab with
  | refl => exact hbc
  | take _ ih => exact .take (ih hbc)

/-- Taking one token leaves legal tokens in order. -/
theorem Sound.take {t : Token} {rest : List Token} {last : Nat}
    (h : Sound ⟨t :: rest, last⟩) : Sound ⟨rest, t.span.stop⟩ :=
  ⟨fun u hu => h.legal u (List.mem_cons_of_mem _ hu), h.inOrder.2.2⟩

/-- Taking tokens leaves legal tokens in order. -/
theorem Sound.reaches {a b : Cursor} (ha : a.Sound) (h : a.Reaches b) : b.Sound := by
  induction h with
  | refl => exact ha
  | take _ ih => exact ih ha.take

end Cursor

/-! ## Properties of what readers give -/

namespace Reader

variable {α β : Type}

/-- What one reader after another gives. -/
theorem bind_eq_some {r : Reader α} {f : α → Reader β} {c c' : Cursor} {y : β} :
    (r >>= f) c = some (y, c') ↔ ∃ x d, r c = some (x, d) ∧ f x d = some (y, c') := by
  show (r c).bind (fun p => f p.1 p.2) = some (y, c') ↔ _
  rw [Option.bind_eq_some_iff]
  exact ⟨fun ⟨⟨x, d⟩, h⟩ => ⟨x, d, h⟩, fun ⟨x, d, h⟩ => ⟨⟨x, d⟩, h⟩⟩

/-- Whether a reader takes tokens from the front and everything it gives has a property. -/
def Gives (r : Reader α) (P : α → Prop) : Prop :=
  ∀ ⦃c : Cursor⦄ ⦃x : α⦄ ⦃c' : Cursor⦄, c.Sound → r c = some (x, c') → c.Reaches c' ∧ P x

namespace Gives

variable {P P' : α → Prop} {Q : β → Prop} {r : Reader α}

/-- A weaker property. -/
theorem imp (hr : r.Gives P) (h : ∀ x, P x → P' x) : r.Gives P' :=
  fun _ _ _ hc hx => (hr hc hx).imp_right (h _)

/-- A reader that gives a value at once. -/
theorem pure {x : α} (h : P x) : (Pure.pure x : Reader α).Gives P := by
  intro c y c' _ hy
  cases hy
  exact ⟨.refl c, h⟩

/-- A reader that fails. -/
theorem failure : (Alternative.failure : Reader α).Gives P := by
  intro c y c' _ hy
  cases hy

/-- One reader after another. -/
theorem bind {f : α → Reader β} (hr : r.Gives P) (hf : ∀ x, P x → (f x).Gives Q) :
    (r >>= f).Gives Q := by
  intro c y c' hc hy
  obtain ⟨x, d, hx, hy⟩ := bind_eq_some.mp hy
  obtain ⟨hcd, hPx⟩ := hr hc hx
  obtain ⟨hdc', hQy⟩ := hf x hPx (hc.reaches hcd) hy
  exact ⟨hcd.trans hdc', hQy⟩

/-- A reader whose result is changed. -/
theorem map {f : α → β} (hr : r.Gives P) (hf : ∀ x, P x → Q (f x)) : (f <$> r).Gives Q :=
  hr.bind fun x hx => .pure (hf x hx)

/-- A choice between readers. -/
theorem ite {p : Prop} [Decidable p] {s : Reader α} (hr : p → r.Gives P) (hs : ¬ p → s.Gives P) :
    (if p then r else s).Gives P := by
  split
  · exact hr ‹_›
  · exact hs ‹_›

end Gives

/-! ## Single tokens -/

/-- A reader that only looks takes nothing. -/
theorem look_gives (look : Cursor → α) :
    Gives (fun c => some (look c, c) : Reader α) fun _ => True := by
  intro c x c' _ h
  cases h
  exact ⟨.refl c, trivial⟩

/-- The token that comes next is legal. -/
theorem peek_gives : peek.Gives fun next => ∀ lexeme ∈ next, lexeme.Legal := by
  rintro ⟨tokens, last⟩ x c' hc h
  cases h
  refine ⟨.refl _, fun lexeme hlexeme => ?_⟩
  obtain ⟨t, ht, rfl⟩ := Option.map_eq_some_iff.mp hlexeme
  exact hc.legal t (List.mem_of_head? ht)

/-- Looking two lexemes ahead takes tokens from the front only. -/
theorem peekSecond_gives : peekSecond.Gives fun _ => True := look_gives _

/-- Asking where the next lexeme starts takes tokens from the front only. -/
theorem start_gives : start.Gives fun _ => True := look_gives _

/-- Asking where the last lexeme stops takes tokens from the front only. -/
theorem stop_gives : stop.Gives fun _ => True := look_gives _

/-- Counting the tokens that are left takes none of them. -/
theorem remaining_gives : remaining.Gives fun _ => True := look_gives _

/-- A token that is taken is legal. -/
theorem take_gives : take.Gives Lexeme.Legal := by
  rintro ⟨tokens, last⟩ x c' hc h
  cases tokens with
  | nil => cases h
  | cons t rest =>
    cases h
    exact ⟨.take (.refl _), hc.legal t List.mem_cons_self⟩

/-- The next token is taken if it is the given one. -/
theorem accept_cons (lexeme : Lexeme) (t : Token) (rest : List Token) (last : Nat) :
    accept lexeme ⟨t :: rest, last⟩ =
      if t.lexeme = lexeme then some (true, ⟨rest, t.span.stop⟩)
      else some (false, ⟨t :: rest, last⟩) := by
  show (if some t.lexeme = some lexeme then (do let _ ← take; return true : Reader Bool)
    else return false) ⟨t :: rest, last⟩ = _
  simp only [Option.some.injEq]
  split <;> rfl

/-- Accepting a token takes this token or none. -/
theorem accept_gives (lexeme : Lexeme) : (accept lexeme).Gives fun _ => True :=
  peek_gives.bind fun _ _ => .ite (fun _ => take_gives.bind fun _ _ => .pure trivial)
    fun _ => .pure trivial

/-- A lexeme that is expected is taken from the front. -/
theorem expect_gives (lexeme : Lexeme) : (expect lexeme).Gives fun _ => True :=
  (accept_gives lexeme).bind fun _ _ => .ite (fun _ => .pure trivial) fun _ => .failure

/-- A mark that is expected is taken from the front. -/
theorem expectMark_gives (c : Char) : (expectMark c).Gives fun _ => True := expect_gives _

/-- A mark is taken from the front, if it stands there. -/
theorem acceptMark_gives (c : Char) : (acceptMark c).Gives fun _ => True := accept_gives _

/-- A word is taken from the front, if it stands there. -/
theorem acceptWord_gives (word : String) : (acceptWord word).Gives fun _ => True := accept_gives _

/-- A name is read exactly if it comes next. -/
theorem name_eq_some {c c' : Cursor} {text : String} :
    name c = some (text, c') ↔
      ∃ t rest, c.tokens = t :: rest ∧ t.lexeme = .name text ∧ c' = ⟨rest, t.span.stop⟩ := by
  obtain ⟨tokens, last⟩ := c
  constructor
  · intro h
    obtain ⟨lexeme, d, htake, h⟩ := bind_eq_some.mp h
    cases tokens with
    | nil => cases htake
    | cons t rest =>
      cases htake
      cases ht : t.lexeme <;> rw [ht] at h <;> cases h
      exact ⟨t, rest, rfl, ht, rfl⟩
  · rintro ⟨t, rest, rfl, ht, rfl⟩
    refine bind_eq_some.mpr ⟨t.lexeme, _, rfl, ?_⟩
    rw [ht]
    rfl

/-- What is read as a name is one. -/
theorem name_gives : name.Gives fun text => isName text = true := by
  refine take_gives.bind fun lexeme hlexeme => ?_
  cases lexeme with
  | name text => exact .pure hlexeme
  | _ => exact .failure

/-! ## Items in a row -/

section Items

variable {P : α → Prop} {item : Reader α}

/-- Items up to a closing mark are items, by the fuel. -/
theorem untilMarkUpTo_gives (close : Char) (h : item.Gives P) (fuel : Nat) :
    (untilMarkUpTo close item fuel).Gives fun items => ∀ x ∈ items, P x := by
  induction fuel with
  | zero => exact .failure
  | succ fuel ih =>
    refine (acceptMark_gives close).bind fun _ _ => .ite (fun _ => .pure (by simp)) fun _ => ?_
    refine h.bind fun first hfirst => ih.bind fun rest hrest => .pure ?_
    exact List.forall_mem_cons.mpr ⟨hfirst, hrest⟩

/-- Items up to a closing mark are items. -/
theorem untilMark_gives (close : Char) (h : item.Gives P) :
    (untilMark close item).Gives fun items => ∀ x ∈ items, P x :=
  remaining_gives.bind fun fuel _ => untilMarkUpTo_gives close h fuel

/-- Items between two marks are items, and there is one at least. -/
theorem between_gives (opening close : Char) (h : item.Gives P) :
    (between opening close item).Gives fun items => items ≠ [] ∧ ∀ x ∈ items, P x :=
  (expectMark_gives opening).bind fun _ _ => h.bind fun _ hfirst =>
    (untilMark_gives close h).bind fun _ hrest =>
      .pure ⟨List.cons_ne_nil _ _, List.forall_mem_cons.mpr ⟨hfirst, hrest⟩⟩

/-- Items between two marks, if the first of them comes next, are items. -/
theorem betweenIfAny_gives (opening close : Char) (h : item.Gives P) :
    (betweenIfAny opening close item).Gives fun items => ∀ x ∈ items, P x :=
  peek_gives.bind fun _ _ =>
    .ite (fun _ => (between_gives opening close h).imp fun _ hitems => hitems.2)
      fun _ => .pure (by simp)

/-- Items as long as a token comes next are items, by the fuel. -/
theorem whileNextUpTo_gives (next : Lexeme) (h : item.Gives P) (fuel : Nat) :
    (whileNextUpTo next item fuel).Gives fun items => ∀ x ∈ items, P x := by
  induction fuel with
  | zero => exact .pure (by simp)
  | succ fuel ih =>
    refine peek_gives.bind fun _ _ => .ite (fun _ => ?_) fun _ => .pure (by simp)
    refine h.bind fun first hfirst => ih.bind fun rest hrest => .pure ?_
    exact List.forall_mem_cons.mpr ⟨hfirst, hrest⟩

/-- Items as long as a token comes next are items. -/
theorem whileNext_gives (next : Lexeme) (h : item.Gives P) :
    (whileNext next item).Gives fun items => ∀ x ∈ items, P x :=
  remaining_gives.bind fun fuel _ => whileNextUpTo_gives next h fuel

/-- Items with marks between them are items, and there is one at least. -/
theorem separated_gives (mark : Char) (h : item.Gives P) :
    (separated mark item).Gives fun items => items ≠ [] ∧ ∀ x ∈ items, P x :=
  (acceptMark_gives mark).bind fun _ _ => h.bind fun _ hfirst =>
    (whileNext_gives _ ((expectMark_gives mark).bind fun _ _ => h)).bind fun _ hrest =>
      .pure ⟨List.cons_ne_nil _ _, List.forall_mem_cons.mpr ⟨hfirst, hrest⟩⟩

end Items
end Reader

/-! ## Values and types -/

namespace Grammar

open Reader

/-- A name and a value, as far as there is a value. -/
theorem namedValue_gives {P : Value → Prop} {value : Reader Value} (h : value.Gives P) :
    (namedValue value).Gives fun item => ∀ p ∈ item, isName p.1 = true ∧ P p.2 := by
  refine name_gives.bind fun name hname => (acceptMark_gives ':').bind fun _ _ => .ite ?_ ?_
  · intro _
    refine h.bind fun v hv => .pure ?_
    intro p hp
    cases hp
    exact ⟨hname, hv⟩
  · intro _
    exact .pure (by simp)

/-- A variable has a name. -/
theorem variableRef_gives :
    variableRef.Gives fun v => ∃ name span, v = .var name span ∧ isName name = true :=
  start_gives.bind fun _ _ => (expectMark_gives '$').bind fun _ _ =>
    name_gives.bind fun name hname => stop_gives.bind fun _ _ => .pure ⟨name, _, rfl, hname⟩

/-- What a name stands for as a value can be written. -/
theorem nameValue_grammatical {const : Bool} {depth : Nat} {name : String}
    (h : isName name = true) : (nameValue name).Grammatical const depth := by
  unfold nameValue
  split
  · trivial
  · trivial
  · trivial
  · exact ⟨h, by simp_all [valueWords]⟩

/-- A value can be written if the values inside it can. -/
theorem valueWith_gives {const : Bool} {depth : Nat} {inner : Reader Value}
    (h : inner.Gives fun v => 0 < depth ∧ v.Grammatical const (depth - 1)) :
    (valueWith const inner).Gives (Value.Grammatical const depth) := by
  -- A variable, a list, an object, or a value that is a single token.
  refine peek_gives.bind fun next _ => ?_
  split
  · refine .ite (fun _ => .failure) fun hconst => variableRef_gives.imp ?_
    rintro v ⟨name, span, rfl, hname⟩
    exact ⟨by simpa using hconst, hname⟩
  · refine (expectMark_gives '[').bind fun _ _ => (untilMark_gives ']' h).bind ?_
    intro items hitems
    exact .pure (Value.grammaticalItems_iff.mpr hitems)
  · refine (expectMark_gives _).bind fun _ _ =>
      (untilMark_gives _ (namedValue_gives h)).bind fun fields hfields => .pure ?_
    refine Value.grammaticalFields_iff.mpr fun p hp => ?_
    obtain ⟨field, hfield, hp⟩ := List.mem_filterMap.mp hp
    exact hfields field hfield p hp
  · refine take_gives.bind fun lexeme hlexeme => ?_
    cases lexeme with
    | name text => exact .pure (nameValue_grammatical hlexeme)
    | int digits => exact .pure hlexeme
    | float digits => exact .pure hlexeme
    | string text => exact .pure trivial
    | _ => exact .failure

/-- A value is nested no deeper than its reader allows, by the allowance. -/
theorem value_gives (const : Bool) (depth : Nat) :
    (value const depth).Gives (Value.Grammatical const depth) := by
  induction depth with
  | zero => exact valueWith_gives .failure
  | succ depth ih => exact valueWith_gives (ih.imp fun v hv => ⟨Nat.succ_pos depth, hv⟩)

/-- A type reference is nested one level deeper than the item type that is read inside. -/
theorem typeRefWith_gives {depth : Nat} {inner : Reader TypeRef}
    (h : inner.Gives fun t => 0 < depth ∧ t.Grammatical (depth - 1)) :
    (typeRefWith inner).Gives (TypeRef.Grammatical depth) := by
  refine (acceptMark_gives '[').bind fun _ _ => .ite (fun _ => ?_) fun _ => ?_
  · exact h.bind fun item hitem => (expectMark_gives ']').bind fun _ _ =>
      (acceptMark_gives '!').bind fun _ _ => .pure hitem
  · exact name_gives.bind fun name hname =>
      (acceptMark_gives '!').bind fun _ _ => .pure hname

/-- A type reference is nested no deeper than its reader allows. -/
theorem typeRef_gives (depth : Nat) : (typeRef depth).Gives (TypeRef.Grammatical depth) := by
  induction depth with
  | zero => exact typeRefWith_gives .failure
  | succ depth ih => exact typeRefWith_gives (ih.imp fun t ht => ⟨Nat.succ_pos depth, ht⟩)

/-- Arguments without a value are dropped, and all others are grammatical. -/
theorem arguments_gives (const : Bool) (depth : Nat) :
    (arguments const depth).Gives fun args => ∀ a ∈ args, a.Grammatical const depth := by
  refine (betweenIfAny_gives '(' ')' (namedValue_gives (value_gives const depth))).bind ?_
  refine fun items hitems => .pure fun a ha => ?_
  obtain ⟨p, hp, rfl⟩ := List.mem_map.mp ha
  obtain ⟨item, hitem, hp⟩ := List.mem_filterMap.mp hp
  obtain ⟨hname, hvalue⟩ := hitems item hitem p hp
  exact ⟨hname, hvalue⟩

/-- A directive that is read is grammatical. -/
theorem directive_gives (const : Bool) (depth : Nat) :
    (directive const depth).Gives (Directive.Grammatical const depth) :=
  (expectMark_gives '@').bind fun _ _ => name_gives.bind fun _ hname =>
    (arguments_gives const depth).bind fun _ hargs => .pure ⟨hname, hargs⟩

/-- Directives that are read are grammatical. -/
theorem directives_gives (const : Bool) (depth : Nat) :
    (directives const depth).Gives fun ds => ∀ d ∈ ds, d.Grammatical const depth :=
  whileNext_gives _ (directive_gives const depth)

/-! ## Selections -/

/-- Whether a selection set under a selection can be written. -/
def IsSet (depth : Nat) (set : List Selection) : Prop :=
  set ≠ [] ∧ Selection.GrammaticalSet depth set

/-- The name of a field is a name, with and without an alias. -/
theorem fieldName_gives (aliased : Bool) {first : String} (h : isName first = true) :
    (fieldName aliased first).Gives fun name => isName name = true :=
  .ite (fun _ => (expectMark_gives ':').bind fun _ _ => name_gives) fun _ => .pure h

/-- A selection set under a field is grammatical, also if there is none. -/
theorem setIfAny_gives {depth : Nat} {set : Reader (List Selection)}
    (h : set.Gives (IsSet depth)) : (setIfAny set).Gives (Selection.GrammaticalSet depth) :=
  peek_gives.bind fun _ _ => .ite (fun _ => h.imp fun _ hset => hset.2) fun _ => .pure trivial

/-- A field is grammatical if the sets that are read under it are. -/
theorem fieldWith_gives {depth : Nat} {set : Reader (List Selection)}
    (h : set.Gives (IsSet depth)) :
    (fieldWith depth set).Gives (Selection.Grammatical depth) := by
  refine start_gives.bind fun start _ => peekSecond_gives.bind fun second _ =>
    name_gives.bind fun first hfirst => (fieldName_gives _ hfirst).bind fun name hname =>
    (arguments_gives false depth).bind fun args hargs =>
    (directives_gives false depth).bind fun ds hds =>
    (setIfAny_gives h).bind fun selections hset => stop_gives.bind fun stop _ =>
    .pure ⟨⟨?_, hname, hargs, hds⟩, hset⟩
  intro shown hshown
  split at hshown
  · cases hshown
    exact hfirst
  · cases hshown

/-- A type condition is a name. -/
theorem typeCondition_gives :
    typeCondition.Gives fun condition => ∀ name ∈ condition, isName name = true :=
  (acceptWord_gives "on").bind fun _ _ =>
    .ite (fun _ => name_gives.map fun _ hname => by simpa using hname) fun _ => .pure (by simp)

/-- An inline fragment is grammatical if the sets that are read under it are. -/
theorem inlineWith_gives {depth start : Nat} {set : Reader (List Selection)}
    (h : set.Gives (IsSet depth)) :
    (inlineWith depth start set).Gives (Selection.Grammatical depth) :=
  typeCondition_gives.bind fun _ hcondition =>
    (directives_gives false depth).bind fun _ hds => h.bind fun _ hset =>
    stop_gives.bind fun _ _ => .pure ⟨⟨hcondition, hds⟩, hset.1, hset.2⟩

/-- A spread whose name comes next can be written if the name is not `on`. -/
theorem spreadAfterDots_gives {depth start : Nat} {c c' : Cursor} {x : Selection}
    {text : String} (hnext : c.tokens.head?.map (·.lexeme) = some (.name text))
    (hne : text ≠ "on") (hc : c.Sound) (h : spreadAfterDots depth start c = some (x, c')) :
    c.Reaches c' ∧ x.Grammatical depth := by
  obtain ⟨shown, d, hname, h⟩ := bind_eq_some.mp h
  obtain ⟨hcd, hisName⟩ := name_gives hc hname
  have hshown : shown = text := by
    obtain ⟨t, rest, htokens, ht, -⟩ := name_eq_some.mp hname
    simpa [htokens, ht] using hnext
  have hrest : Gives (do
      let ds ← directives false depth
      let stop ← Reader.stop
      return .spread ⟨shown, ds, some ⟨start, stop⟩⟩) (Selection.Grammatical depth) :=
    (directives_gives false depth).bind fun _ hds => stop_gives.bind fun _ _ =>
      .pure ⟨hisName, hshown ▸ hne, hds⟩
  obtain ⟨hdc', hx⟩ := hrest (hc.reaches hcd) h
  exact ⟨hcd.trans hdc', hx⟩

/-- The token after the next one is the next one when the next one was taken. -/
theorem head?_of_accept {lexeme second : Lexeme} {c d : Cursor}
    (hsecond : peekSecond c = some (some second, c)) (h : accept lexeme c = some (true, d)) :
    d.tokens.head?.map (·.lexeme) = some second := by
  obtain ⟨tokens, last⟩ := c
  cases tokens with
  | nil => cases h
  | cons t rest =>
    rw [accept_cons] at h
    split at h
    · cases h
      simp only [peekSecond, Option.some.injEq, Prod.mk.injEq, and_true] at hsecond
      obtain ⟨u, hu, hlexeme⟩ := Option.map_eq_some_iff.mp hsecond
      have hhead : rest.head? = some u := (Option.filter_eq_some_iff.mp hu).1
      rw [hhead, Option.map_some, hlexeme]
    · cases h

/-- A selection is grammatical if the sets that are read under it are, whatever follows the dots. -/
theorem selectionWith_gives {depth : Nat} {set : Reader (List Selection)}
    (h : set.Gives (IsSet depth)) :
    (selectionWith depth set).Gives (Selection.Grammatical depth) := by
  intro c x c' hc hx
  obtain ⟨start, c1, hstart, hx⟩ := bind_eq_some.mp hx
  cases hstart
  obtain ⟨second, c2, hsecond, hx⟩ := bind_eq_some.mp hx
  have hc2 : c2 = c := by
    cases hsecond
    rfl
  subst hc2
  obtain ⟨dots, d, hdots, hx⟩ := bind_eq_some.mp hx
  obtain ⟨hcd, -⟩ := accept_gives _ hc hdots
  have hd := hc.reaches hcd
  -- The dots are taken already; what is read behind them is a fragment, and a field without them.
  suffices hgoal : d.Reaches c' ∧ x.Grammatical depth from ⟨hcd.trans hgoal.1, hgoal.2⟩
  split at hx
  · rename_i htrue
    subst htrue
    split at hx
    · rename_i text
      split at hx
      · exact inlineWith_gives h hd hx
      · exact spreadAfterDots_gives (head?_of_accept hsecond hdots) ‹_› hd hx
    · exact inlineWith_gives h hd hx
    · cases hx
  · exact fieldWith_gives h hd hx

/-- A selection set is nested no deeper than its reader allows, and not empty. -/
theorem selectionSet_gives (depth : Nat) : (selectionSet depth).Gives (IsSet depth) := by
  induction depth with
  | zero => exact .failure
  | succ depth ih =>
    refine (between_gives _ _ (selectionWith_gives ih)).imp fun set hset => ⟨hset.1, ?_⟩
    exact Selection.grammaticalSet_iff.mpr fun s hs => ⟨Nat.succ_pos depth, hset.2 s hs⟩

/-! ## Operations and fragments -/

/-- A default value has no variables. -/
theorem defaultValue_gives :
    defaultValue.Gives fun default => ∀ v ∈ default, v.Grammatical true maxDepth :=
  (acceptMark_gives '=').bind fun _ _ =>
    .ite (fun _ => (value_gives true maxDepth).map fun _ hv => by simpa using hv)
      fun _ => .pure (by simp)

/-- A variable definition that is read is grammatical. -/
theorem variableDefinition_gives : variableDefinition.Gives VariableDefinition.Grammatical :=
  (expectMark_gives '$').bind fun _ _ => name_gives.bind fun _ hname =>
    (expectMark_gives ':').bind fun _ _ => (typeRef_gives maxDepth).bind fun _ htype =>
    defaultValue_gives.bind fun _ hdefault => (directives_gives true maxDepth).bind fun _ hds =>
    .pure ⟨hname, htype, hdefault, hds⟩

/-- The kind of an operation is read from the front. -/
theorem operationKind_gives : operationKind.Gives fun _ => True := by
  refine name_gives.bind fun word _ => ?_
  cases OperationKind.ofKeyword? word with
  | some kind => exact .pure trivial
  | none => exact .failure

/-- The name of an operation is a name, if it has one. -/
theorem operationName_gives :
    operationName.Gives fun shown => ∀ name ∈ shown, isName name = true := by
  refine peek_gives.bind fun next _ => ?_
  split
  · exact name_gives.map fun _ hname => by simpa using hname
  · exact .pure (by simp)

/-- An operation behind its keyword is grammatical. -/
theorem namedOperation_gives (start : Nat) :
    (namedOperation start).Gives Definition.Grammatical :=
  operationKind_gives.bind fun _ _ => operationName_gives.bind fun _ hname =>
    (betweenIfAny_gives '(' ')' variableDefinition_gives).bind fun _ hvariables =>
    (directives_gives false maxDepth).bind fun _ hds =>
    (selectionSet_gives maxDepth).bind fun _ hset => stop_gives.bind fun _ _ =>
    .pure ⟨hname, hvariables, hds, hset.1, hset.2⟩

/-- A query that is nothing but a selection set is grammatical. -/
theorem bareQuery_gives (start : Nat) : (bareQuery start).Gives Definition.Grammatical :=
  (selectionSet_gives maxDepth).bind fun _ hset => stop_gives.bind fun _ _ =>
    .pure ⟨by simp, by simp, by simp, hset.1, hset.2⟩

/-- What is guarded holds afterwards. -/
theorem guard_gives (p : Prop) [Decidable p] : (guard p : Reader Unit).Gives fun _ => p :=
  .ite (fun h => .pure h) fun _ => .failure

/-- A fragment definition is grammatical: its name is not `on`. -/
theorem fragmentDefinition_gives (start : Nat) :
    (fragmentDefinition start).Gives Definition.Grammatical :=
  take_gives.bind fun _ _ => name_gives.bind fun _ hname => (guard_gives _).bind fun _ hne =>
    (expect_gives _).bind fun _ _ => name_gives.bind fun _ hcondition =>
    (directives_gives false maxDepth).bind fun _ hds =>
    (selectionSet_gives maxDepth).bind fun _ hset => stop_gives.bind fun _ _ =>
    .pure ⟨hname, hne, hcondition, hds, hset.1, hset.2⟩

/-! ## Types, directives and schemas -/

/-- A description is read from the front, if there is one. -/
theorem description_gives : description.Gives fun _ => True := by
  refine peek_gives.bind fun next _ => ?_
  split
  · exact take_gives.bind fun _ _ => .pure trivial
  · exact .pure trivial

/-- The declaration of an argument or input field is grammatical. -/
theorem inputDeclaration_gives : inputDeclaration.Gives InputDeclaration.Grammatical :=
  description_gives.bind fun _ _ => name_gives.bind fun _ hname =>
    (expectMark_gives ':').bind fun _ _ => (typeRef_gives maxDepth).bind fun _ htype =>
    defaultValue_gives.bind fun _ hdefault => (directives_gives true maxDepth).bind fun _ hds =>
    .pure ⟨hname, htype, hdefault, hds⟩

/-- The declaration of a field is grammatical. -/
theorem fieldDeclaration_gives : fieldDeclaration.Gives FieldDeclaration.Grammatical :=
  description_gives.bind fun _ _ => name_gives.bind fun _ hname =>
    (betweenIfAny_gives '(' ')' inputDeclaration_gives).bind fun _ hargs =>
    (expectMark_gives ':').bind fun _ _ => (typeRef_gives maxDepth).bind fun _ htype =>
    (directives_gives true maxDepth).bind fun _ hds => .pure ⟨hname, hargs, htype, hds⟩

/-- The declaration of an enum value is grammatical: it is no word with a meaning of its own. -/
theorem enumDeclaration_gives : enumDeclaration.Gives EnumDeclaration.Grammatical :=
  description_gives.bind fun _ _ => name_gives.bind fun _ hname =>
    (guard_gives _).bind fun _ hvalue => (directives_gives true maxDepth).bind fun _ hds =>
    .pure ⟨hname, hvalue, hds⟩

/-- The interfaces of a type have names. -/
theorem interfaces_gives : interfaces.Gives fun names => ∀ n ∈ names, isName n = true :=
  (acceptWord_gives _).bind fun _ _ =>
    .ite (fun _ => (separated_gives '&' name_gives).imp fun _ h => h.2) fun _ => .pure (by simp)

/-- The members of a union have names. -/
theorem unionMembers_gives : unionMembers.Gives fun names => ∀ n ∈ names, isName n = true :=
  (acceptMark_gives _).bind fun _ _ =>
    .ite (fun _ => (separated_gives '|' name_gives).imp fun _ h => h.2) fun _ => .pure (by simp)

/-- The definition of a type is grammatical, whatever its keyword. -/
theorem typeDeclaration_gives (keyword : String) :
    (typeDeclaration keyword).Gives TypeDeclaration.Grammatical := by
  have hfields : fieldDeclarations.Gives fun fs => ∀ f ∈ fs, f.Grammatical :=
    betweenIfAny_gives _ _ fieldDeclaration_gives
  have hds := directives_gives true maxDepth
  unfold typeDeclaration
  split
  · exact name_gives.bind fun _ hname => hds.bind fun _ hds => .pure ⟨hname, hds, trivial⟩
  · exact name_gives.bind fun _ hname => interfaces_gives.bind fun _ hnames =>
      hds.bind fun _ hds => hfields.bind fun _ hfields => .pure ⟨hname, hds, hnames, hfields⟩
  · exact name_gives.bind fun _ hname => interfaces_gives.bind fun _ hnames =>
      hds.bind fun _ hds => hfields.bind fun _ hfields => .pure ⟨hname, hds, hnames, hfields⟩
  · exact name_gives.bind fun _ hname => hds.bind fun _ hds =>
      unionMembers_gives.bind fun _ hmembers => .pure ⟨hname, hds, hmembers⟩
  · exact name_gives.bind fun _ hname => hds.bind fun _ hds =>
      (betweenIfAny_gives _ _ enumDeclaration_gives).bind fun _ hvalues =>
      .pure ⟨hname, hds, hvalues⟩
  · exact name_gives.bind fun _ hname => hds.bind fun _ hds =>
      (betweenIfAny_gives _ _ inputDeclaration_gives).bind fun _ hfields =>
      .pure ⟨hname, hds, hfields⟩
  · exact .failure

/-- A root type has a name, unless it is dropped. -/
theorem rootType_gives : rootType.Gives fun root => ∀ r ∈ root, isName r.2 = true := by
  refine operationKind_gives.bind fun kind _ => (expectMark_gives ':').bind fun _ _ =>
    peek_gives.bind fun next hnext => ?_
  split
  · rename_i text
    refine take_gives.bind fun _ _ => .pure ?_
    have hname : isName text = true := hnext _ rfl
    simpa using hname
  · exact .pure (by simp)

/-- The root types that were given can be written. -/
theorem roots_grammatical {roots : List (Option (OperationKind × String))}
    (h : ∀ root ∈ roots, ∀ r ∈ root, isName r.2 = true) :
    ∀ r ∈ roots.filterMap id, isName r.2 = true := by
  intro r hr
  obtain ⟨root, hroot, hr⟩ := List.mem_filterMap.mp hr
  exact h root hroot r hr

/-- The definition of a schema is grammatical. -/
theorem schemaDeclaration_gives : schemaDeclaration.Gives SchemaDeclaration.Grammatical :=
  (directives_gives true maxDepth).bind fun _ hds =>
    (betweenIfAny_gives _ _ rootType_gives).bind fun _ hroots =>
    .pure ⟨hds, roots_grammatical hroots⟩

/-- The root types that are added to a schema have names. -/
theorem addedRoots_gives :
    addedRoots.Gives fun roots => ∀ root ∈ roots, ∀ r ∈ root, isName r.2 = true :=
  (acceptMark_gives _).bind fun _ _ =>
    .ite (fun _ => untilMark_gives _ rootType_gives) fun _ => .pure (by simp)

/-- The extension of a schema is grammatical. -/
theorem schemaAddition_gives : schemaAddition.Gives SchemaDeclaration.Grammatical :=
  (directives_gives true maxDepth).bind fun _ hds => addedRoots_gives.bind fun _ hroots =>
    (guard_gives _).bind fun _ _ => .pure ⟨hds, roots_grammatical hroots⟩

/-- A place where a directive may stand is one of the known ones. -/
theorem directiveLocation_gives : directiveLocation.Gives (· ∈ directiveLocations) :=
  name_gives.bind fun _ _ => .ite (fun h => .pure h) fun _ => .failure

/-- The definition of a directive is grammatical. -/
theorem directiveDeclaration_gives :
    directiveDeclaration.Gives DirectiveDeclaration.Grammatical :=
  (expectMark_gives '@').bind fun _ _ => name_gives.bind fun _ hname =>
    (betweenIfAny_gives '(' ')' inputDeclaration_gives).bind fun _ hargs =>
    (acceptWord_gives _).bind fun _ _ => (expect_gives _).bind fun _ _ =>
    (separated_gives '|' directiveLocation_gives).bind fun _ hlocations =>
    .pure ⟨hname, hargs, hlocations.1, hlocations.2⟩

/-- A definition of the type system is grammatical, with and without a description. -/
theorem systemDefinition_gives (start : Nat) (description : Option String) :
    (systemDefinition start description).Gives Definition.Grammatical := by
  refine name_gives.bind fun keyword _ => ?_
  split
  · exact schemaDeclaration_gives.bind fun _ hschema => stop_gives.bind fun _ _ => .pure hschema
  · exact directiveDeclaration_gives.bind fun _ hdirective =>
      stop_gives.bind fun _ _ => .pure hdirective
  · exact (typeDeclaration_gives keyword).bind fun _ htype =>
      stop_gives.bind fun _ _ => .pure htype

/-- An extension of the type system is grammatical. -/
theorem extension_gives (start : Nat) : (extension start).Gives Definition.Grammatical := by
  refine peekSecond_gives.bind fun _ _ => (expect_gives _).bind fun _ _ =>
    (guard_gives _).bind fun _ _ => name_gives.bind fun keyword _ => ?_
  split
  · exact schemaAddition_gives.bind fun _ hschema => stop_gives.bind fun _ _ => .pure hschema
  · exact (typeDeclaration_gives keyword).bind fun _ htype =>
      .ite (fun h => stop_gives.bind fun _ _ => .pure ⟨htype, h⟩) fun _ => .failure

/-- A definition behind a description is grammatical, also if the description stands for a keyword.
-/
theorem describedDefinition_gives (start : Nat) :
    (describedDefinition start).Gives Definition.Grammatical := by
  refine peekSecond_gives.bind fun second _ => ?_
  split
  · exact .failure
  · exact fragmentDefinition_gives start
  · exact description_gives.bind fun text _ => systemDefinition_gives start text

/-- A definition is grammatical, whatever it starts with. -/
theorem definition_gives : definition.Gives Definition.Grammatical := by
  refine start_gives.bind fun start _ => peek_gives.bind fun next _ => ?_
  split
  · exact bareQuery_gives start
  · exact describedDefinition_gives start
  · exact fragmentDefinition_gives start
  · exact extension_gives start
  · exact .ite (fun _ => namedOperation_gives start) fun _ => systemDefinition_gives start none
  · exact .failure

/-- Definitions are read one after the other, by the fuel. -/
theorem definitionsUpTo_gives {P : Definition → Prop} (h : definition.Gives P) (fuel : Nat) :
    (definitionsUpTo fuel).Gives fun ds => ∀ d ∈ ds, P d := by
  induction fuel with
  | zero => exact .pure (by simp)
  | succ fuel ih =>
    refine peek_gives.bind fun _ _ => .ite (fun _ => .pure (by simp)) fun _ => ?_
    refine h.bind fun first hfirst => ih.bind fun rest hrest => .pure ?_
    exact List.forall_mem_cons.mpr ⟨hfirst, hrest⟩

end Grammar

namespace Document

/-- The tokens of a text are legal and in order. -/
theorem sound_of_scan? {text : List Char} {tokens : List Token}
    (h : Token.scan? text = some tokens) : Cursor.Sound ⟨tokens, 0⟩ :=
  have hsound := Token.scanUpTo_sound h
  ⟨hsound.2, hsound.1⟩

/-- A document that is read from a text is what is read from its tokens. -/
theorem parse?_eq_some_iff {text : String} {d : Document} :
    parse? text = some d ↔ ∃ tokens c, Token.scan? text.toList = some tokens ∧
      Grammar.definitionsUpTo tokens.length ⟨tokens, 0⟩ = some (d.definitions, c) ∧
      d.definitions ≠ [] := by
  rw [parse?, Option.bind_eq_some_iff]
  refine exists_congr fun tokens => ?_
  rw [ofTokens?, exists_and_left, and_congr_right_iff]
  intro _
  split
  · -- Something is defined: the document is what was read.
    rename_i first rest c hread
    have hread : Grammar.definitionsUpTo tokens.length ⟨tokens, 0⟩ = some (first :: rest, c) :=
      hread
    rw [hread]
    constructor
    · intro h
      cases h
      exact ⟨c, rfl, List.cons_ne_nil _ _⟩
    · rintro ⟨c', h, -⟩
      rw [Option.some.injEq, Prod.mk.injEq] at h
      rw [h.1]
  · -- Nothing is, or the reader failed.
    rename_i hread
    refine ⟨fun h => by simp at h, ?_⟩
    rintro ⟨c, h, hne⟩
    obtain ⟨first, rest, hds⟩ := List.exists_cons_of_ne_nil hne
    exact absurd (hds ▸ h) (hread first rest c)

/-- What is read from a text is grammatical. -/
theorem grammatical_of_parse? {text : String} {d : Document} (h : parse? text = some d) :
    d.Grammatical := by
  obtain ⟨tokens, c, hscan, hread, hne⟩ := parse?_eq_some_iff.mp h
  have hgives := Grammar.definitionsUpTo_gives Grammar.definition_gives tokens.length
  exact ⟨hne, (hgives (sound_of_scan? hscan) hread).2⟩

end Document
end EmbeddedGraphQL
