import EmbeddedGraphQL.Proofs.Document.PrintedGlyphs
import EmbeddedGraphQL.Proofs.Document.ReadGlyphs
import EmbeddedGraphQL.Proofs.Document.SameParts

/-!
# Reading values and selections back

The glyphs of a printed part are read as the same part again. Only a text that spans lines may come
back changed: its lines are indented, and a carriage return in the indentation ends a line.

* `Value.spansLines`: whether a value is printed with a text over several lines.
* `Surroundings.Rereads`: a part is read as it was, unless its texts come back changed.
* `Grammar.value_reads`, `Grammar.typeRef_reads`, `Grammar.directives_reads`: values, types and
  directives.
* `Grammar.selectionSet_reads`: selection sets.
-/

namespace EmbeddedGraphQL

/-! ## What may follow -/

namespace Reader

/-- Whether what comes next is none of some marks. -/
def avoids (marks : List Char) (next : Option Lexeme) : Prop := ∀ c ∈ marks, next ≠ some (.mark c)

/-- What is none of many marks is none of a few of them. -/
theorem avoids.subset {few many : List Char} {next : Option Lexeme} (h : avoids many next)
    (hsubset : few ⊆ many) : avoids few next := fun c hc => h c (hsubset hc)

@[simp] theorem avoids_mark {marks : List Char} {c : Char} :
    avoids marks (some (.mark c)) ↔ c ∉ marks := by
  constructor
  · intro h hc
    exact h c hc rfl
  · intro h d hd heq
    cases heq
    exact h hd

@[simp] theorem avoids_name (marks : List Char) (text : String) :
    avoids marks (some (.name text)) := fun _ _ h => nomatch h

@[simp] theorem avoids_string (marks : List Char) (text : String) :
    avoids marks (some (.string text)) := fun _ _ h => nomatch h

@[simp] theorem avoids_dots (marks : List Char) : avoids marks (some .dots) :=
  fun _ _ h => nomatch h

@[simp] theorem avoids_none (marks : List Char) : avoids marks none := fun _ _ h => nomatch h

/-- Items that were read and some that count for nothing. -/
theorem Agree.filterMap {α β : Type} {E : α → β → Prop} {xs : List α} {os : List (Option β)}
    (h : Agree (fun x o => ∃ y, o = some y ∧ E x y) xs os) : Agree E xs (os.filterMap id) := by
  induction xs generalizing os with
  | nil =>
    cases os with
    | nil => trivial
    | cons o os => exact h.elim
  | cons x xs ih =>
    cases os with
    | nil => exact h.elim
    | cons o os =>
      obtain ⟨⟨y, rfl, hy⟩, hrest⟩ := h
      exact ⟨hy, ih hrest⟩

/-- Items that were read may be changed one by one. -/
theorem Agree.map {α β γ : Type} {E : α → β → Prop} {G : α → γ → Prop} {f : β → γ} {xs : List α}
    {ys : List β} (h : Agree E xs ys) (hf : ∀ x y, E x y → G x (f y)) : Agree G xs (ys.map f) := by
  induction xs generalizing ys with
  | nil =>
    cases ys with
    | nil => trivial
    | cons y ys => exact h.elim
  | cons x xs ih =>
    cases ys with
    | nil => exact h.elim
    | cons y ys => exact ⟨hf x y h.1, ih h.2⟩

/-- Items that were read as the same make up the same list. -/
theorem Agree.sameList {α : Type} {eq : α → α → Bool} {xs ys : List α}
    (h : Agree (fun x y => eq x y = true) xs ys) : sameList eq xs ys = true := by
  induction xs generalizing ys with
  | nil =>
    cases ys with
    | nil => rfl
    | cons y ys => exact h.elim
  | cons x xs ih =>
    cases ys with
    | nil => exact h.elim
    | cons y ys => rw [EmbeddedGraphQL.sameList, h.1, ih h.2, Bool.true_and]

end Reader

/-! ## Texts over several lines -/

namespace Value

mutual

/-- Whether a value is printed with a text over several lines. -/
def spansLines (layout : Layout) : Value → Bool
  | .string text => Printer.spansLines layout false text
  | .list items => itemsSpanLines layout.inner items
  | .object fields => fieldsSpanLines layout.inner fields
  | _ => false

/-- Whether an item of a list is printed with a text over several lines. -/
def itemsSpanLines (layout : Layout) : List Value → Bool
  | [] => false
  | v :: rest => v.spansLines layout || itemsSpanLines layout rest

/-- Whether a field of an object is printed with a text over several lines. -/
def fieldsSpanLines (layout : Layout) : List (String × Value) → Bool
  | [] => false
  | (_, v) :: rest => v.spansLines layout || fieldsSpanLines layout rest

end

mutual

/-- On one line there are no texts over several lines. -/
@[simp] theorem spansLines_oneLine : (v : Value) → v.spansLines .oneLine = false
  | .null | .boolean _ | .enum _ | .int _ | .float _ | .var _ _ | .string _ => rfl
  | .list items => itemsSpanLines_oneLine items
  | .object fields => fieldsSpanLines_oneLine fields

/-- On one line no item is printed over several lines. -/
theorem itemsSpanLines_oneLine : (items : List Value) → itemsSpanLines .oneLine items = false
  | [] => rfl
  | v :: rest => by
    rw [itemsSpanLines, spansLines_oneLine v, itemsSpanLines_oneLine rest, Bool.or_self]

/-- On one line no field of an object is printed over several lines. -/
theorem fieldsSpanLines_oneLine :
    (fields : List (String × Value)) → fieldsSpanLines .oneLine fields = false
  | [] => rfl
  | (_, v) :: rest => by
    rw [fieldsSpanLines, spansLines_oneLine v, fieldsSpanLines_oneLine rest, Bool.or_self]

end

end Value

namespace Surroundings

open Reader (Agree)

variable {s : Surroundings}

/-- Whether a part is read as it was, unless it has a text over several lines and the indentation
has a carriage return. -/
def Rereads (s : Surroundings) (same spans : Bool) : Prop :=
  same = !(s.indent.contains '\r' && spans)

namespace Rereads

variable {a b x y : Bool}

/-- Two parts that are read back. -/
theorem and (ha : s.Rereads a x) (hb : s.Rereads b y) : s.Rereads (a && b) (x || y) := by
  rw [Rereads, ha, hb, Bool.and_or_distrib_left, Bool.not_or]

/-- A part without texts over several lines is read back as it was. -/
theorem of_true (h : a = true) : s.Rereads a false := by
  rw [Rereads, h, Bool.and_false, Bool.not_false]

/-- A part that is read back without texts over several lines is what it was. -/
theorem eq_true (h : s.Rereads a false) : a = true := by
  rwa [Rereads, Bool.and_false, Bool.not_false] at h

/-- A part next to one that is read as it was. -/
theorem and_true (ha : s.Rereads a x) (hb : b = true) : s.Rereads (a && b) x := by
  rwa [hb, Bool.and_true]

/-- A part that is what it was, and one that is read back. -/
theorem true_and (ha : a = true) (hb : s.Rereads b y) : s.Rereads (a && b) y := by
  rwa [ha, Bool.true_and]

/-- A part is read as it was exactly if it has no text over several lines or the indentation has no
carriage return. -/
theorem eq_true_iff (h : s.Rereads a x) : a = true ↔ ('\r' ∈ s.indent → x = false) := by
  rw [h, ← List.contains_iff_mem]
  cases s.indent.contains '\r' <;> simp

/-- A text is read back as it was unless it is printed over several lines. -/
theorem text (layout : Layout) (preferBlock : Bool) (text : String) :
    s.Rereads (text == s.reread layout preferBlock text)
      (Printer.spansLines layout preferBlock text) := by
  have hiff : s.reread layout preferBlock text = text ↔ _ := reread_eq_iff
  rw [Rereads, Bool.eq_iff_iff, beq_iff_eq, eq_comm, hiff]
  cases Printer.spansLines layout preferBlock text <;> simp

/-- Parts that are read back one by one. -/
theorem sameList {α : Type} {eq : α → α → Bool} {spans : α → Bool} {xs ys : List α}
    (h : Agree (fun x y => s.Rereads (eq x y) (spans x)) xs ys) :
    s.Rereads (sameList eq xs ys) (xs.any spans) := by
  induction xs generalizing ys with
  | nil =>
    cases ys with
    | nil => exact of_true rfl
    | cons y ys => exact h.elim
  | cons x xs ih =>
    cases ys with
    | nil => exact h.elim
    | cons y ys => exact h.1.and (ih h.2)

end Rereads
end Surroundings

open Reader Surroundings

variable {s : Surroundings}

/-! ## Values and types -/

namespace Value

/-- A value starts with no closing mark. -/
theorem exists_glyphs (s : Surroundings) (layout : Layout) (v : Value) :
    ∃ l gs, s.valueGlyphs layout v = .lexeme l :: gs ∧ l ≠ .mark ']' := by
  cases v with
  | boolean b => cases b <;> exact ⟨_, [], by rw [valueGlyphs], by simp⟩
  | var name span => exact ⟨_, _, by rw [valueGlyphs], by simp⟩
  | list items => exact ⟨_, _, by rw [valueGlyphs, Glyph.commas], by simp⟩
  | object fields => exact ⟨_, _, by rw [valueGlyphs, Glyph.commas], by simp⟩
  | string text => exact ⟨_, [], by rw [valueGlyphs, textGlyph], by simp⟩
  | _ => exact ⟨_, [], by rw [valueGlyphs], by simp⟩

/-- Items are compared one by one. -/
theorem sameItems_eq (items others : List Value) :
    sameItems items others = sameList same items others := by
  induction items generalizing others with
  | nil => cases others <;> rfl
  | cons v items ih =>
    cases others with
    | nil => rfl
    | cons w others => rw [sameItems, sameList, ih]

/-- The fields of an object are compared one by one, by name and value. -/
theorem sameFields_eq (fields others : List (String × Value)) :
    sameFields fields others = sameList (fun p q => p.1 == q.1 && p.2.same q.2) fields others := by
  induction fields generalizing others with
  | nil => cases others <;> rfl
  | cons p fields ih =>
    cases others with
    | nil => rfl
    | cons q others => rw [sameFields, sameList, ih]

/-- Items span lines if one of them does. -/
theorem itemsSpanLines_eq (layout : Layout) (items : List Value) :
    itemsSpanLines layout items = items.any (spansLines layout) := by
  induction items with
  | nil => rfl
  | cons v items ih => rw [itemsSpanLines, List.any_cons, ih]

/-- The fields of an object span lines if one of their values does. -/
theorem fieldsSpanLines_eq (layout : Layout) (fields : List (String × Value)) :
    fieldsSpanLines layout fields = fields.any fun p => p.2.spansLines layout := by
  induction fields with
  | nil => rfl
  | cons p fields ih => rw [fieldsSpanLines, List.any_cons, ih]

end Value

namespace Grammar

/-- Parts between brackets stand in a row in every layout. -/
theorem row_commas (layout : Layout) (parts : List (List Glyph)) :
    Glyph.Row parts (if layout.breaks then parts.flatMap (· ++ [.comma])
      else List.intercalate [.comma] parts) := by
  split
  · exact .flatMap parts
  · exact .intercalate parts

/-- A name and a value behind a colon are read back. -/
theorem namedValue_reads {value : Reader Value} {P : Value → Prop} (name : String)
    {gs : List Glyph} (h : value.Reads gs anyNext P) :
    (namedValue value).Reads (.name name :: .mark ':' :: gs) anyNext
      fun item => ∃ p, item = some p ∧ p.1 = name ∧ P p.2 := by
  refine (name_reads name).andThen fun text htext => ?_
  refine (acceptMark_reads ':').andThen fun accepted haccepted => ?_
  rw [haccepted, if_pos rfl]
  exact h.last (fun v hv => .pure ⟨_, rfl, htext, hv⟩) fun _ _ => trivial

/-- A variable is read back, at another place perhaps. -/
theorem variableRef_reads (text : String) (span : Option Span) :
    variableRef.Reads [.mark '$', .name text] anyNext fun w => (Value.var text span).same w = true := by
  refine .start fun _ => (expectMark_reads '$').andThen fun _ _ => ?_
  refine (name_reads text).andThen fun name hname => .stop fun _ => .pure ?_
  rw [Value.same, hname, beq_self_eq_true]

/-- A name without a meaning of its own is an enum value. -/
theorem nameValue_same {text : String} (h : text ∉ valueWords) :
    nameValue text = .enum text := by
  unfold nameValue
  split
  · simp [valueWords] at h
  · simp [valueWords] at h
  · simp [valueWords] at h
  · rfl

/-- A value of one token is the one that the token stands for. -/
theorem token_reads {l : Lexeme} {f : Lexeme → Reader Value} {w : Value} {P : Value → Prop}
    (hf : f l = pure w) (h : P w) : (take >>= f).Reads [.lexeme l] anyNext P :=
  (take_reads l).andThen fun m hm => by
    rw [hm, hf]
    exact .pure h

/-- A list is read back if its items are. -/
theorem list_reads {inner : Reader Value} {layout : Layout} {items : List Value}
    (hinner : ∀ v ∈ items, inner.Reads (s.valueGlyphs layout.inner v) anyNext
      fun w => s.Rereads (v.same w) (v.spansLines layout.inner)) :
    Reads (do expectMark '['; let items ← untilMark ']' inner; return Value.list items)
      (s.valueGlyphs layout (.list items)) anyNext
      fun w => s.Rereads ((Value.list items).same w) ((Value.list items).spansLines layout) := by
  -- No value starts with the bracket that ends the list.
  have hitems : ReadsItems inner (s.valueGlyphs layout.inner) anyNext
      (fun v w => s.Rereads (v.same w) (v.spansLines layout.inner)) ']' items := by
    refine ⟨hinner, fun v _ => ?_, trivial⟩
    obtain ⟨l, gs, hgs, hl⟩ := Value.exists_glyphs s layout.inner v
    exact ⟨l, gs, hgs, hl, trivial⟩
  rw [valueGlyphs, Glyph.commas, itemGlyphs_eq_map]
  refine (expectMark_reads '[').andThen fun _ _ => ?_
  refine (untilMark_reads hitems (row_commas layout _)).map fun others hothers => ?_
  rw [Value.spansLines, Value.itemsSpanLines_eq, Value.same, Value.sameItems_eq]
  exact .sameList hothers

/-- An object is read back if the values of its fields are. -/
theorem object_reads {inner : Reader Value} {layout : Layout} {fields : List (String × Value)}
    (hinner : ∀ p ∈ fields, inner.Reads (s.valueGlyphs layout.inner p.2) anyNext
      fun w => s.Rereads (p.2.same w) (p.2.spansLines layout.inner)) :
    Reads (do
      expectMark '\x7b'
      let fields ← untilMark '\x7d' (namedValue inner)
      return Value.object (fields.filterMap id))
      (s.valueGlyphs layout (.object fields)) anyNext
      fun w => s.Rereads ((Value.object fields).same w)
        ((Value.object fields).spansLines layout) := by
  have hitems : ReadsItems (namedValue inner)
      (fun p => .name p.1 :: .mark ':' :: s.valueGlyphs layout.inner p.2) anyNext
      (fun p item => ∃ q, item = some q ∧
        s.Rereads (p.1 == q.1 && p.2.same q.2) (p.2.spansLines layout.inner)) '\x7d' fields := by
    refine ⟨fun p hp => (namedValue_reads p.1 (hinner p hp)).imp ?_,
      fun p _ => ⟨_, _, rfl, by simp, trivial⟩, trivial⟩
    rintro item ⟨q, hq, hname, hvalue⟩
    exact ⟨q, hq, .true_and (by simp [hname]) hvalue⟩
  -- Between the braces stand the fields, each with a comma behind it or not.
  rw [valueGlyphs, Glyph.commas, fieldGlyphs_eq_map]
  refine (expectMark_reads '\x7b').andThen fun _ _ => ?_
  refine (untilMark_reads hitems (row_commas layout _)).map
    (g := fun items => Value.object (items.filterMap id)) fun others hothers => ?_
  rw [Value.spansLines, Value.fieldsSpanLines_eq, Value.same, Value.sameFields_eq]
  exact .sameList hothers.filterMap

/-- A value is read back if the values inside it are. -/
theorem valueWith_reads {const : Bool} {depth : Nat} {inner : Reader Value}
    (hinner : ∀ v layout, 0 < depth → v.Grammatical const (depth - 1) →
      inner.Reads (s.valueGlyphs layout v) anyNext
        fun w => s.Rereads (v.same w) (v.spansLines layout))
    {v : Value} (h : v.Grammatical const depth) (layout : Layout) :
    (valueWith const inner).Reads (s.valueGlyphs layout v) anyNext
      fun w => s.Rereads (v.same w) (v.spansLines layout) := by
  -- The first token tells the kind of value, and only the brackets lead to values inside.
  refine .peek fun rest _ => ?_
  cases v with
  | null => exact token_reads rfl (.of_true rfl)
  | boolean b =>
    cases b with
    | true => exact token_reads rfl (.of_true rfl)
    | false => exact token_reads rfl (.of_true rfl)
  | enum text =>
    have hsame : (Value.enum text).same (.enum text) = true := by
      rw [Value.same, beq_self_eq_true]
    exact token_reads (congrArg pure (nameValue_same h.2)) (.of_true hsame)
  | int digits =>
    exact token_reads rfl (.of_true (by rw [Value.same, beq_self_eq_true]))
  | float digits =>
    exact token_reads rfl (.of_true (by rw [Value.same, beq_self_eq_true]))
  | string text => exact token_reads rfl (.text layout false text)
  | var text span =>
    -- Only a value that need not be constant holds a variable.
    have hconst : const = false := h.1
    subst hconst
    exact (variableRef_reads text span).imp fun w hw => .of_true hw
  | list items =>
    have hall := Value.grammaticalItems_iff.mp h
    exact list_reads fun v hv => hinner v layout.inner (hall v hv).1 (hall v hv).2
  | object fields =>
    have hall := Value.grammaticalFields_iff.mp h
    exact object_reads fun p hp => hinner p.2 layout.inner (hall p hp).2.1 (hall p hp).2.2

/-- A value is read back, by the allowance for its nesting. -/
theorem value_reads {const : Bool} {depth : Nat} {v : Value} (h : v.Grammatical const depth)
    (layout : Layout) :
    (value const depth).Reads (s.valueGlyphs layout v) anyNext
      fun w => s.Rereads (v.same w) (v.spansLines layout) := by
  induction depth generalizing v layout with
  | zero => exact valueWith_reads (fun _ _ hpos => absurd hpos (Nat.lt_irrefl 0)) h layout
  | succ depth ih => exact valueWith_reads (fun v layout _ hv => ih hv layout) h layout

/-- The mark behind a type that is required. -/
theorem required_reads (required : Bool) :
    (acceptMark '!').Reads (if required then [.mark '!'] else []) (avoids ['!']) (· = required) :=
  (accept_reads_if (.mark '!') required).before fun _ hnext => hnext '!' List.mem_cons_self

/-- A type reference is read back if the item type of a list is. -/
theorem typeRefWith_reads {depth : Nat} {inner : Reader TypeRef}
    (hinner : ∀ t, 0 < depth → t.Grammatical (depth - 1) →
      inner.Reads (Glyph.typeRef t) (avoids ['!']) (· = t))
    {t : TypeRef} (h : t.Grammatical depth) :
    (typeRefWith inner).Reads (Glyph.typeRef t) (avoids ['!']) (· = t) := by
  cases t with
  | named text required =>
    refine (acceptMark_reads_nil '[').thenAll (fun accepted haccepted => ?_) fun _ _ => ?_
    · rw [haccepted, if_neg Bool.false_ne_true]
      refine (name_reads text).andThen fun name hname => ?_
      exact (required_reads required).map fun x hx => by rw [hname, hx]
    · rw [Glyph.typeRef]
      simp
  | list item required =>
    rw [Glyph.typeRef]
    refine (acceptMark_reads '[').andThen fun accepted haccepted => ?_
    rw [haccepted, if_pos rfl]
    refine (hinner item h.1 h.2).bind (fun t ht => ?_) fun _ _ => by simp
    refine (expectMark_reads ']').andThen fun _ _ => ?_
    exact (required_reads required).map fun x hx => by rw [ht, hx]

/-- A type reference is read back, by the allowance for its nesting. -/
theorem typeRef_reads {depth : Nat} {t : TypeRef} (h : t.Grammatical depth) :
    (typeRef depth).Reads (Glyph.typeRef t) (avoids ['!']) (· = t) := by
  induction depth generalizing t with
  | zero => exact typeRefWith_reads (fun _ hpos => absurd hpos (Nat.lt_irrefl 0)) h
  | succ depth ih =>
    refine typeRefWith_reads (fun t _ ht => ?_) h
    exact ih ht

/-! ## Arguments and directives -/

/-- Arguments are read back, or that there are none. -/
theorem arguments_reads {const : Bool} {depth : Nat} {args : List Argument}
    (h : ∀ a ∈ args, a.Grammatical const depth) :
    (arguments const depth).Reads (s.argumentsGlyphs args) (avoids ['('])
      fun others => sameList Argument.same args others = true := by
  have hitems : ReadsItems (namedValue (value const depth)) s.argumentGlyphs anyNext
      (fun a item => ∃ q, item = some q ∧ a.same ⟨q.1, q.2⟩ = true) ')' args := by
    refine ⟨fun a ha => ?_, fun a _ => ⟨_, _, rfl, by simp, trivial⟩, trivial⟩
    refine (namedValue_reads a.name (value_reads (h a ha).value .oneLine)).imp ?_
    rintro item ⟨q, hq, hname, hvalue⟩
    rw [Value.spansLines_oneLine] at hvalue
    exact ⟨q, hq, by simp [Argument.same, hname, hvalue.eq_true]⟩
  have hall := (betweenIfAny_reads '(' hitems (row_commas .oneLine _)).map
    (g := fun items => (items.filterMap id).map fun p => (⟨p.1, p.2⟩ : Argument))
    (Q := fun others => sameList Argument.same args others = true)
    fun items hitems => Agree.sameList (hitems.filterMap.map fun a q hq => hq)
  exact hall.before fun _ hnext => hnext '(' List.mem_cons_self

/-- A directive is read back. -/
theorem directive_reads {const : Bool} {depth : Nat} {d : Directive}
    (h : d.Grammatical const depth) :
    (directive const depth).Reads (s.directiveGlyphs d) (avoids ['('])
      fun e => d.same e = true := by
  refine (expectMark_reads '@').andThen fun _ _ => (name_reads d.name).andThen fun name hname => ?_
  refine (arguments_reads h.arguments).map fun args hargs => ?_
  rw [Directive.same, hname, beq_self_eq_true, Bool.true_and, hargs]

/-- Directives are read back, or that there are none. -/
theorem directives_reads {const : Bool} {depth : Nat} {ds : List Directive}
    (h : ∀ d ∈ ds, d.Grammatical const depth) :
    (directives const depth).Reads (s.directivesGlyphs ds) (avoids ['@', '('])
      fun es => sameDirectives ds es = true := by
  have hall : (directives const depth).Reads (s.directivesGlyphs ds)
      (fun next => next ≠ some (.mark '@') ∧ avoids ['('] next)
      (Agree (fun d e => d.same e = true) ds) :=
    whileNext_reads (by simp) fun d hd => directive_reads (h d hd)
  exact (hall.imp fun es hes => hes.sameList).before fun next hnext =>
    ⟨hnext '@' List.mem_cons_self, hnext.subset (List.subset_cons_self _ _)⟩

/-! ## Selections -/

/-- What may follow a selection. -/
def selectionMarks : List Char := [':', '(', '@', '\x7b']

/-- A selection set, or nothing. -/
def IsSetOrNone (gs : List Glyph) : Prop := gs = [] ∨ ∃ tail, gs = .mark '\x7b' :: tail

/-- A selection set in front of what goes on with a selection, or none, goes on with no mark of a
field. -/
theorem IsSetOrNone.avoids {gs : List Glyph} (h : IsSetOrNone gs) {rest : List Glyph}
    (hrest : avoids selectionMarks (Glyph.next rest)) :
    Reader.avoids [':', '(', '@'] (Glyph.next (gs ++ rest)) := by
  rcases h with rfl | ⟨tail, rfl⟩
  · exact hrest.subset (by simp [selectionMarks])
  · simp

/-- In front of what avoids a mark other than that of a directive, so do directives. -/
theorem next_directives {marks : List Char} (hmarks : '@' ∉ marks) (ds : List Directive)
    {rest : List Glyph} (hrest : avoids marks (Glyph.next rest)) :
    avoids marks (Glyph.next (s.directivesGlyphs ds ++ rest)) := by
  cases ds with
  | nil => exact hrest
  | cons d ds =>
    show avoids marks (some (.mark '@'))
    exact avoids_mark.mpr hmarks

/-- In front of what avoids a mark other than the parenthesis, so do arguments. -/
theorem next_arguments {marks : List Char} (hmarks : '(' ∉ marks) (args : List Argument)
    {rest : List Glyph} (hrest : avoids marks (Glyph.next rest)) :
    avoids marks (Glyph.next (s.argumentsGlyphs args ++ rest)) := by
  cases args with
  | nil => exact hrest
  | cons a args =>
    show avoids marks (some (.mark '('))
    exact avoids_mark.mpr hmarks

/-- A field starts with a name. -/
theorem exists_fieldHeadGlyphs (s : Surroundings) (f : Field) :
    ∃ text tail, s.fieldHeadGlyphs f = .name text :: tail := by
  unfold fieldHeadGlyphs
  cases f.aliasName with
  | some shown => exact ⟨shown, _, rfl⟩
  | none => exact ⟨f.name, _, rfl⟩

/-- A field behind its names. -/
theorem fieldRest_reads {depth start : Nat} {set : Reader (List Selection)} {f : Field}
    {gs : List Glyph} {P : List Selection → Prop} (hf : f.Grammatical depth)
    (hset : (setIfAny set).Reads gs (avoids ['\x7b']) P) (hgs : IsSetOrNone gs)
    {aliasName : Option String} (halias : aliasName = f.aliasName) {name : String}
    (hname : name = f.name) :
    Reads (do
      let arguments ← arguments false depth
      let directives ← directives false depth
      let selections ← setIfAny set
      let stop ← Reader.stop
      return Selection.field ⟨aliasName, name, arguments, directives, some ⟨start, stop⟩⟩ selections)
      (s.argumentsGlyphs f.arguments ++ (s.directivesGlyphs f.directives ++ gs))
      (avoids selectionMarks)
      fun x => ∃ g set, x = .field g set ∧ Selection.sameHead f g = true ∧ P set := by
  refine (arguments_reads hf.arguments).bind (fun args hargs => ?_) fun rest hrest => ?_
  · refine (directives_reads hf.directives).bind (fun ds hds => ?_) fun rest hrest => ?_
    · refine hset.last (fun set hset => ?_) fun next hnext => ?_
      · refine .stop fun stop => .pure ⟨_, set, rfl, ?_, hset⟩
        simp [Selection.sameHead, halias, hname, hargs, hds]
      · exact hnext.subset (by simp [selectionMarks])
    · exact (hgs.avoids hrest).subset (by simp)
  · -- No parenthesis follows where there are no arguments.
    rw [List.append_assoc]
    exact next_directives (by simp) _ ((hgs.avoids hrest).subset (by simp))

/-- A field is read back if the selections under it are. -/
theorem fieldWith_reads {depth : Nat} {set : Reader (List Selection)} {f : Field}
    {gs : List Glyph} {P : List Selection → Prop} (hf : f.Grammatical depth)
    (hset : (setIfAny set).Reads gs (avoids ['\x7b']) P) (hgs : IsSetOrNone gs) :
    (fieldWith depth set).Reads (s.fieldHeadGlyphs f ++ gs) (avoids selectionMarks)
      fun x => ∃ g set, x = .field g set ∧ Selection.sameHead f g = true ∧ P set := by
  refine .start fun start => ?_
  unfold fieldHeadGlyphs
  cases halias : f.aliasName with
  | some shown =>
    simp only [List.cons_append, List.nil_append, List.append_assoc]
    refine .peekSecond ?_
    refine (name_reads shown).andThen fun first hfirst => ?_
    -- With an alias, the name is behind the colon.
    have hfieldName : (fieldName true first).Reads [.mark ':', .name f.name] anyNext (· = f.name) :=
      (expectMark_reads ':').andThen fun _ _ => name_reads f.name
    refine hfieldName.bind (fun name hname => ?_) fun _ _ => trivial
    refine fieldRest_reads hf hset hgs ?_ hname
    rw [halias, hfirst]
    rfl
  | none =>
    simp only [List.cons_append, List.nil_append, List.append_assoc]
    refine .peekSecond_last fun rest hrest m hm => ?_
    -- No colon comes second: arguments, directives and selections start with other marks.
    have hcolon : (m == some (.mark ':')) = false := by
      rcases hm with rfl | rfl
      · rfl
      · have hnext : avoids [':'] (Glyph.next (s.argumentsGlyphs f.arguments ++
            (s.directivesGlyphs f.directives ++ (gs ++ rest)))) :=
          next_arguments (by simp) _ (next_directives (by simp) _
            ((hgs.avoids hrest).subset (by simp)))
        rw [List.append_assoc, List.append_assoc, beq_eq_false_iff_ne]
        exact hnext ':' List.mem_cons_self
    rw [hcolon]
    refine (name_reads f.name).andThen fun first hfirst => ?_
    exact fieldRest_reads hf hset hgs halias.symm hfirst

/-- A type condition is read back, or that there is none. -/
theorem typeCondition_reads (condition : Option String) :
    typeCondition.Reads (Glyph.condition condition) (· ≠ some (.name "on")) (· = condition) := by
  cases condition with
  | none =>
    refine (accept_reads_nil (.name "on")).last (fun accepted haccepted => ?_) fun _ h => h
    rw [haccepted, if_neg Bool.false_ne_true]
    exact .pure rfl
  | some text =>
    refine (accept_reads (.name "on")).andThen fun accepted haccepted => ?_
    rw [haccepted, if_pos rfl]
    exact ((name_reads text).map fun x hx => by rw [hx]).before fun _ _ => trivial

/-- An inline fragment behind its dots, whose selection set starts with a brace. -/
theorem inlineWith_reads {depth start : Nat} {set : Reader (List Selection)} {f : InlineFragment}
    {tail : List Glyph} {P : List Selection → Prop} (hf : f.Grammatical depth)
    (hset : set.Reads (.mark '\x7b' :: tail) anyNext P) :
    (inlineWith depth start set).Reads
      (Glyph.condition f.typeCondition ++
        (s.directivesGlyphs f.directives ++ .mark '\x7b' :: tail)) anyNext
      fun x => ∃ g set, x = .inline g set ∧ f.typeCondition = g.typeCondition ∧
        sameDirectives f.directives g.directives = true ∧ P set := by
  refine (typeCondition_reads f.typeCondition).bind (fun condition hcondition => ?_)
    fun rest _ => ?_
  · refine (directives_reads hf.directives).bind (fun ds hds => ?_) fun _ _ => by simp
    refine hset.last (fun set hset => ?_) fun _ _ => trivial
    exact .stop fun stop => .pure ⟨_, set, rfl, hcondition.symm, hds, hset⟩
  · cases f.directives with
    | nil => exact nofun
    | cons d ds => exact nofun

/-- A spread is read back behind its dots. -/
theorem spreadAfterDots_reads {depth start : Nat} {f : FragmentSpread} (hf : f.Grammatical depth) :
    (spreadAfterDots depth start).Reads (.name f.name :: s.directivesGlyphs f.directives)
      (avoids ['@', '(']) fun x => (Selection.spread f).same x = true := by
  refine (name_reads f.name).andThen fun name hname => ?_
  refine (directives_reads hf.directives).last (fun ds hds => ?_) fun _ h => h
  refine .stop fun stop => .pure ?_
  rw [Selection.same, hname, hds, beq_self_eq_true, Bool.true_and]

/-- The token behind its dots tells an inline fragment: `on`, a directive or a brace. -/
theorem exists_inlineGlyphs (s : Surroundings) (f : InlineFragment) (xs : List Selection) :
    ∃ l tail, Glyph.condition f.typeCondition ++
        (s.directivesGlyphs f.directives ++ s.setGlyphs xs) = .lexeme l :: tail ∧
      (l = .name "on" ∨ ∃ c, l = .mark c) := by
  cases f.typeCondition with
  | some text => exact ⟨_, _, rfl, Or.inl rfl⟩
  | none =>
    cases f.directives with
    | nil => exact ⟨_, _, rfl, Or.inr ⟨_, rfl⟩⟩
    | cons d ds => exact ⟨_, _, rfl, Or.inr ⟨_, rfl⟩⟩

/-- The selections under a field are a set behind a brace, or there are none. -/
theorem exists_underGlyphs {set : Reader (List Selection)} (f : Field) {xs : List Selection}
    (hset : xs ≠ [] → set.Reads (s.setGlyphs xs) anyNext
      fun ys => Selection.sameSet xs ys = true) :
    ∃ gs, s.selectionGlyphs (.field f xs) = s.fieldHeadGlyphs f ++ gs ∧ IsSetOrNone gs ∧
      (setIfAny set).Reads gs (avoids ['\x7b']) fun ys => Selection.sameSet xs ys = true := by
  cases xs with
  | nil =>
    refine ⟨[], by rw [selectionGlyphs, List.append_nil], Or.inl rfl, .peek fun rest hrest => ?_⟩
    rw [List.nil_append, if_neg (hrest _ List.mem_cons_self)]
    exact .pure rfl
  | cons x xs =>
    refine ⟨s.setGlyphs (x :: xs), by rw [selectionGlyphs, setGlyphs, selectionsGlyphs],
      Or.inr ⟨_, rfl⟩, .peek fun rest _ => ?_⟩
    exact (hset (List.cons_ne_nil x xs)).before fun _ _ => trivial

/-- A selection is read back if the selections under it are. -/
theorem selectionWith_reads {depth : Nat} {set : Reader (List Selection)}
    (hset : ∀ xs, xs ≠ [] → Selection.GrammaticalSet depth xs →
      set.Reads (s.setGlyphs xs) anyNext fun ys => Selection.sameSet xs ys = true)
    {x : Selection} (h : x.Grammatical depth) :
    (selectionWith depth set).Reads (s.selectionGlyphs x) (avoids selectionMarks)
      fun y => x.same y = true := by
  refine .start fun start => ?_
  cases x with
  | spread f =>
    refine .peekSecond ?_
    refine (accept_reads .dots).andThen fun accepted haccepted => ?_
    rw [haccepted, if_pos rfl]
    show Reads (if f.name = "on" then _ else _) _ _ _
    rw [if_neg h.notOn]
    exact (spreadAfterDots_reads h).before fun _ hnext =>
      hnext.subset (by simp [selectionMarks])
  | inline f xs =>
    obtain ⟨hf, hne, hxs⟩ := h
    have hinline : ∀ start, (inlineWith depth start set).Reads
        (Glyph.condition f.typeCondition ++ (s.directivesGlyphs f.directives ++ s.setGlyphs xs))
        (avoids selectionMarks) fun y => (Selection.inline f xs).same y = true := by
      intro start
      refine ((inlineWith_reads hf (hset xs hne hxs)).imp ?_).before fun _ _ => trivial
      rintro _ ⟨g, ys, rfl, hcondition, hds, hys⟩
      simp [Selection.same, hcondition, hds, hys]
    obtain ⟨l, tail, htail, hl⟩ := exists_inlineGlyphs s f xs
    rw [selectionGlyphs, inlineHeadGlyphs, List.cons_append, List.append_assoc, ← setGlyphs, htail]
    refine .peekSecond ((accept_reads .dots).andThen fun accepted haccepted => ?_)
    rw [haccepted, if_pos rfl, ← htail]
    rcases hl with rfl | ⟨c, rfl⟩
    · exact hinline start
    · exact hinline start
  | field f xs =>
    obtain ⟨hf, hxs⟩ := h
    obtain ⟨gs, hglyphs, hstart, hreads⟩ := exists_underGlyphs f fun hne => hset xs hne hxs
    obtain ⟨text, tail, htail⟩ := exists_fieldHeadGlyphs s f
    rw [hglyphs]
    -- A field starts with a name, so that the dots are not taken.
    refine .look _ fun second => ?_
    refine (accept_reads_nil .dots).thenAll (fun accepted haccepted => ?_) fun rest _ => ?_
    · rw [haccepted, if_neg Bool.false_ne_true]
      refine (fieldWith_reads hf hreads hstart).imp ?_
      rintro _ ⟨g, ys, rfl, hhead, hys⟩
      rw [Selection.same, hhead, hys, Bool.true_and]
    · rw [htail]
      exact fun h => Lexeme.noConfusion (Option.some.inj h)

/-- A selection starts with a name or with dots. -/
theorem exists_selectionGlyphs (s : Surroundings) (x : Selection) :
    ∃ l tail, s.selectionGlyphs x = .lexeme l :: tail ∧ (l = .dots ∨ ∃ text, l = .name text) := by
  cases x with
  | spread f => exact ⟨_, _, rfl, Or.inl rfl⟩
  | inline f xs => exact ⟨_, _, rfl, Or.inl rfl⟩
  | field f xs =>
    obtain ⟨text, tail, htail⟩ := exists_fieldHeadGlyphs s f
    cases xs with
    | nil => exact ⟨_, tail, by rw [selectionGlyphs, htail], Or.inr ⟨text, rfl⟩⟩
    | cons x xs =>
      exact ⟨_, _, by rw [selectionGlyphs, htail, List.cons_append], Or.inr ⟨text, rfl⟩⟩

/-- A selection set is read back, by the allowance for its nesting. -/
theorem selectionSet_reads {depth : Nat} {xs : List Selection} (hne : xs ≠ [])
    (h : Selection.GrammaticalSet depth xs) :
    (selectionSet depth).Reads (s.setGlyphs xs) anyNext
      fun ys => Selection.sameSet xs ys = true := by
  induction depth generalizing xs with
  | zero =>
    obtain ⟨x, xs, rfl⟩ := List.exists_cons_of_ne_nil hne
    exact absurd h.1.1 (Nat.lt_irrefl 0)
  | succ depth ih =>
    have hitems : ReadsItems (selectionWith depth (selectionSet depth)) s.selectionGlyphs
        (avoids selectionMarks) (fun x y => x.same y = true) '\x7d' xs := by
      refine ⟨fun x hx => ?_, fun x _ => ?_, by simp [selectionMarks]⟩
      · exact selectionWith_reads (fun _ => ih) (Selection.grammaticalSet_iff.mp h x hx).2
      · obtain ⟨l, tail, htail, hl⟩ := exists_selectionGlyphs s x
        exact ⟨l, tail, htail, by rcases hl with rfl | ⟨text, rfl⟩ <;> simp⟩
    rw [setGlyphs, Glyph.braces, selectionsGlyphs_eq_map]
    refine (between_reads '\x7b' hne hitems (.flatten _)).imp fun ys hys => ?_
    rw [Selection.sameSet_eq]
    exact hys.sameList

end Grammar
end EmbeddedGraphQL
