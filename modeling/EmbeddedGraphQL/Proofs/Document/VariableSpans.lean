import EmbeddedGraphQL.Proofs.Document.Nesting
import EmbeddedGraphQL.Proofs.Walk.Variables

/-!
# Where variables stand

A variable is read while the part of the document is read that it stands at, so that it has a span,
and this lies in the span of that part. What a reader takes repeatedly is taken between the cursors
where the whole begins and ends, which carries the bounds down to the variables.

* `Reader.ReadOnWay`: what was read between two cursors.
* `Value.SpannedIn`: values whose variables have spans inside another one.
* `Standing.VariablesPlaced`: the variables at a part of a document lie in its span.
* `Document.variablesPlaced_of_parse?`: they do in every document that is read from a text.
-/

namespace EmbeddedGraphQL

/-! ## What is read on the way -/

namespace Reader

variable {α : Type} {item : Reader α} {P : α → Prop} {c c' : Cursor} {items : List α}

/-- Whether a reader has read something on the way from a cursor to another one. -/
def ReadOnWay (r : Reader α) (c c' : Cursor) (x : α) : Prop :=
  ∃ a b, c.Reaches a ∧ r a = some (x, b) ∧ b.Reaches c'

/-- What was read on the way was read on every longer way. -/
theorem ReadOnWay.mono {x : α} {a b : Cursor} (h : item.ReadOnWay c c' x) (hac : a.Reaches c)
    (hcb : c'.Reaches b) : item.ReadOnWay a b x := by
  obtain ⟨d, e, hcd, hread, hec⟩ := h
  exact ⟨d, e, hac.trans hcd, hread, hec.trans hcb⟩

/-- Items read up to a mark are read on the way to it, whatever the fuel. -/
theorem readOnWay_of_untilMarkUpTo (hitem : item.Gives P) {close : Char} {fuel : Nat}
    (hc : c.Sound) (h : untilMarkUpTo close item fuel c = some (items, c')) :
    ∀ x ∈ items, item.ReadOnWay c c' x := by
  induction fuel generalizing c items with
  | zero => cases h
  | succ fuel ih =>
    obtain ⟨closed, d, -, hcd, hd, h⟩ := (acceptMark_gives close).step hc h
    split at h
    · cases h
      simp
    · obtain ⟨first, e, hfirst, hde, he, h⟩ := hitem.step hd h
      obtain ⟨rest, e', hrest, hee', -, h⟩ := (untilMarkUpTo_gives close hitem fuel).step he h
      cases h
      refine List.forall_mem_cons.mpr ⟨⟨d, e, hcd, hfirst, hee'⟩, fun x hx => ?_⟩
      exact (ih he hrest x hx).mono (hcd.trans hde) (.refl _)

/-- Items read up to a mark are read on the way to it. -/
theorem readOnWay_of_untilMark (hitem : item.Gives P) {close : Char} (hc : c.Sound)
    (h : untilMark close item c = some (items, c')) : ∀ x ∈ items, item.ReadOnWay c c' x := by
  obtain ⟨fuel, d, hfuel, h⟩ := bind_eq_some.mp h
  cases hfuel
  exact readOnWay_of_untilMarkUpTo hitem hc h

/-- Items between two marks, if there are any, are read on the way. -/
theorem readOnWay_of_betweenIfAny (hitem : item.Gives P) {opening close : Char} (hc : c.Sound)
    (h : betweenIfAny opening close item c = some (items, c')) :
    ∀ x ∈ items, item.ReadOnWay c c' x := by
  obtain ⟨next, d, hnext, h⟩ := bind_eq_some.mp h
  cases hnext
  split at h
  · obtain ⟨-, d, -, hcd, hd, h⟩ := (expectMark_gives opening).step hc h
    obtain ⟨first, e, hfirst, hde, he, h⟩ := hitem.step hd h
    obtain ⟨rest, e', hrest, hee', -, h⟩ := (untilMark_gives close hitem).step he h
    cases h
    refine List.forall_mem_cons.mpr ⟨⟨d, e, hcd, hfirst, hee'⟩, fun x hx => ?_⟩
    exact (readOnWay_of_untilMark hitem he hrest x hx).mono (hcd.trans hde) (.refl _)
  · cases h
    simp

/-- Items each behind the same lexeme are read on the way, whatever the fuel. -/
theorem readOnWay_of_whileNextUpTo (hitem : item.Gives P) {next : Lexeme} {fuel : Nat}
    (hc : c.Sound) (h : whileNextUpTo next item fuel c = some (items, c')) :
    ∀ x ∈ items, item.ReadOnWay c c' x := by
  induction fuel generalizing c items with
  | zero =>
    cases h
    simp
  | succ fuel ih =>
    obtain ⟨seen, d, hseen, h⟩ := bind_eq_some.mp h
    cases hseen
    split at h
    · obtain ⟨first, e, hfirst, hce, he, h⟩ := hitem.step hc h
      obtain ⟨rest, e', hrest, hee', -, h⟩ := (whileNextUpTo_gives next hitem fuel).step he h
      cases h
      refine List.forall_mem_cons.mpr ⟨⟨c, e, .refl c, hfirst, hee'⟩, fun x hx => ?_⟩
      exact (ih he hrest x hx).mono hce (.refl _)
    · cases h
      simp

/-- Items each behind the same lexeme are read on the way. -/
theorem readOnWay_of_whileNext (hitem : item.Gives P) {next : Lexeme} (hc : c.Sound)
    (h : whileNext next item c = some (items, c')) : ∀ x ∈ items, item.ReadOnWay c c' x := by
  obtain ⟨fuel, d, hfuel, h⟩ := bind_eq_some.mp h
  cases hfuel
  exact readOnWay_of_whileNextUpTo hitem hc h

end Reader

/-! ## Values -/

/-- The span from a cursor to another one. -/
def Cursor.spanTo (c c' : Cursor) : Span := ⟨c.start, c'.last⟩

/-- A shorter way has its span inside that of a longer one. -/
theorem Cursor.spanTo_within {a b c d : Cursor} (ha : a.Sound) (hab : a.Reaches b)
    (hbc : b.Reaches c) (hcd : c.Reaches d) : (b.spanTo c).Within (a.spanTo d) :=
  ⟨(hab.le ha).1, (hcd.le ((ha.reaches hab).reaches hbc)).2⟩

namespace Value

variable {inner outer : Span} {v : Value}

/-- Whether the variables of a value have spans inside another one. -/
def SpannedIn (outer : Span) (v : Value) : Prop :=
  ∀ u ∈ v.uses, ∃ span, u.span = some span ∧ span.Within outer

/-- Variables inside a span are inside every wider one. -/
theorem SpannedIn.mono (h : v.SpannedIn inner) (hwithin : inner.Within outer) :
    v.SpannedIn outer := by
  intro u hu
  obtain ⟨span, hspan, hstart, hstop⟩ := h u hu
  exact ⟨span, hspan, Nat.le_trans hwithin.1 hstart, Nat.le_trans hstop hwithin.2⟩

/-- The variables of a value that is none itself are those of its parts. -/
theorem spannedIn_of_parts (hv : ¬ v.IsVar) (h : ∀ p ∈ v.parts, p.2.SpannedIn outer) :
    v.SpannedIn outer := by
  intro u hu
  rw [uses_eq_flatMap hv, List.mem_flatMap] at hu
  obtain ⟨p, hp, hu⟩ := hu
  obtain ⟨w, hw, rfl⟩ := List.mem_map.mp hu
  exact h p hp w hw

/-- The variables of a list are those of its items. -/
theorem spannedIn_list {items : List Value} (h : ∀ v ∈ items, v.SpannedIn outer) :
    (Value.list items).SpannedIn outer := by
  refine spannedIn_of_parts (by rintro ⟨_, _, ⟨⟩⟩) fun p hp => ?_
  obtain ⟨⟨v, index⟩, hv, rfl⟩ := List.mem_map.mp hp
  exact h v (List.fst_mem_of_mem_zipIdx hv)

/-- The variables of an object are those of its fields. -/
theorem spannedIn_object {fields : List (String × Value)}
    (h : ∀ p ∈ fields, p.2.SpannedIn outer) : (Value.object fields).SpannedIn outer := by
  refine spannedIn_of_parts (by rintro ⟨_, _, ⟨⟩⟩) fun p hp => ?_
  obtain ⟨⟨field, index⟩, hfield, rfl⟩ := List.mem_map.mp hp
  exact h field (List.fst_mem_of_mem_zipIdx hfield)

end Value

/-- A reader of values whose variables lie between the cursors. -/
def Reader.SpansVariables (r : Reader Value) : Prop :=
  ∀ ⦃c : Cursor⦄ ⦃v : Value⦄ ⦃c' : Cursor⦄, c.Sound → r c = some (v, c') →
    v.SpannedIn (c.spanTo c')

/-- What such a reader has read on the way has its variables there. -/
theorem Reader.SpansVariables.onWay {P : Value → Prop} {r : Reader Value} (h : r.SpansVariables)
    (hr : r.Gives P) {c c' : Cursor} (hc : c.Sound) {v : Value} (hv : r.ReadOnWay c c' v) :
    v.SpannedIn (c.spanTo c') := by
  obtain ⟨a, b, hca, hread, hbc'⟩ := hv
  have ha := hc.reaches hca
  exact (h ha hread).mono (Cursor.spanTo_within hc hca (hr ha hread).1 hbc')

namespace Grammar

open Reader

variable {c c' : Cursor}

/-- A named value was read as a value behind its name. -/
theorem readOnWay_of_namedValue {value : Reader Value} (hc : c.Sound) {p : String × Value}
    (h : namedValue value c = some (some p, c')) : value.ReadOnWay c c' p.2 := by
  obtain ⟨name, d, -, hcd, hd, h⟩ := name_gives.step hc h
  obtain ⟨colon, e, -, hde, -, h⟩ := (acceptMark_gives ':').step hd h
  split at h
  · obtain ⟨v, f, hv, h⟩ := bind_eq_some.mp h
    cases h
    exact ⟨e, c', hcd.trans hde, hv, .refl _⟩
  · cases h

/-- Named values that were read on the way were read as values on the way. -/
theorem ReadOnWay.namedValue {value : Reader Value} (hc : c.Sound) {p : String × Value}
    (h : (Grammar.namedValue value).ReadOnWay c c' (some p)) : value.ReadOnWay c c' p.2 := by
  obtain ⟨a, b, hca, hread, hbc'⟩ := h
  exact (readOnWay_of_namedValue (hc.reaches hca) hread).mono hca hbc'

/-- A variable has the span from its first to its last token. -/
theorem variableRef_spansVariables : variableRef.SpansVariables := by
  intro c v c' hc h
  obtain ⟨start, d, hstart, h⟩ := bind_eq_some.mp h
  cases hstart
  obtain ⟨-, d, -, -, hd, h⟩ := (expectMark_gives '$').step hc h
  obtain ⟨name, e, -, -, -, h⟩ := name_gives.step hd h
  obtain ⟨stop, f, hstop, h⟩ := bind_eq_some.mp h
  cases hstop
  cases h
  intro u hu
  rw [Value.uses, List.mem_singleton] at hu
  subst hu
  exact ⟨_, rfl, Nat.le_refl _, Nat.le_refl _⟩

/-- The variables of a value lie between the cursors if those of the values inside it do. -/
theorem valueWith_spansVariables {const : Bool} {inner : Reader Value} {P : Value → Prop}
    (hinner : inner.Gives P) (hspans : inner.SpansVariables) :
    (valueWith const inner).SpansVariables := by
  intro c v c' hc hread
  obtain ⟨next, d, hnext, h⟩ := bind_eq_some.mp hread
  obtain rfl : d = c := by
    cases hnext
    rfl
  -- A variable is spanned by what it was read from; the parts of a list or an object lie within it.
  split at h
  · split at h
    · cases h
    · exact variableRef_spansVariables hc h
  · obtain ⟨-, d, -, hcd, hd, h⟩ := (expectMark_gives '[').step hc h
    obtain ⟨items, e, hitems, h⟩ := bind_eq_some.mp h
    cases h
    refine Value.spannedIn_list fun v hv => hspans.onWay hinner hc ?_
    exact (readOnWay_of_untilMark hinner hd hitems v hv).mono hcd (.refl _)
  · obtain ⟨-, d, -, hcd, hd, h⟩ := (expectMark_gives _).step hc h
    obtain ⟨fields, e, hfields, h⟩ := bind_eq_some.mp h
    cases h
    refine Value.spannedIn_object fun p hp => hspans.onWay hinner hc ?_
    obtain ⟨field, hfield, rfl⟩ := List.mem_filterMap.mp hp
    have hread := readOnWay_of_untilMark (namedValue_gives hinner) hd hfields _ hfield
    exact (ReadOnWay.namedValue hd hread).mono hcd (.refl _)
  · -- A value that is a single token has no variables.
    obtain ⟨lexeme, d, -, h⟩ := bind_eq_some.mp h
    split at h <;> cases h <;> intro u hu
    · unfold nameValue at hu
      split at hu <;> cases hu
    all_goals cases hu

/-- Every value that is read has its variables inside the span it is read from. -/
theorem value_spansVariables (const : Bool) (depth : Nat) :
    (value const depth).SpansVariables := by
  induction depth with
  | zero =>
    refine valueWith_spansVariables (P := fun _ => True) .failure ?_
    intro c v c' _ h
    cases h
  | succ depth ih => exact valueWith_spansVariables (value_gives const depth) ih

/-! ## Arguments and directives -/

/-- The variables in arguments lie between the cursors. -/
theorem arguments_spannedIn {const : Bool} {depth : Nat} {args : List Argument} (hc : c.Sound)
    (h : arguments const depth c = some (args, c')) :
    ∀ a ∈ args, a.value.SpannedIn (c.spanTo c') := by
  have hvalue := value_gives const depth
  obtain ⟨items, d, hitems, h⟩ := bind_eq_some.mp h
  cases h
  intro a ha
  obtain ⟨p, hp, rfl⟩ := List.mem_map.mp ha
  obtain ⟨item, hitem, rfl⟩ := List.mem_filterMap.mp hp
  have hread := readOnWay_of_betweenIfAny (namedValue_gives hvalue) hc hitems _ hitem
  exact (value_spansVariables const depth).onWay hvalue hc (ReadOnWay.namedValue hc hread)

/-- The variables in directives lie between the cursors. -/
theorem directives_spannedIn {const : Bool} {depth : Nat} {ds : List Directive} (hc : c.Sound)
    (h : directives const depth c = some (ds, c')) :
    ∀ x ∈ ds, ∀ a ∈ x.arguments, a.value.SpannedIn (c.spanTo c') := by
  intro x hx
  obtain ⟨b, e, hcb, hread, hec'⟩ :=
    readOnWay_of_whileNext (directive_gives const depth) hc h x hx
  have hb := hc.reaches hcb
  obtain ⟨-, b1, -, h01, hb1, hread⟩ := (expectMark_gives '@').step hb hread
  obtain ⟨name, b2, -, h12, hb2, hread⟩ := name_gives.step hb1 hread
  obtain ⟨args, b3, hargs, h23, -, hread⟩ := (arguments_gives const depth).step hb2 hread
  cases hread
  intro a ha
  exact (arguments_spannedIn hb2 hargs a ha).mono
    (Cursor.spanTo_within hc ((hcb.trans h01).trans h12) h23 hec')

end Grammar

/-! ## Parts of a document -/

/-- Whether the variables at a part of a document have spans inside its own. -/
def Standing.VariablesPlaced (s : Standing) : Prop :=
  ∀ o ∈ s.occurrences, ∃ span outer, o.use.span = some span ∧ s.span = some outer ∧
    span.Within outer

/-- The variables at a part of a document are those in its arguments and directives. -/
theorem Standing.variablesPlaced_of_spannedIn {s : Standing} (outer : Span)
    (hspan : s.span = some outer) (hargs : ∀ a ∈ s.arguments, a.value.SpannedIn outer)
    (hds : ∀ d ∈ s.directives, ∀ a ∈ d.arguments, a.value.SpannedIn outer) :
    s.VariablesPlaced := by
  intro o ho
  obtain ⟨⟨slot, a⟩, hslot, ho⟩ := List.mem_flatMap.mp ho
  obtain ⟨u, hu, rfl⟩ := List.mem_map.mp ho
  have ha : a.value.SpannedIn outer := by
    rw [mem_slots_iff] at hslot
    cases slot with
    | argument index => exact hargs a (List.mem_of_getElem? hslot)
    | directive number index =>
      obtain ⟨d, hd, ha⟩ := Option.bind_eq_some_iff.mp hslot
      exact hds d (List.mem_of_getElem? hd) a (List.mem_of_getElem? ha)
  obtain ⟨span, huspan, hwithin⟩ := ha u hu
  exact ⟨span, outer, huspan, hspan, hwithin⟩

/-- Whether the variables in a selection lie in the parts that they stand at, wherever the selection
stands. -/
def Selection.VariablesPlaced (s : Selection) : Prop :=
  ∀ address line, ∀ t ∈ s.standings address line, t.VariablesPlaced

/-- Whether the variables in a selection set lie in the parts that they stand at. -/
def Selection.SetVariablesPlaced (set : List Selection) : Prop := ∀ s ∈ set, s.VariablesPlaced

namespace Selection

/-- What stands in a set has its variables placed if the selections of the set have. -/
theorem SetVariablesPlaced.standings {set : List Selection} (h : SetVariablesPlaced set)
    {owner : Address} {line : List Node} {index : Nat} {t : Standing}
    (ht : t ∈ setStandings owner line index set) : t.VariablesPlaced := by
  obtain ⟨i, s, hs, ht⟩ := mem_setStandings.mp ht
  exact h s (List.mem_of_getElem? hs) _ _ t ht

/-- The head of a selection and the selections under it decide. -/
theorem variablesPlaced_of_head {s : Selection} (outer : Span) (hspan : s.span = some outer)
    (hargs : ∀ f set, s = .field f set → ∀ a ∈ f.arguments, a.value.SpannedIn outer)
    (hds : ∀ d ∈ s.directives, ∀ a ∈ d.arguments, a.value.SpannedIn outer)
    (hset : SetVariablesPlaced s.children) : s.VariablesPlaced := by
  intro address line t ht
  rw [standings_eq_cons, List.mem_cons] at ht
  rcases ht with rfl | ht
  · refine Standing.variablesPlaced_of_spannedIn outer ?_ ?_ ?_
    · cases s <;> exact hspan
    · cases s with
      | field f set => exact hargs f set rfl
      | inline f set => exact List.forall_mem_nil _
      | spread s => exact List.forall_mem_nil _
    · cases s <;> exact hds
  · cases s with
    | field f set => exact hset.standings ht
    | inline f set => exact hset.standings ht
    | spread s => cases ht

end Selection

/-! ## Selections and definitions that are read -/

namespace Grammar

open Reader

variable {depth : Nat} {set : Reader (List Selection)} {c c' dots : Cursor}

/-- A set that may be missing has its variables placed. -/
theorem setIfAny_variablesPlaced (h : set.Gives Selection.SetVariablesPlaced) :
    (setIfAny set).Gives Selection.SetVariablesPlaced :=
  peek_gives.bind fun _ _ => .ite (fun _ => h) fun _ => .pure (List.forall_mem_nil _)

/-- The variables of a field lie between its first and its last token. -/
theorem fieldWith_variablesPlaced (hset : set.Gives Selection.SetVariablesPlaced)
    {s : Selection} (hc : c.Sound) (h : fieldWith depth set c = some (s, c')) :
    c.Reaches c' ∧ s.VariablesPlaced := by
  obtain ⟨start, c1, hstart, h⟩ := bind_eq_some.mp h
  cases hstart
  obtain ⟨second, c2, hsecond, h⟩ := bind_eq_some.mp h
  cases hsecond
  obtain ⟨first, d, hfirst, hcd, hd, h⟩ := name_gives.step hc h
  have hisName := (name_gives hc hfirst).2
  obtain ⟨name, d1, -, hdd1, hd1, h⟩ := (fieldName_gives _ hisName).step hd h
  obtain ⟨args, d2, hargs, hdd2, hd2, h⟩ := (arguments_gives false depth).step hd1 h
  obtain ⟨ds, d3, hds, hdd3, hd3, h⟩ := (directives_gives false depth).step hd2 h
  obtain ⟨selections, d4, hselections, hdd4, -, h⟩ := (setIfAny_variablesPlaced hset).step hd3 h
  have hplaced := (setIfAny_variablesPlaced hset hd3 hselections).2
  obtain ⟨stop, d5, hstop, h⟩ := bind_eq_some.mp h
  cases hstop
  cases h
  -- Arguments and directives are read one after the other between the start of the field and its
  -- end.
  have hto := hcd.trans hdd1
  refine ⟨((hto.trans hdd2).trans hdd3).trans hdd4,
    Selection.variablesPlaced_of_head (c.spanTo c') rfl ?_ ?_ hplaced⟩
  · rintro f set ⟨⟩ a ha
    exact (arguments_spannedIn hd1 hargs a ha).mono
      (Cursor.spanTo_within hc hto hdd2 (hdd3.trans hdd4))
  · intro x hx a ha
    exact (directives_spannedIn hd2 hds x hx a ha).mono
      (Cursor.spanTo_within hc (hto.trans hdd2) hdd3 hdd4)

/-- The variables of an inline fragment lie between its dots and its last token. -/
theorem inlineWith_variablesPlaced (hset : set.Gives Selection.SetVariablesPlaced)
    {s : Selection} (hdots : dots.Sound) (hreaches : dots.Reaches c)
    (h : inlineWith depth dots.start set c = some (s, c')) :
    c.Reaches c' ∧ s.VariablesPlaced := by
  obtain ⟨condition, d, -, hcd, hd, h⟩ := typeCondition_gives.step (hdots.reaches hreaches) h
  obtain ⟨ds, d1, hds, hdd1, hd1, h⟩ := (directives_gives false depth).step hd h
  obtain ⟨selections, d2, hselections, hdd2, -, h⟩ := hset.step hd1 h
  have hplaced := (hset hd1 hselections).2
  obtain ⟨stop, d3, hstop, h⟩ := bind_eq_some.mp h
  cases hstop
  cases h
  refine ⟨(hcd.trans hdd1).trans hdd2,
    Selection.variablesPlaced_of_head (dots.spanTo c') rfl (by rintro f set ⟨⟩) ?_
      hplaced⟩
  intro x hx a ha
  exact (directives_spannedIn hd hds x hx a ha).mono
    (Cursor.spanTo_within hdots (hreaches.trans hcd) hdd1 hdd2)

/-- The variables of a spread lie between its dots and its last token. -/
theorem spreadAfterDots_variablesPlaced {s : Selection} (hdots : dots.Sound)
    (hreaches : dots.Reaches c) (h : spreadAfterDots depth dots.start c = some (s, c')) :
    c.Reaches c' ∧ s.VariablesPlaced := by
  obtain ⟨name, d, -, hcd, hd, h⟩ := name_gives.step (hdots.reaches hreaches) h
  obtain ⟨ds, d1, hds, hdd1, -, h⟩ := (directives_gives false depth).step hd h
  obtain ⟨stop, d2, hstop, h⟩ := bind_eq_some.mp h
  cases hstop
  cases h
  refine ⟨hcd.trans hdd1,
    Selection.variablesPlaced_of_head (dots.spanTo c') rfl (by rintro f set ⟨⟩) ?_
      (List.forall_mem_nil _)⟩
  intro x hx a ha
  exact (directives_spannedIn hd hds x hx a ha).mono
    (Cursor.spanTo_within hdots (hreaches.trans hcd) hdd1 (.refl _))

/-- The variables of a selection lie in the parts that they stand at if those of its set do. -/
theorem selectionWith_variablesPlaced (hset : set.Gives Selection.SetVariablesPlaced) :
    (selectionWith depth set).Gives Selection.VariablesPlaced := by
  intro c s c' hc h
  obtain ⟨start, c1, hstart, h⟩ := bind_eq_some.mp h
  cases hstart
  obtain ⟨second, c2, hsecond, h⟩ := bind_eq_some.mp h
  obtain rfl : c2 = c := by
    cases hsecond
    rfl
  obtain ⟨accepted, d, haccept, hcd, -, h⟩ := (accept_gives .dots).step hc h
  suffices hgoal : d.Reaches c' ∧ s.VariablesPlaced from ⟨hcd.trans hgoal.1, hgoal.2⟩
  split at h
  · split at h
    · split at h
      · exact inlineWith_variablesPlaced hset hc hcd h
      · exact spreadAfterDots_variablesPlaced hc hcd h
    · exact inlineWith_variablesPlaced hset hc hcd h
    · cases h
  · exact fieldWith_variablesPlaced hset (hc.reaches hcd) h

/-- Every selection set that is read has its variables placed, whatever its depth. -/
theorem selectionSet_variablesPlaced (depth : Nat) :
    (selectionSet depth).Gives Selection.SetVariablesPlaced := by
  induction depth with
  | zero => exact .failure
  | succ depth ih =>
    exact (between_gives _ _ (selectionWith_variablesPlaced ih)).imp fun _ h => h.2

end Grammar

/-- Whether the variables in an operation or a fragment lie in the parts that they stand at. -/
def Node.VariablesPlaced (n : Node) : Prop :=
  ∀ index, ∀ t ∈ n.standings index, t.VariablesPlaced

/-- The head of an operation or a fragment and its selections decide. -/
theorem Node.variablesPlaced_of_head {n : Node} (outer : Span) (hspan : n.span = some outer)
    (hfield : ∀ f set, n ≠ .field f set)
    (hds : ∀ d ∈ n.directives, ∀ a ∈ d.arguments, a.value.SpannedIn outer)
    (hset : Selection.SetVariablesPlaced n.selections) : n.VariablesPlaced := by
  intro index t ht
  rcases List.mem_cons.mp ht with rfl | ht
  · refine Standing.variablesPlaced_of_spannedIn outer hspan ?_ hds
    cases n with
    | field f set => exact absurd rfl (hfield f set)
    | _ => exact List.forall_mem_nil _
  · exact hset.standings ht

namespace Grammar

open Reader

variable {c c' : Cursor} {x : Definition} {n : Node}

/-- A query without a keyword has its variables placed. -/
theorem bareQuery_variablesPlaced (hc : c.Sound) (h : bareQuery c.start c = some (x, c'))
    (hn : Node.ofDefinition? x = some n) : n.VariablesPlaced := by
  obtain ⟨selections, d, hset, h⟩ := bind_eq_some.mp h
  have hplaced := (selectionSet_variablesPlaced maxDepth hc hset).2
  obtain ⟨stop, d1, hstop, h⟩ := bind_eq_some.mp h
  cases hstop
  cases h
  cases hn
  exact Node.variablesPlaced_of_head _ rfl (by simp) (List.forall_mem_nil _) hplaced

/-- An operation with its keyword has its variables placed. -/
theorem namedOperation_variablesPlaced (hc : c.Sound)
    (h : namedOperation c.start c = some (x, c')) (hn : Node.ofDefinition? x = some n) :
    n.VariablesPlaced := by
  obtain ⟨kind, c1, -, h01, hc1, h⟩ := operationKind_gives.step hc h
  obtain ⟨name, c2, -, h12, hc2, h⟩ := operationName_gives.step hc1 h
  obtain ⟨variables', c3, -, h23, hc3, h⟩ :=
    (betweenIfAny_gives '(' ')' variableDefinition_gives).step hc2 h
  obtain ⟨ds, c4, hds, h34, hc4, h⟩ := (directives_gives false maxDepth).step hc3 h
  obtain ⟨selections, c5, hset, h45, -, h⟩ :=
    (selectionSet_variablesPlaced maxDepth).step hc4 h
  have hplaced := (selectionSet_variablesPlaced maxDepth hc4 hset).2
  obtain ⟨stop, c6, hstop, h⟩ := bind_eq_some.mp h
  cases hstop
  cases h
  cases hn
  refine Node.variablesPlaced_of_head (c.spanTo c') rfl (by simp) ?_ hplaced
  intro d hd a ha
  exact (directives_spannedIn hc3 hds d hd a ha).mono
    (Cursor.spanTo_within hc ((h01.trans h12).trans h23) h34 h45)

/-- A fragment definition has its variables placed. -/
theorem fragmentDefinition_variablesPlaced (hc : c.Sound)
    (h : fragmentDefinition c.start c = some (x, c')) (hn : Node.ofDefinition? x = some n) :
    n.VariablesPlaced := by
  obtain ⟨first, c1, -, h01, hc1, h⟩ := take_gives.step hc h
  obtain ⟨name, c2, -, h12, hc2, h⟩ := name_gives.step hc1 h
  obtain ⟨-, c3, -, h23, hc3, h⟩ := (guard_gives _).step hc2 h
  obtain ⟨-, c4, -, h34, hc4, h⟩ := (expect_gives _).step hc3 h
  obtain ⟨condition, c5, -, h45, hc5, h⟩ := name_gives.step hc4 h
  obtain ⟨ds, c6, hds, h56, hc6, h⟩ := (directives_gives false maxDepth).step hc5 h
  obtain ⟨selections, c7, hset, h67, -, h⟩ :=
    (selectionSet_variablesPlaced maxDepth).step hc6 h
  have hplaced := (selectionSet_variablesPlaced maxDepth hc6 hset).2
  obtain ⟨stop, c8, hstop, h⟩ := bind_eq_some.mp h
  cases hstop
  cases h
  cases hn
  refine Node.variablesPlaced_of_head (c.spanTo c') rfl (by simp) ?_ hplaced
  intro d hd a ha
  exact (directives_spannedIn hc5 hds d hd a ha).mono
    (Cursor.spanTo_within hc ((((h01.trans h12).trans h23).trans h34).trans h45) h56 h67)

/-- The variables of every definition lie in the parts that they stand at. -/
theorem definition_variablesPlaced :
    definition.Gives fun x => ∀ n ∈ Node.ofDefinition? x, n.VariablesPlaced := by
  intro c x c' hc h
  refine ⟨(definition_gives hc h).1, fun n hn => ?_⟩
  rcases definition_cases hc h with h | h | h | h
  · exact bareQuery_variablesPlaced hc h hn
  · exact namedOperation_variablesPlaced hc h hn
  · exact fragmentDefinition_variablesPlaced hc h hn
  · rw [h] at hn
    cases hn

end Grammar

/-- In a document that is read from a text, every variable has a span, which lies in that of the
part of the document that it stands at. -/
theorem Document.variablesPlaced_of_parse? {text : String} {d : Document}
    (h : parse? text = some d) {s : Standing} (hs : s ∈ d.standings) : s.VariablesPlaced := by
  obtain ⟨tokens, c, hscan, hread, -⟩ := parse?_eq_some_iff.mp h
  obtain ⟨index, root, hroot, hs⟩ := mem_standings.mp hs
  obtain ⟨x, hx, hxroot⟩ := Option.bind_eq_some_iff.mp hroot
  have hplaced := (Grammar.definitionsUpTo_gives Grammar.definition_variablesPlaced _
    (sound_of_scan? hscan) hread).2
  exact hplaced x (List.mem_of_getElem? hx) root hxroot index s hs

end EmbeddedGraphQL
