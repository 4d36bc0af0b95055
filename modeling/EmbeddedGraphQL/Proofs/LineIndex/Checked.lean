import Mathlib.Data.Nat.PSub
import EmbeddedGraphQL.Proofs.LineIndex.Table

/-!
# Conversions that check their arithmetic

Differences of natural numbers stop at zero, and a line that is not in the table has no wide
characters, so that the conversions of a line index give an answer in any case. Here they are once
more with all of this checked: a difference that would be negative, or a line that the table does
not have, makes the whole conversion fail. For the index of a text they never do.

* `LineIndex.Checked.position`, `LineIndex.Checked.offset`: the conversions with checks.
* `LineIndex.Checked.lineSpan`: the span of a line, with its end checked.
* `LineIndex.Checked.position_ofText`, `LineIndex.Checked.offset_ofText`,
  `LineIndex.Checked.lineSpan_ofText`: no check fails, and the results are those without checks.
-/

namespace EmbeddedGraphQL
namespace LineIndex
namespace Checked

/-! ## The conversions -/

/-- The surplus of wide characters, unless one of them has more code units than bytes. -/
def totalSurplus : List WideChar → Option Nat
  | [] => some 0
  | w :: wide => do
    let surplus ← w.bytes.psub w.units
    let rest ← totalSurplus wide
    return surplus + rest

/-- The position of a byte offset. It fails if no line starts at or before the offset, if the table
does not have the line, or if one of the differences is negative. -/
def position (index : LineIndex) (offset : Nat) : Option Position := do
  let offset := min offset index.size
  -- The last line that starts at or before the offset.
  let line ← (index.lines.takeWhile (·.start ≤ offset)).length.psub 1
  let l ← index.lines[line]?
  let column ← offset.psub l.start
  let surplus ← totalSurplus (l.wide.takeWhile (·.stop ≤ column))
  let character ← column.psub surplus
  return ⟨line, character⟩

/-- The surplus of the wide characters that start before a column in code units. It fails if one of
them starts to the left of the surplus in front of it, or has more code units than bytes. -/
def surplusUntil (character acc : Nat) : List WideChar → Option Nat
  | [] => some acc
  | w :: wide => do
    -- Where the character starts, in code units.
    let column ← w.start.psub acc
    if character ≤ column then return acc
    let surplus ← w.bytes.psub w.units
    surplusUntil character (acc + surplus) wide

/-- The byte offset of a position, if there is such a line. It fails if a difference is negative. -/
def offset (index : LineIndex) (p : Position) : Option (Option Nat) :=
  match index.lineStart? p.line with
  | none => some none
  | some start => do
    let surplus ← surplusUntil p.character 0 (index.wideChars p.line)
    return some (start + p.character + surplus)

/-- The bytes of a line, if there is such a line. It fails if another line follows and there is
nothing in front of it that could be a line feed. -/
def lineSpan (index : LineIndex) (line : Nat) : Option (Option Span) :=
  match index.lineStart? line with
  | none => some none
  | some start =>
    match index.lineStart? (line + 1) with
    | none => some (some ⟨start, index.size⟩)
    | some next => do
      let stop ← next.psub 1
      return some ⟨start, stop⟩

/-! ## No check fails -/

/-- Wide characters with no more code units than bytes have a surplus. -/
theorem totalSurplus_eq {wide : List WideChar} (h : ∀ w ∈ wide, w.units ≤ w.bytes) :
    totalSurplus wide = some (Text.total (·.surplus) wide) := by
  induction wide with
  | nil => rfl
  | cons w wide ih =>
    obtain ⟨hw, hwide⟩ := List.forall_mem_cons.mp h
    rw [totalSurplus, Nat.psub_eq_sub hw, ih hwide]
    rfl

/-- The line of an offset is in the table and starts at or before the offset. -/
theorem exists_line (text : List Char) (offset : Nat) :
    ((ofText text).lines.takeWhile (·.start ≤ offset)).length.psub 1 =
        some ((ofText text).lineOf offset) ∧
      ∃ l, (ofText text).lines[(ofText text).lineOf offset]? = some l ∧ l.start ≤ offset := by
  obtain ⟨first, later, hpieces⟩ := List.exists_cons_of_ne_nil (Text.pieces_ne_nil text)
  -- The first line starts at offset zero, so that at least one line is counted.
  have hpos : 1 ≤ ((ofText text).lines.takeWhile (·.start ≤ offset)).length := by
    rw [lines_ofText, hpieces, table, List.takeWhile_cons_of_pos (by simp), List.length_cons]
    exact Nat.le_add_left 1 _
  refine ⟨Nat.psub_eq_sub hpos, ?_⟩
  have hlast : (ofText text).lineOf offset <
      ((ofText text).lines.takeWhile (·.start ≤ offset)).length := Nat.sub_lt hpos Nat.one_pos
  have hstart := List.all_eq_true.mp List.all_takeWhile _ (List.getElem_mem hlast)
  refine ⟨_, ?_, of_decide_eq_true hstart⟩
  have hprefix := List.takeWhile_prefix (l := (ofText text).lines) (p := (·.start ≤ offset))
  rw [List.IsPrefix.getElem hprefix hlast]
  exact List.getElem?_eq_getElem _

/-- The position of an offset in a text passes all checks. -/
theorem position_ofText (text : List Char) (offset : Nat) :
    position (ofText text) offset = some ((ofText text).position offset) := by
  obtain ⟨hline, l, hl, hstart⟩ := exists_line text (min offset (ofText text).size)
  obtain ⟨line, hwide⟩ := exists_wideFrom_of_mem (List.mem_of_getElem? hl)
  have hsurplus : ∀ column, totalSurplus (l.wide.takeWhile (·.stop ≤ column)) =
      some (surplusBefore l.wide column) := by
    intro column
    refine totalSurplus_eq fun w hw => ?_
    have hmem := (List.takeWhile_prefix _).subset hw
    rw [hwide] at hmem
    exact (bounds_of_mem_wideFrom hmem).2
  have hcolumn : ∀ column, surplusBefore l.wide column ≤ column := by
    intro column
    rw [hwide]
    exact surplusBefore_wideFrom_le 0 column line
  simp only [position, LineIndex.position, hline, lineStart?, wideChars, hl, Option.bind_eq_bind,
    Option.bind_some, Option.map_some, Option.getD_some, Nat.psub_eq_sub hstart, hsurplus,
    Nat.psub_eq_sub (hcolumn _)]
  rfl

/-- The wide characters of a piece of a line pass all checks, whatever the column, if the surplus to
its left is no larger than the column at which it starts. -/
theorem surplusUntil_wideFrom (character : Nat) {acc column : Nat} (h : acc ≤ column)
    (text : List Char) :
    surplusUntil character acc (wideFrom column text) =
      some (LineIndex.surplusUntil character acc (wideFrom column text)) := by
  induction text generalizing acc column with
  | nil => rfl
  | cons c text ih =>
    by_cases hc : c.toNat < 0x80
    · rw [wideFrom_ascii hc]
      exact ih (Nat.le_trans h (Nat.le_add_right _ _))
    · -- The surplus grows by less than the bytes of the character, which the column grows by.
      have hle := Text.utf16Size_le_utf8Size c
      have hrest : acc + (c.utf8Size - Text.utf16Size c) ≤ column + c.utf8Size := by omega
      rw [wideFrom_wide hc, surplusUntil, LineIndex.surplusUntil, Nat.psub_eq_sub h,
        Nat.psub_eq_sub hle]
      simp only [Option.bind_eq_bind, Option.bind_some]
      split
      · rfl
      · exact ih hrest

/-- The offset of a position in a text passes all checks. -/
theorem offset_ofText (text : List Char) (p : Position) :
    offset (ofText text) p = some ((ofText text).offset? p) := by
  cases hl : (ofText text).lines[p.line]? with
  | none => simp [offset, offset?, lineStart?, hl]
  | some l =>
    obtain ⟨line, hwide⟩ := exists_wideFrom_of_mem (List.mem_of_getElem? hl)
    have hsurplus := surplusUntil_wideFrom p.character (Nat.le_refl 0) line
    rw [← hwide] at hsurplus
    simp [offset, offset?, lineStart?, wideChars, hl, hsurplus]

/-- The span of a line of a text passes the check: a line that follows another one starts behind
it. -/
theorem lineSpan_ofText (text : List Char) (line : Nat) :
    lineSpan (ofText text) line = some ((ofText text).lineSpan? line) := by
  rw [lineSpan, lineSpan?]
  cases hstart : (ofText text).lineStart? line with
  | none => rfl
  | some start =>
    cases hnext : (ofText text).lineStart? (line + 1) with
    | none => rfl
    | some next =>
      have hlt := start_lt_start (Nat.lt_succ_self line) hstart hnext
      have hstop := Nat.psub_eq_sub (Nat.one_le_of_lt hlt)
      simp only [hstop, Option.bind_eq_bind, Option.bind_some]
      rfl

end Checked
end LineIndex
end EmbeddedGraphQL
