import EmbeddedGraphQL.Proofs.Text.Cuts
import EmbeddedGraphQL.Proofs.LineIndex.Bisection
import EmbeddedGraphQL.Proofs.LineIndex.Checked
import EmbeddedGraphQL.Proofs.LineIndex.Lines

/-!
# A text divided into its lines

The spans of the lines divide a text: what they cut out are its pieces between line feeds, one after
the other, and nothing but the line feeds is left between them. Every byte of the text, be it in the
middle of a character, lies on the line of its position, or is the line feed at its end.

* `LineIndex.cutLine?`: the text of a line, by its span.
* `LineIndex.cutLine?_ofText`: the spans cut between characters, and cut out the pieces.
* `LineIndex.exists_lineSpan?_position`: an offset and the span of its line.
* `LineIndex.lineSpans_divide`: how the spans divide the text.
-/

namespace EmbeddedGraphQL
namespace LineIndex

/-- The text of a line. It fails if there is no such line, or if the span of the line does not start
and end between two characters. -/
def cutLine? (index : LineIndex) (text : List Char) (line : Nat) : Option (List Char) :=
  (index.lineSpan? line).bind fun span => Text.slice? span.start span.stop text

/-! ## Lines and pieces -/

/-- A text has one line more than line feeds. -/
theorem lineCount_ofText (text : List Char) : (ofText text).lineCount = text.count '\n' + 1 := by
  rw [lineCount, lines_ofText, length_table, Text.length_pieces]

/-- An index has spans for the numbers of its lines. -/
theorem isSome_lineSpan?_iff (index : LineIndex) (line : Nat) :
    (index.lineSpan? line).isSome ↔ line < index.lineCount := by
  simp [lineSpan?, lineStart?, lineCount]

/-- The span of a line cuts out the piece with its number. -/
theorem cutLine?_ofText (text : List Char) (line : Nat) :
    (ofText text).cutLine? text line = (Text.pieces text)[line]? := by
  cases hpiece : (Text.pieces text)[line]? with
  | none =>
    rw [cutLine?, lineSpan?_eq_none hpiece]
    rfl
  | some piece =>
    obtain ⟨before, after, htext, hspan⟩ := exists_lineSpan?_of_piece hpiece
    rw [cutLine?, hspan, Option.bind_some, ← Text.slice?_append before piece after, ← htext]

/-- All lines in a row are the pieces of the text. -/
theorem map_cutLine?_range (text : List Char) :
    (List.range (ofText text).lineCount).map ((ofText text).cutLine? text) =
      (Text.pieces text).map some := by
  have hlength : (ofText text).lineCount = (Text.pieces text).length := by
    rw [lineCount_ofText, Text.length_pieces]
  refine List.ext_getElem? fun line => ?_
  rw [List.getElem?_map, List.getElem?_map, hlength]
  by_cases hline : line < (Text.pieces text).length
  · rw [List.getElem?_range hline, Option.map_some, cutLine?_ofText,
      List.getElem?_eq_getElem hline, Option.map_some]
  · -- Both lists end with the last line.
    simp [hline]

/-- The span of a line starts and ends between two characters. -/
theorem isBoundary_of_lineSpan? {text : List Char} {line : Nat} {span : Span}
    (h : (ofText text).lineSpan? line = some span) :
    Text.IsBoundary text span.start ∧ Text.IsBoundary text span.stop := by
  cases hpiece : (Text.pieces text)[line]? with
  | none =>
    rw [lineSpan?_eq_none hpiece] at h
    cases h
  | some piece =>
    obtain ⟨before, after, htext, hspan⟩ := exists_lineSpan?_of_piece hpiece
    rw [hspan, Option.some.injEq] at h
    subst h
    exact ⟨⟨before, piece ++ after, by rw [htext, List.append_assoc], rfl⟩,
      ⟨before ++ piece, after, htext, Text.byteLength_append before piece⟩⟩

/-! ## The line of an offset -/

/-- The line of the position of an offset in the text is the line of the offset. -/
theorem line_position {text : List Char} {offset : Nat} (h : offset ≤ Text.byteLength text) :
    ((ofText text).position offset).line = (ofText text).lineOf offset := by
  change (ofText text).lineOf (min offset (Text.byteLength text)) = _
  rw [Nat.min_eq_left h]

/-- The line behind the line of an offset starts behind the offset. -/
theorem lt_start_of_lineOf {text : List Char} {offset next : Nat}
    (h : (ofText text).lineStart? ((ofText text).lineOf offset + 1) = some next) :
    offset < next := by
  obtain ⟨l, hl, rfl⟩ := Option.map_eq_some_iff.mp h
  -- The line of the offset is the last one counted, so that the next one ends the count.
  have hcount : ((ofText text).lines.takeWhile (·.start ≤ offset)).length =
      (ofText text).lineOf offset + 1 := by
    have hsub := Nat.psub_eq_some.mp (Checked.exists_line text offset).1
    omega
  have hhead : ((ofText text).lines.dropWhile (·.start ≤ offset)).head? = some l := by
    rw [← List.takeWhile_append_dropWhile (p := (·.start ≤ offset)) (l := (ofText text).lines),
      List.getElem?_append_right (Nat.le_of_eq hcount), hcount, Nat.sub_self] at hl
    rwa [List.head?_eq_getElem?]
  have hstop := List.head?_dropWhile_not (fun l => decide (l.start ≤ offset)) (ofText text).lines
  rw [hhead] at hstop
  exact Nat.lt_of_not_le (of_decide_eq_false hstop)

/-- An offset of a text lies in the span of its line or at the end of it. -/
theorem exists_lineSpan?_position {text : List Char} {offset : Nat}
    (h : offset ≤ Text.byteLength text) :
    ∃ span, (ofText text).lineSpan? ((ofText text).position offset).line = some span ∧
      span.start ≤ offset ∧ offset ≤ span.stop := by
  obtain ⟨-, l, hl, hstart⟩ := Checked.exists_line text offset
  have hlineStart : (ofText text).lineStart? ((ofText text).lineOf offset) = some l.start := by
    rw [lineStart?, hl, Option.map_some]
  rw [line_position h, lineSpan?, hlineStart, Option.map_some]
  refine ⟨_, rfl, hstart, ?_⟩
  -- The span ends with the text, or one byte before the next line, which starts behind the offset.
  cases hnext : (ofText text).lineStart? ((ofText text).lineOf offset + 1) with
  | none => exact h
  | some next => exact Nat.le_sub_one_of_lt (lt_start_of_lineOf hnext)

/-- How the spans of its lines divide a text. There is one line more than line feeds, and exactly
these lines have spans, whose ends are no negative differences and which start and end between two
characters. In a row the spans cut out the pieces of the text between line feeds: no piece has a
line feed, and joined with line feeds the pieces are the text. Every offset of the text, also one
inside a character, lies in the span of the line of its position or at the end of it, and this line
is found by bisection. -/
theorem lineSpans_divide (text : String) :
    let index := ofString text
    let pieces := Text.pieces text.toList
    index.lineCount = text.toList.count '\n' + 1 ∧
      (∀ line, Checked.lineSpan index line = some (index.lineSpan? line) ∧
        ((index.lineSpan? line).isSome ↔ line < index.lineCount)) ∧
      (∀ line span, index.lineSpan? line = some span →
        Text.IsBoundary text.toList span.start ∧ Text.IsBoundary text.toList span.stop) ∧
      (List.range index.lineCount).map (index.cutLine? text.toList) = pieces.map some ∧
      (∀ piece ∈ pieces, '\n' ∉ piece) ∧ Text.joinLines pieces = text.toList ∧
      ∀ offset, offset ≤ Text.byteLength text.toList →
        index.bisectedLine offset = (index.position offset).line ∧
        ∃ span, index.lineSpan? (index.position offset).line = some span ∧
          span.start ≤ offset ∧ offset ≤ span.stop := by
  intro index pieces
  refine ⟨lineCount_ofText text.toList, fun line => ?_, fun _ _ => isBoundary_of_lineSpan?,
    map_cutLine?_range text.toList, fun _ => Text.newline_not_mem_piece,
    Text.joinLines_pieces text.toList, fun offset hoffset => ⟨?_, ?_⟩⟩
  · exact ⟨Checked.lineSpan_ofText text.toList line, isSome_lineSpan?_iff index line⟩
  · exact (bisectedLine_ofText text.toList offset).trans (line_position hoffset).symm
  · exact exists_lineSpan?_position hoffset

/-- An empty line between characters of several bytes, and an offset inside the last of them. -/
theorem lineSpans_divide_wide :
    Text.IsBoundary "ä\n\n𝄞".toList 3 ∧ '\n' ∉ ['𝄞'] ∧
      ∃ span, (ofString "ä\n\n𝄞").lineSpan? ((ofString "ä\n\n𝄞").position 6).line = some span ∧
        span.start ≤ 6 ∧ 6 ≤ span.stop := by
  have hspan : (ofString "ä\n\n𝄞").lineSpan? 1 = some ⟨3, 3⟩ := by decide +kernel
  have hpiece : ['𝄞'] ∈ Text.pieces "ä\n\n𝄞".toList := by decide +kernel
  obtain ⟨-, -, hboundary, -, hpieces, -, hoffset⟩ := lineSpans_divide "ä\n\n𝄞"
  exact ⟨(hboundary 1 _ hspan).1, hpieces _ hpiece, (hoffset 6 (by decide +kernel)).2⟩

end LineIndex
end EmbeddedGraphQL
