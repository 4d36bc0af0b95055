import Mathlib.Data.List.DropRight
import EmbeddedGraphQL.Proofs.LineIndex.Checked

/-!
# Positions by counting

The position of an offset can be told without an index: its line is the number of line feeds before
it, and its column is the number of UTF-16 code units between the last of them and the offset. Line
feeds are counted over bytes, so that the line is told also of an offset inside a character.

* `LineIndex.length_takeWhile_table`: the lines that start up to an offset.
* `LineIndex.lineOf_ofText`: the line of an offset, by counting bytes.
* `Position.character_past`: the column reached by reading, by counting code units.
* `LineIndex.position_counts`: all positions of a text, by counting.
-/

namespace EmbeddedGraphQL

/-- Reading leads to the column of the text behind the last line feed. -/
theorem Position.character_past (text : List Char) :
    (Position.origin.past text).character = Text.unitLength (text.rtakeWhile (· != '\n')) := by
  induction text using List.reverseRecOn with
  | nil => rfl
  | append_singleton text c ih =>
    rw [Position.past_append, Position.past_cons, Position.past_nil, Position.advance,
      List.rtakeWhile_concat]
    by_cases hc : c = '\n'
    · simp [hc]
    · simp [hc, ih]

namespace LineIndex

/-! ## Lines -/

/-- Of lines that are joined, as many start up to an offset as there are line feeds before it, and
one more. -/
theorem length_takeWhile_table {ls : List (List Char)} (hne : ls ≠ []) (h : ∀ l ∈ ls, '\n' ∉ l)
    (start offset : Nat) :
    ((table start ls).takeWhile (·.start ≤ start + offset)).length =
      ((Text.utf8 (Text.joinLines ls)).take offset).count 0x0A + 1 := by
  -- By induction over the lines; the offset lies on the first of them or behind its line feed.
  induction ls generalizing start offset with
  | nil => exact absurd rfl hne
  | cons line ls ih =>
    obtain ⟨hline, hls⟩ := List.forall_mem_cons.mp h
    have hnone : ∀ n, ((Text.utf8 line).take n).count 0x0A = 0 := by
      intro n
      rw [List.count_eq_zero]
      exact fun hmem => hline (Text.newline_mem_utf8_iff.mp (List.mem_of_mem_take hmem))
    rw [table, List.takeWhile_cons_of_pos (by simp), List.length_cons]
    congr 1
    cases ls with
    | nil =>
      have hjoin : Text.joinLines [line] = line := by simp [Text.joinLines]
      rw [hjoin, hnone]
      rfl
    | cons second ls =>
      have hutf8 : Text.utf8 (Text.joinLines (line :: second :: ls)) =
          Text.utf8 line ++ 0x0A :: Text.utf8 (Text.joinLines (second :: ls)) := by
        rw [← List.singleton_append, Text.joinLines_closedLines, Text.closedLines_cons,
          Text.closedLines_nil, Text.utf8_append, Text.utf8_append, List.append_assoc]
        rfl
      rw [hutf8, List.take_append, List.count_append, hnone, Nat.zero_add, Text.length_utf8]
      by_cases hoffset : offset ≤ Text.byteLength line
      · -- On the first line: the next one starts further on.
        rw [table, List.takeWhile_cons_of_neg (by simp; omega), Nat.sub_eq_zero_of_le hoffset]
        rfl
      · -- Behind the line feed.
        obtain ⟨behind, rfl⟩ := Nat.exists_eq_add_of_lt (Nat.lt_of_not_le hoffset)
        have hrest := ih (List.cons_ne_nil second ls) hls (start + Text.byteLength line + 1) behind
        have hsub : Text.byteLength line + behind + 1 - Text.byteLength line = behind + 1 := by
          omega
        have hstart : start + (Text.byteLength line + behind + 1) =
            start + Text.byteLength line + 1 + behind := by omega
        rw [hsub, hstart, hrest, List.take_succ_cons, List.count_cons_self]

/-- The line of an offset is the number of line feeds before it. -/
theorem lineOf_ofText (text : List Char) (offset : Nat) :
    (ofText text).lineOf offset = ((Text.utf8 text).take offset).count 0x0A := by
  have hlength := length_takeWhile_table (Text.pieces_ne_nil text)
    (fun _ => Text.newline_not_mem_piece) 0 offset
  rw [Nat.zero_add, Text.joinLines_pieces] at hlength
  rw [lineOf, lines_ofText, hlength, Nat.add_sub_cancel]

/-! ## Positions -/

/-- An offset past the end counts as the end. -/
theorem position_min (index : LineIndex) (offset : Nat) :
    index.position (min offset index.size) = index.position offset := by
  simp only [position, Nat.min_assoc, Nat.min_self]

/-- All positions of a text by counting. An offset past the end counts as the end. The line of an
offset is the number of line feeds among the bytes before it. The column of an offset between two
characters is the number of code units behind the last line feed before it. For any offset, no
difference in the computation is negative and the line is found in the table, whose lines stand in
the order of their offsets. -/
theorem position_counts (text : String) (offset : Nat) :
    let index := ofString text
    let stop := min offset (Text.byteLength text.toList)
    index.position offset = index.position stop ∧
      (index.position offset).line = ((Text.utf8 text.toList).take stop).count 0x0A ∧
      (∀ before after, text.toList = before ++ after → Text.byteLength before = offset →
        (index.position offset).character =
          Text.unitLength (before.rtakeWhile (· != '\n'))) ∧
      Checked.position index offset = some (index.position offset) ∧
      index.lines.Pairwise (·.start < ·.start) := by
  intro index stop
  -- The starts of the lines ascend in the table that is built.
  have hordered : index.lines.Pairwise (·.start < ·.start) := by
    change (ofText text.toList).lines.Pairwise _
    rw [lines_ofText]
    exact (table_ordered 0 _).1
  refine ⟨(position_min index offset).symm, lineOf_ofText text.toList stop, ?_,
    Checked.position_ofText text.toList offset, hordered⟩
  rintro before after htext rfl
  -- Between two characters the position is reached by going past those in front.
  have hposition : index.position (Text.byteLength before) = Position.origin.past before := by
    change (ofText text.toList).position _ = _
    rw [htext]
    exact position_append before after
  rw [hposition, Position.character_past]

/-- The line inside the character of four bytes, and the column behind it. -/
theorem position_counts_wide :
    ((ofString "ä\nb𝄞c").position 6).line = 1 ∧
      ((ofString "ä\nb𝄞c").position 8).character = 3 := by
  obtain ⟨-, hline, -⟩ := position_counts "ä\nb𝄞c" 6
  obtain ⟨-, -, hcharacter, -⟩ := position_counts "ä\nb𝄞c" 8
  have hbehind := hcharacter ['ä', '\n', 'b', '𝄞'] ['c'] (by decide +kernel) (by decide +kernel)
  exact ⟨hline.trans (by decide +kernel), hbehind.trans (by decide +kernel)⟩

end LineIndex
end EmbeddedGraphQL
