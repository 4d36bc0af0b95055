import EmbeddedGraphQL.Proofs.LineIndex.Counting

/-!
# From offsets to positions and back

A position is found from an offset by the wide characters that end up to a column in bytes, and an
offset from a position by the wide characters that start before a column in code units. At every
place between two characters the two agree, so that neither conversion loses anything.

* `Position.origin_past_closedLines`: the position behind closed lines and a part of the next one.
* `LineIndex.offset?_past`: the offset of the position that reading a text leads to.
* `LineIndex.conversions_invert`: the two conversions undo each other and keep the order.
-/

namespace EmbeddedGraphQL

/-! ## Positions behind lines -/

namespace Position

/-- Reading on within a line leads as many columns on as the text has code units. -/
theorem past_of_not_mem (p : Position) {part : List Char} (h : '\n' ∉ part) :
    p.past part = ⟨p.line, p.character + Text.unitLength part⟩ := by
  induction part generalizing p with
  | nil => rfl
  | cons c part ih =>
    rw [List.mem_cons, not_or] at h
    rw [past_cons, ih _ h.2, advance, if_neg (Ne.symm h.1), Text.unitLength_cons, Nat.add_assoc]

/-- Reading closed lines from the start of a line leads as many lines on. -/
theorem past_closedLines (line : Nat) {ls : List (List Char)} (h : ∀ l ∈ ls, '\n' ∉ l) :
    Position.past ⟨line, 0⟩ (Text.closedLines ls) = ⟨line + ls.length, 0⟩ := by
  induction ls generalizing line with
  | nil => rfl
  | cons first ls ih =>
    obtain ⟨hfirst, hls⟩ := List.forall_mem_cons.mp h
    rw [Text.closedLines_cons, past_append, past_of_not_mem _ hfirst, past_cons, advance,
      if_pos rfl, ih (line + 1) hls, List.length_cons, Nat.add_assoc, Nat.add_comm 1]

/-- The position behind closed lines and a part of the next one. -/
theorem origin_past_closedLines {ls : List (List Char)} (h : ∀ l ∈ ls, '\n' ∉ l)
    {part : List Char} (hpart : '\n' ∉ part) :
    Position.origin.past (Text.closedLines ls ++ part) = ⟨ls.length, Text.unitLength part⟩ := by
  rw [past_append, origin, past_closedLines 0 h, past_of_not_mem _ hpart, Nat.zero_add,
    Nat.zero_add]

end Position

namespace LineIndex

/-! ## Back from a position -/

/-- The offset of the position that reading a text leads to is the size of that text. -/
theorem offset?_past (s t : List Char) :
    (ofText (s ++ t)).offset? (Position.origin.past s) = some (Text.byteLength s) := by
  obtain ⟨ls, part, rfl, hls, hpart⟩ := Text.exists_closedLines_append s
  obtain ⟨rest, hline⟩ := lines_closedLines_append hls hpart t
  rw [← List.append_assoc] at hline
  -- The part has nothing to its left on the line.
  have hsurplus := surplusUntil_wideFrom 0 0 part rest
  rw [Nat.zero_add, Nat.zero_add] at hsurplus
  rw [Position.origin_past_closedLines hls hpart]
  simp only [offset?, lineStart?, wideChars, hline, Option.map_some, Option.getD_some,
    Option.some.injEq, Text.byteLength_append]
  omega

/-- A place between two characters is known by its position. -/
theorem offset?_position {text : List Char} {offset : Nat} (h : Text.IsBoundary text offset) :
    (ofText text).offset? ((ofText text).position offset) = some offset := by
  obtain ⟨before, after, rfl, rfl⟩ := h
  rw [position_append, offset?_past]

/-- The end of a part of a line is known by its line and its column. -/
theorem exists_offset?_of_piece {text piece part : List Char} {line : Nat}
    (hpiece : (Text.pieces text)[line]? = some piece) (hpart : part <+: piece) :
    ∃ offset, (ofText text).offset? ⟨line, Text.unitLength part⟩ = some offset ∧
      (ofText text).position offset = ⟨line, Text.unitLength part⟩ := by
  have hnewline := Text.newline_not_mem_piece (List.mem_of_getElem? hpiece)
  obtain ⟨ls, rest, htext, rfl, hls⟩ := Text.exists_closedLines_of_piece hpiece
  obtain ⟨more, rfl⟩ := hpart
  have hpart : '\n' ∉ part := fun hmem => hnewline (List.mem_append_left _ hmem)
  -- The end of the part is a place between two characters, and its position is the one asked for.
  have hsplit : text = (Text.closedLines ls ++ part) ++ (more ++ rest) := by
    rw [htext]
    simp
  have hpast := Position.origin_past_closedLines hls hpart
  refine ⟨Text.byteLength (Text.closedLines ls ++ part), ?_, ?_⟩
  · rw [hsplit, ← hpast, offset?_past]
  · rw [hsplit, position_append, hpast]

/-- Offsets and positions of a text convert back and forth without loss: from every offset between
two characters to its position and back, and from the end of every part of a line to its offset and
back. Positions of offsets between two characters come in the order of the offsets, and the lines of
any offsets do. And for any position, no difference in the computation is negative. -/
theorem conversions_invert (text : String) :
    let index := ofString text
    (∀ offset, Text.IsBoundary text.toList offset →
        index.offset? (index.position offset) = some offset) ∧
      (∀ line piece part, (Text.pieces text.toList)[line]? = some piece → part <+: piece →
        ∃ offset, index.offset? ⟨line, Text.unitLength part⟩ = some offset ∧
          index.position offset = ⟨line, Text.unitLength part⟩) ∧
      (∀ i j, Text.IsBoundary text.toList i → Text.IsBoundary text.toList j → i < j →
        (index.position i).Before (index.position j)) ∧
      (∀ i j, i ≤ j → (index.position i).line ≤ (index.position j).line) ∧
      ∀ p, Checked.offset index p = some (index.offset? p) := by
  intro index
  refine ⟨fun _ => offset?_position, ?_, ?_, ?_, Checked.offset_ofText text.toList⟩
  · intro line piece part hpiece hpart
    exact exists_offset?_of_piece hpiece hpart
  · intro i j hi hj hlt
    exact (position_before_iff hi hj).mpr hlt
  · intro i j hle
    exact index.line_mono hle

/-- Behind a character of four bytes and two code units on the second line, by its offset and by its
line and column. -/
theorem conversions_invert_wide :
    (ofString "ä\nb𝄞c").offset? ((ofString "ä\nb𝄞c").position 8) = some 8 ∧
      (∃ offset, (ofString "ä\nb𝄞c").offset? ⟨1, 3⟩ = some offset ∧
        (ofString "ä\nb𝄞c").position offset = ⟨1, 3⟩) ∧
      ((ofString "ä\nb𝄞c").position 2).Before ((ofString "ä\nb𝄞c").position 8) ∧
      ((ofString "ä\nb𝄞c").position 1).line ≤ ((ofString "ä\nb𝄞c").position 6).line := by
  have htext : "ä\nb𝄞c".toList = ['ä', '\n', 'b', '𝄞', 'c'] := by decide +kernel
  have hfirst : Text.IsBoundary "ä\nb𝄞c".toList 2 :=
    ⟨['ä'], ['\n', 'b', '𝄞', 'c'], htext, by decide +kernel⟩
  have hbehind : Text.IsBoundary "ä\nb𝄞c".toList 8 :=
    ⟨['ä', '\n', 'b', '𝄞'], ['c'], htext, by decide +kernel⟩
  have hpiece : (Text.pieces "ä\nb𝄞c".toList)[1]? = some ['b', '𝄞', 'c'] := by decide +kernel
  obtain ⟨hback, hforth, hbefore, hlines, -⟩ := conversions_invert "ä\nb𝄞c"
  exact ⟨hback 8 hbehind, hforth 1 _ ['b', '𝄞'] hpiece ⟨['c'], rfl⟩,
    hbefore 2 8 hfirst hbehind (by decide), hlines 1 6 (by decide)⟩

end LineIndex
end EmbeddedGraphQL
