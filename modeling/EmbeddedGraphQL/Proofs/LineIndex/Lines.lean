import EmbeddedGraphQL.Proofs.LineIndex.Table

/-!
# Lines cut out by their spans

The index knows a line by its number only: the line starts at its offset in the table, and ends one
byte before the next line or, if it is the last one, where the text ends. What these spans cut out
of the text are its pieces between line feeds, in the same order.

* `Position.line_past`, `Text.exists_pieces_getElem?`: lines are counted by line feeds.
* `LineIndex.lineStart?_ofText`: a line starts behind the lines in front of it.
* `LineIndex.exists_lineSpan?_of_piece`: where a piece of a text stands.
* `LineIndex.lineText?_ofText`: the spans of the lines cut out the pieces.
-/

namespace EmbeddedGraphQL

/-! ## Lines by counting -/

/-- Reading a text leads as many lines on as it has line feeds. -/
theorem Position.line_past (p : Position) (text : List Char) :
    (p.past text).line = p.line + text.count '\n' := by
  induction text generalizing p with
  | nil => rfl
  | cons c text ih =>
    rw [Position.past_cons, ih, Position.advance, List.count_cons]
    by_cases hc : c = '\n'
    · simp only [hc, if_true, beq_self_eq_true]
      omega
    · simp [hc]

namespace Text

/-- A text has one piece more than line feeds. -/
theorem length_pieces (text : List Char) : (pieces text).length = text.count '\n' + 1 := by
  induction text with
  | nil => simp
  | cons c text ih =>
    by_cases hc : c = '\n'
    · rw [hc, pieces_newline, List.length_cons, ih, List.count_cons_self]
    · rw [pieces_cons hc, List.length_modifyHead, ih, List.count_cons_of_ne hc]

/-- Some closed lines and a part of the next one have a line feed for each of the lines. -/
theorem count_closedLines_append {ls : List (List Char)} (h : ∀ l ∈ ls, '\n' ∉ l)
    {part : List Char} (hpart : '\n' ∉ part) : (closedLines ls ++ part).count '\n' = ls.length := by
  have hlength := length_pieces (closedLines ls ++ part)
  have hlast : pieces part = [part] := List.splitOn_eq_singleton hpart
  rw [pieces_closedLines_append h, hlast, List.length_append, List.length_singleton] at hlength
  exact (Nat.succ.inj hlength).symm

/-- The line of a character is the piece behind as many line feeds as there are in front of the
character. -/
theorem exists_pieces_getElem? {c : Char} (hc : c ≠ '\n') (before after : List Char) :
    ∃ part rest, (pieces (before ++ c :: after))[before.count '\n']? = some (part ++ c :: rest) ∧
      part <:+ before := by
  obtain ⟨ls, part, rfl, hls, hpart⟩ := exists_closedLines_append before
  obtain ⟨first, later, hpieces⟩ := List.exists_cons_of_ne_nil (pieces_ne_nil after)
  refine ⟨part, first, ?_, List.suffix_append _ _⟩
  rw [count_closedLines_append hls hpart, List.append_assoc, pieces_closedLines_append hls,
    pieces_append_of_not_mem hpart, pieces_cons hc, hpieces,
    List.getElem?_append_right (Nat.le_refl _), Nat.sub_self]
  rfl

end Text

namespace LineIndex

/-! ## Spans of lines -/

/-- The line of a number in a table stands behind the lines in front of it. -/
theorem getElem?_table (start : Nat) (ls : List (List Char)) (number : Nat) :
    (table start ls)[number]? = ls[number]?.map fun line =>
      ⟨start + Text.byteLength (Text.closedLines (ls.take number)), wideFrom 0 line⟩ := by
  induction ls generalizing start number with
  | nil => rfl
  | cons line ls ih =>
    cases number with
    | zero => rfl
    | succ number =>
      have hnewline : '\n'.utf8Size = 1 := rfl
      rw [table, List.getElem?_cons_succ, List.getElem?_cons_succ, ih, List.take_succ_cons,
        Text.closedLines_cons, Text.byteLength_append, Text.byteLength_cons, hnewline]
      simp only [Nat.add_assoc]

/-- A line of a text starts behind the lines in front of it. -/
theorem lineStart?_ofText (text : List Char) (number : Nat) :
    (ofText text).lineStart? number = (Text.pieces text)[number]?.map fun _ =>
      Text.byteLength (Text.closedLines ((Text.pieces text).take number)) := by
  rw [lineStart?, lines_ofText, getElem?_table, Option.map_map]
  simp only [Nat.zero_add]
  rfl

/-- A piece of a text stands where the span of its line says. -/
theorem exists_lineSpan?_of_piece {text piece : List Char} {number : Nat}
    (h : (Text.pieces text)[number]? = some piece) :
    ∃ before after, text = before ++ piece ++ after ∧
      (ofText text).lineSpan? number =
        some ⟨Text.byteLength before, Text.byteLength before + Text.byteLength piece⟩ := by
  obtain ⟨hnumber, rfl⟩ := List.getElem?_eq_some_iff.mp h
  have hstart := lineStart?_ofText text number
  have hnext := lineStart?_ofText text (number + 1)
  rw [h, Option.map_some] at hstart
  have hsplit : text = Text.closedLines ((Text.pieces text).take number) ++
      Text.joinLines ((Text.pieces text)[number] :: (Text.pieces text).drop (number + 1)) := by
    rw [← Text.joinLines_closedLines, ← List.drop_eq_getElem_cons hnumber, List.take_append_drop,
      Text.joinLines_pieces]
  refine ⟨Text.closedLines ((Text.pieces text).take number), ?_⟩
  cases hrest : (Text.pieces text)[number + 1]? with
  | none =>
    -- The last line ends with the text.
    have hlast : (Text.pieces text).drop (number + 1) = [] :=
      List.drop_eq_nil_of_le (List.getElem?_eq_none_iff.mp hrest)
    rw [hlast, Text.joinLines, List.intercalate_singleton] at hsplit
    refine ⟨[], by rwa [List.append_nil], ?_⟩
    rw [hrest, Option.map_none] at hnext
    have hsize := congrArg Text.byteLength hsplit
    rw [Text.byteLength_append] at hsize
    rw [lineSpan?, hstart, hnext]
    simp only [Option.map_some, Option.map_none, Option.getD_none, ofText, ← hsize]
  | some next =>
    -- Behind any other line stands a line feed, and then the next one starts.
    obtain ⟨hlt, -⟩ := List.getElem?_eq_some_iff.mp hrest
    rw [List.drop_eq_getElem_cons hlt, ← List.singleton_append, Text.joinLines_closedLines,
      Text.closedLines_cons, Text.closedLines_nil, List.append_assoc, List.cons_append] at hsplit
    refine ⟨_, by rw [List.append_assoc]; exact hsplit, ?_⟩
    have hclosed : Text.byteLength (Text.closedLines ((Text.pieces text).take (number + 1))) =
        Text.byteLength (Text.closedLines ((Text.pieces text).take number)) +
          Text.byteLength (Text.pieces text)[number] + 1 := by
      have hnewline : '\n'.utf8Size = 1 := rfl
      rw [List.take_succ_eq_append_getElem hnumber, Text.closedLines, List.flatMap_append,
        ← Text.closedLines, Text.byteLength_append, List.flatMap_singleton, Text.byteLength_append,
        Text.byteLength_cons, hnewline, Text.byteLength_nil, Nat.add_assoc]
    rw [hrest, Option.map_some, hclosed] at hnext
    rw [lineSpan?, hstart, hnext]
    rfl

/-- A text has no line behind its pieces. -/
theorem lineSpan?_eq_none {text : List Char} {number : Nat}
    (h : (Text.pieces text)[number]? = none) : (ofText text).lineSpan? number = none := by
  rw [lineSpan?, lineStart?_ofText text number, h]
  rfl

/-- The spans of the lines cut out the pieces of the text. -/
theorem lineText?_ofText (text : List Char) (number : Nat) :
    ((ofText text).lineSpan? number).map (fun span =>
        Text.takeBytes (span.stop - span.start) (Text.dropBytes span.start text)) =
      (Text.pieces text)[number]? := by
  cases hpiece : (Text.pieces text)[number]? with
  | none => rw [lineSpan?_eq_none hpiece, Option.map_none]
  | some piece =>
    obtain ⟨before, after, htext, hspan⟩ := exists_lineSpan?_of_piece hpiece
    rw [hspan, Option.map_some]
    simp only [Nat.add_sub_cancel_left]
    rw [htext, List.append_assoc, Text.dropBytes_append, Text.takeBytes_append]

end LineIndex
end EmbeddedGraphQL
