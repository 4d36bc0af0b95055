import EmbeddedGraphQL.Text.Lines
import EmbeddedGraphQL.Text.Measure

/-!
# Pieces of a text

A text is the pieces between its line feeds. Every start of the text is some of these pieces, each
with its line feed, and a part of the next one. In the encoding of the text only a line feed is
written with the byte of a line feed, so that lines may as well be counted over bytes.

* `Text.pieces_newline`, `Text.pieces_cons`: the pieces of a text, character by character.
* `Text.closedLines`: lines, each with its line feed.
* `Text.exists_closedLines_append`, `Text.exists_closedLines_of_piece`: every text is closed lines
  and a part of a line, and every piece stands behind closed lines.
* `Text.pieces_closedLines_append`: the pieces of a text behind closed lines.
* `Text.takeBytes_append`, `Text.dropBytes_append`: cuts between two characters.
* `Text.newline_mem_utf8_iff`: the byte of a line feed stands for a line feed.
-/

namespace EmbeddedGraphQL

/-! ## Pieces -/

namespace Text

@[simp] theorem pieces_nil : pieces [] = [[]] := by simp [pieces]

@[simp] theorem pieces_newline (text : List Char) : pieces ('\n' :: text) = [] :: pieces text := by
  simp [pieces, List.splitOn_cons_eq_if_modifyHead]

/-- A character that ends no line goes to the front of the first piece. -/
theorem pieces_cons {c : Char} (hc : c ≠ '\n') (text : List Char) :
    pieces (c :: text) = (pieces text).modifyHead (c :: ·) := by
  simp [pieces, List.splitOn_cons_eq_if_modifyHead, hc]

/-- Every text has at least one piece. -/
theorem pieces_ne_nil (text : List Char) : pieces text ≠ [] := List.splitOn_ne_nil _ _

/-- Pieces put together again. -/
theorem joinLines_pieces (text : List Char) : joinLines (pieces text) = text :=
  List.intercalate_splitOn '\n'

/-- Lines without line feeds are the pieces of their text. -/
theorem pieces_joinLines {ls : List (List Char)} (h : ∀ l ∈ ls, '\n' ∉ l) (hne : ls ≠ []) :
    pieces (joinLines ls) = ls := List.splitOn_intercalate '\n' h hne

/-- The characters of a piece are characters of the text, and none of them is a line feed. -/
theorem mem_of_mem_pieces {text piece : List Char} {c : Char} (h : piece ∈ pieces text)
    (hc : c ∈ piece) : c ∈ text ∧ c ≠ '\n' := by
  induction text generalizing piece with
  | nil => simp_all
  | cons d text ih =>
    -- A line feed starts a piece of its own; any other character is put in front of the first
    -- piece.
    by_cases hd : d = '\n'
    · subst hd
      rw [pieces_newline] at h
      rcases List.mem_cons.mp h with rfl | h
      · simp at hc
      · exact (ih h hc).imp_left (List.mem_cons_of_mem _)
    · obtain ⟨first, rest, hpieces⟩ := List.exists_cons_of_ne_nil (pieces_ne_nil text)
      rw [pieces_cons hd, hpieces, List.modifyHead_cons] at h
      rcases List.mem_cons.mp h with rfl | h
      · rcases List.mem_cons.mp hc with rfl | hc
        · exact ⟨List.mem_cons_self, hd⟩
        · have hfirst : first ∈ pieces text := hpieces ▸ List.mem_cons_self
          exact (ih hfirst hc).imp_left (List.mem_cons_of_mem _)
      · have hrest : piece ∈ pieces text := hpieces ▸ List.mem_cons_of_mem _ h
        exact (ih hrest hc).imp_left (List.mem_cons_of_mem _)

/-- A text that ends with a character of a line has a last piece. -/
theorem getLast?_pieces_ne {text : List Char} (hne : text ≠ [])
    (hlast : text.getLast? ≠ some '\n') : (pieces text).getLast? ≠ some [] := by
  induction text with
  | nil => exact absurd rfl hne
  | cons c text ih =>
    cases text with
    | nil =>
      have hc : c ≠ '\n' := by simpa using hlast
      simp [pieces_cons hc]
    | cons d text =>
      have hrest := ih (List.cons_ne_nil d text) (by simpa using hlast)
      obtain ⟨first, rest, hpieces⟩ := List.exists_cons_of_ne_nil (pieces_ne_nil (d :: text))
      -- A line end puts a piece in front of the others; any other character goes into the first
      -- one.
      by_cases hc : c = '\n'
      · subst hc
        rw [pieces_newline, hpieces, List.getLast?_cons_cons, ← hpieces]
        exact hrest
      · rw [pieces_cons hc, hpieces, List.modifyHead_cons]
        cases rest with
        | nil => simp
        | cons second rest =>
          rw [List.getLast?_cons_cons]
          rwa [hpieces, List.getLast?_cons_cons] at hrest

/-- The lines of a text that has no carriage return and ends within a line are its pieces. -/
theorem lines_eq_pieces {text : List Char} (hreturn : '\r' ∉ text) (hne : text ≠ [])
    (hlast : text.getLast? ≠ some '\n') : lines text = pieces text := by
  have hdrop : (pieces text).dropLast.map dropReturn = (pieces text).dropLast := by
    refine (List.map_congr_left fun line hline => ?_).trans (List.map_id _)
    have hmem : line ∈ pieces text := List.dropLast_subset _ hline
    refine if_neg fun h => hreturn ?_
    exact (mem_of_mem_pieces hmem (List.mem_of_getLast? h)).1
  have hgetLast : (pieces text).getLast? = some ((pieces text).getLast (pieces_ne_nil text)) :=
    List.getLast?_eq_some_getLast _
  have hsome : ((pieces text).getLast (pieces_ne_nil text)).isEmpty = false := by
    rw [List.isEmpty_eq_false_iff]
    intro h
    exact getLast?_pieces_ne hne hlast (h ▸ hgetLast)
  simp only [lines, hdrop, hgetLast, Option.getD_some, hsome, Bool.false_eq_true, if_false]
  exact List.dropLast_concat_getLast _

/-! ## Closed lines -/

/-- Lines, each with its line feed. -/
def closedLines (ls : List (List Char)) : List Char := ls.flatMap (· ++ ['\n'])

@[simp] theorem closedLines_nil : closedLines [] = [] := rfl

@[simp] theorem closedLines_cons (line : List Char) (ls : List (List Char)) :
    closedLines (line :: ls) = line ++ '\n' :: closedLines ls := by
  simp [closedLines]

/-- Of joined lines, those in front of any one are closed. -/
theorem joinLines_closedLines (ls : List (List Char)) (line : List Char)
    (rest : List (List Char)) :
    joinLines (ls ++ line :: rest) = closedLines ls ++ joinLines (line :: rest) := by
  induction ls with
  | nil => rfl
  | cons first ls ih =>
    rw [joinLines, List.cons_append, List.intercalate_cons_of_ne_nil (by simp), ← joinLines, ih]
    simp

/-- Joined lines start with the first one. -/
theorem exists_joinLines_cons (line : List Char) (ls : List (List Char)) :
    ∃ rest, joinLines (line :: ls) = line ++ rest := by
  cases ls with
  | nil => exact ⟨[], by simp [joinLines]⟩
  | cons second ls =>
    exact ⟨'\n' :: joinLines (second :: ls), joinLines_closedLines [line] second ls ▸ by simp⟩

/-- The line feed ends a piece, so that no piece has one. -/
theorem newline_not_mem_piece {text piece : List Char} (h : piece ∈ pieces text) :
    '\n' ∉ piece := fun hnewline => (mem_of_mem_pieces h hnewline).2 rfl

/-- Every text is some closed lines and a part of the line behind them. -/
theorem exists_closedLines_append (text : List Char) :
    ∃ ls line, text = closedLines ls ++ line ∧ (∀ l ∈ ls, '\n' ∉ l) ∧ '\n' ∉ line := by
  have hne := pieces_ne_nil text
  have hsplit := List.dropLast_concat_getLast hne
  refine ⟨(pieces text).dropLast, (pieces text).getLast hne, ?_, ?_, ?_⟩
  · calc text = joinLines (pieces text) := (joinLines_pieces text).symm
      _ = joinLines ((pieces text).dropLast ++ [(pieces text).getLast hne]) := by rw [hsplit]
      _ = _ := by rw [joinLines_closedLines, joinLines, List.intercalate_singleton]
  · exact fun l hl => newline_not_mem_piece (List.dropLast_subset _ hl)
  · exact newline_not_mem_piece (List.getLast_mem hne)

/-- A piece stands behind as many closed lines as its number says. -/
theorem exists_closedLines_of_piece {text piece : List Char} {n : Nat}
    (h : (pieces text)[n]? = some piece) :
    ∃ ls rest, text = closedLines ls ++ (piece ++ rest) ∧ ls.length = n ∧
      ∀ l ∈ ls, '\n' ∉ l := by
  obtain ⟨hn, rfl⟩ := List.getElem?_eq_some_iff.mp h
  obtain ⟨rest, hrest⟩ := exists_joinLines_cons (pieces text)[n] ((pieces text).drop (n + 1))
  refine ⟨(pieces text).take n, rest, ?_, List.length_take_of_le (Nat.le_of_lt hn), ?_⟩
  · calc text = joinLines (pieces text) := (joinLines_pieces text).symm
      _ = joinLines ((pieces text).take n ++ (pieces text).drop n) := by rw [List.take_append_drop]
      _ = _ := by rw [List.drop_eq_getElem_cons hn, joinLines_closedLines, hrest]
  · exact fun l hl => newline_not_mem_piece (List.mem_of_mem_take hl)

/-- The pieces of a text behind a part of a line. -/
theorem pieces_append_of_not_mem {line : List Char} (h : '\n' ∉ line) (text : List Char) :
    pieces (line ++ text) = (pieces text).modifyHead (line ++ ·) := by
  induction line with
  | nil => exact (congrFun List.modifyHead_id _).symm
  | cons c line ih =>
    rw [List.mem_cons, not_or] at h
    rw [List.cons_append, pieces_cons (Ne.symm h.1), ih h.2, List.modifyHead_modifyHead]
    rfl

/-- The pieces of a text behind a closed line. -/
theorem pieces_append_newline {line : List Char} (h : '\n' ∉ line) (text : List Char) :
    pieces (line ++ '\n' :: text) = line :: pieces text :=
  List.splitOn_append_cons_self_of_not_mem h text

/-- The pieces of a text behind closed lines. -/
theorem pieces_closedLines_append {ls : List (List Char)} (h : ∀ l ∈ ls, '\n' ∉ l)
    (text : List Char) : pieces (closedLines ls ++ text) = ls ++ pieces text := by
  induction ls with
  | nil => rfl
  | cons line ls ih =>
    obtain ⟨hline, hls⟩ := List.forall_mem_cons.mp h
    rw [closedLines_cons, List.append_assoc, List.cons_append, pieces_append_newline hline, ih hls,
      List.cons_append]

/-! ## Cuts between characters -/

/-- A cut behind a character is a cut of the text behind it, for the bytes that are left. -/
theorem exists_byteLength_cons (c : Char) (text : List Char) :
    ∃ n, byteLength (c :: text) = n + 1 ∧ c.utf8Size ≤ n + 1 ∧
      n + 1 - c.utf8Size = byteLength text := by
  have hpos := Char.utf8Size_pos c
  refine ⟨byteLength (c :: text) - 1, ?_⟩
  rw [byteLength_cons]
  omega

/-- The text before a cut that stands between two texts. -/
@[simp] theorem takeBytes_append (a b : List Char) : takeBytes (byteLength a) (a ++ b) = a := by
  induction a with
  | nil => simp [takeBytes]
  | cons c a ih =>
    obtain ⟨n, hn, -, hrest⟩ := exists_byteLength_cons c a
    rw [hn, List.cons_append, takeBytes, hrest, ih]

/-- The text after a cut that stands between two texts. -/
@[simp] theorem dropBytes_append (a b : List Char) : dropBytes (byteLength a) (a ++ b) = b := by
  have h := takeBytes_append_dropBytes (byteLength a) (a ++ b)
  rw [takeBytes_append] at h
  exact List.append_cancel_left h

/-! ## Bytes -/

@[simp] theorem length_utf8 (text : List Char) : (utf8 text).length = byteLength text := by
  induction text with
  | nil => rfl
  | cons c text ih =>
    rw [utf8, List.flatMap_cons, List.length_append, String.length_utf8EncodeChar, ← utf8, ih,
      byteLength_cons]

/-- The bytes of joined texts are the bytes of each in turn. -/
theorem utf8_append (s t : List Char) : utf8 (s ++ t) = utf8 s ++ utf8 t := List.flatMap_append

/-- A byte below 0x80 is written for the character with its number only. -/
theorem toNat_eq_of_mem_utf8EncodeChar {c : Char} {b : UInt8} (hb : b ∈ String.utf8EncodeChar c)
    (hascii : b.toNat < 0x80) : c.toNat = b.toNat := by
  -- All bytes of a longer character have their highest bit set.
  unfold String.utf8EncodeChar at hb
  simp only at hb
  split at hb
  · rename_i hshort
    have hbyte := congrArg UInt8.toNat (List.mem_singleton.mp hb)
    rw [UInt8.toNat_ofNat'] at hbyte
    change c.val.toNat = b.toNat
    omega
  · split at hb
    · simp only [List.mem_cons, List.not_mem_nil, or_false] at hb
      rcases hb with rfl | rfl <;> rw [UInt8.toNat_ofNat'] at hascii <;> omega
    · split at hb
      · simp only [List.mem_cons, List.not_mem_nil, or_false] at hb
        rcases hb with rfl | rfl | rfl <;> rw [UInt8.toNat_ofNat'] at hascii <;> omega
      · simp only [List.mem_cons, List.not_mem_nil, or_false] at hb
        rcases hb with rfl | rfl | rfl | rfl <;> rw [UInt8.toNat_ofNat'] at hascii <;> omega

/-- The byte of a line feed is written for line feeds only. -/
theorem newline_mem_utf8_iff {text : List Char} : 0x0A ∈ utf8 text ↔ '\n' ∈ text := by
  constructor
  · intro h
    obtain ⟨c, hc, hb⟩ := List.mem_flatMap.mp h
    have hnewline : c = '\n' := Char.toNat_inj.mp (toNat_eq_of_mem_utf8EncodeChar hb (by decide))
    exact hnewline ▸ hc
  · intro h
    exact List.mem_flatMap.mpr ⟨'\n', h, by decide⟩

end Text
end EmbeddedGraphQL
