import EmbeddedGraphQL.Proofs.Document.Surroundings
import EmbeddedGraphQL.Proofs.Text.Runs

/-!
# Restored texts

A printed text that takes the place of another one is trimmed, and its lines go behind the
indentation of that text. What starts and ends the trimmed text is no blank, so that the blanks
around the result are exactly those of the text it takes the place of, whatever carriage returns and
empty lines there are in between. Therefore nothing changes when the same text is put there again.

* `Text.lines_closedLines_append`: the lines of a text that ends within a line.
* `Indentation.exists_shifted_eq`: the shifted lines start and end with something.
* `Indentation.leadingBlanks_restore`, `Indentation.trailingBlanks_restore`: the blanks around the
  result.
* `Indentation.restore_restore`: what is put in its own place stays.
* `Indentation.restoreString_padding`: the padding and the lines of the result.
-/

namespace EmbeddedGraphQL

/-! ## Lines of a text that ends within a line -/

namespace Text

/-- The carriage return that belongs to the end of a line is the last character of the line. -/
theorem dropReturn_subset (line : List Char) : dropReturn line ⊆ line := by
  unfold dropReturn
  split
  · exact List.dropLast_subset line
  · exact List.Subset.refl line

/-- A line that starts with another character than a carriage return starts with it without the
carriage return at its end, too. -/
theorem exists_dropReturn_cons {c : Char} (hc : c ≠ '\r') (line : List Char) :
    ∃ rest, dropReturn (c :: line) = c :: rest := by
  unfold dropReturn
  split
  · rename_i hreturn
    have hne : line ≠ [] := by
      rintro rfl
      exact hc (Option.some.inj hreturn)
    exact ⟨line.dropLast, List.dropLast_cons_of_ne_nil hne⟩
  · exact ⟨line, rfl⟩

/-- The lines of some closed lines and a part of the line behind them. -/
theorem lines_closedLines_append {ls : List (List Char)} {line : List Char}
    (hls : ∀ l ∈ ls, '\n' ∉ l) (hline : '\n' ∉ line) (hne : line ≠ []) :
    lines (closedLines ls ++ line) = ls.map dropReturn ++ [line] := by
  have hlast : pieces line = [line] := by
    have happend := pieces_append_of_not_mem hline []
    rwa [List.append_nil, pieces_nil, List.modifyHead_cons, List.append_nil] at happend
  have hpieces : pieces (closedLines ls ++ line) = ls ++ [line] := by
    rw [pieces_closedLines_append hls, hlast]
  simp [lines, hpieces, hne]

/-- A text that ends with something ends within a line. -/
theorem exists_closedLines_append_of_solid {text : List Char} (hne : text ≠ [])
    (hlast : ∀ c ∈ text.getLast?, isBlank c = false) :
    ∃ ls line, text = closedLines ls ++ line ∧ (∀ l ∈ ls, '\n' ∉ l) ∧ '\n' ∉ line ∧ line ≠ [] := by
  obtain ⟨ls, line, htext, hls, hline⟩ := exists_closedLines_append text
  refine ⟨ls, line, htext, hls, hline, ?_⟩
  rintro rfl
  rw [List.append_nil] at htext
  -- Otherwise the text is closed lines only, and its last character is a line feed.
  rcases List.eq_nil_or_concat ls with rfl | ⟨front, last, rfl⟩
  · exact hne htext
  · have hnewline : text.getLast? = some '\n' := by
      rw [htext, closedLines, List.concat_eq_append, List.flatMap_append]
      simp
    exact absurd (hlast '\n' hnewline) (by decide)

/-- No line contains a line end. -/
theorem newline_not_mem_of_mem_lines {text line : List Char} (h : line ∈ lines text) :
    '\n' ∉ line := by
  simp only [lines, List.mem_append, List.mem_map] at h
  rcases h with ⟨piece, hpiece, rfl⟩ | h
  · intro hmem
    exact newline_not_mem_piece (List.dropLast_subset _ hpiece) (dropReturn_subset piece hmem)
  · split at h
    · cases h
    · obtain rfl := List.mem_singleton.mp h
      intro hmem
      cases hlast : (pieces text).getLast? with
      | none => simp [hlast] at hmem
      | some last =>
        rw [hlast] at hmem
        exact newline_not_mem_piece (List.mem_of_getLast? hlast) hmem

end Text

namespace Indentation

/-! ## Shifted lines -/

/-- The lines of a printed text without the blanks around it, behind an indentation. -/
def shifted (indent printed : List Char) : List Char :=
  Text.joinLines ((Text.lines (Text.trim printed)).map (indentLine indent))

variable {indent printed : List Char}

/-- The shifted lines of a text that is not all blank start with the indentation and then, as they
end, with something. -/
theorem exists_shifted_eq (h : Text.isAllBlank printed = false) (indent : List Char) :
    ∃ solid, shifted indent printed = indent ++ solid ∧ solid ≠ [] ∧
      (∀ c ∈ solid.head?, Text.isBlank c = false) ∧
      ∀ c ∈ solid.getLast?, Text.isBlank c = false := by
  have htrim := Text.trim_ne_nil h
  have hhead : ∀ c ∈ (Text.trim printed).head?, Text.isBlank c = false := Text.head?_trim
  have hlast : ∀ c ∈ (Text.trim printed).getLast?, Text.isBlank c = false := Text.getLast?_trim
  obtain ⟨ls, line, htext, hls, hline, hne⟩ :=
    Text.exists_closedLines_append_of_solid htrim hlast
  rw [htext] at hhead hlast
  rw [List.getLast?_append_of_ne_nil _ hne] at hlast
  have hindent : indentLine indent line = indent ++ line := if_neg (by simpa using hne)
  rw [shifted, htext, Text.lines_closedLines_append hls hline hne, List.map_append, List.map_map,
    List.map_singleton, hindent]
  cases ls with
  | nil => exact ⟨line, by simp [Text.joinLines], hne, hhead, hlast⟩
  | cons first more =>
    -- The first line is not empty, and its first character is no carriage return.
    obtain ⟨c, tail, rfl⟩ : ∃ c tail, first = c :: tail := by
      cases first with
      | nil => exact absurd (hhead '\n' rfl) (by decide)
      | cons c tail => exact ⟨c, tail, rfl⟩
    have hc : Text.isBlank c = false := hhead c rfl
    have hreturn : c ≠ '\r' := by
      rintro rfl
      exact absurd hc (by decide)
    obtain ⟨rest, hrest⟩ := Text.exists_dropReturn_cons hreturn tail
    let shiftedMore := Text.closedLines (more.map (indentLine indent ∘ Text.dropReturn))
    refine ⟨c :: rest ++ '\n' :: (shiftedMore ++ indent) ++ line, ?_, by simp, ?_, ?_⟩
    · rw [Text.joinLines_closedLines, List.map_cons, Text.closedLines_cons, Function.comp_apply,
        hrest]
      simp [indentLine, Text.joinLines, shiftedMore]
    · rintro d ⟨⟩
      exact hc
    · rwa [List.getLast?_append_of_ne_nil _ hne]

/-- Split at every line feed, the shifted lines are the lines behind the indentation. -/
theorem pieces_shifted (h : Text.isAllBlank printed = false) (hindent : '\n' ∉ indent) :
    Text.pieces (shifted indent printed) =
      (Text.lines (Text.trim printed)).map (indentLine indent) := by
  apply Text.pieces_joinLines
  · intro l hl
    obtain ⟨line, hline, rfl⟩ := List.mem_map.mp hl
    have hnewline := Text.newline_not_mem_of_mem_lines hline
    unfold indentLine
    split
    · exact List.not_mem_nil
    · rw [List.mem_append, not_or]
      exact ⟨hindent, hnewline⟩
  · obtain ⟨ls, line, htext, hls, hline, hne⟩ :=
      Text.exists_closedLines_append_of_solid (Text.trim_ne_nil h) Text.getLast?_trim
    rw [htext, Text.lines_closedLines_append hls hline hne]
    simp

/-! ## The result -/

/-- The blanks that are put behind a text: those behind the text that it takes the place of, unless
that is all blank. -/
def blanksBehind (host : List Char) : List Char :=
  if Text.isAllBlank host then [] else Text.trailingBlanks host

/-- The blanks behind a host are blanks. -/
theorem isBlank_of_mem_blanksBehind {host : List Char} {c : Char} (h : c ∈ blanksBehind host) :
    Text.isBlank c = true := by
  unfold blanksBehind at h
  split at h
  · cases h
  · exact Text.isBlank_of_mem_trailingBlanks h

/-- The blanks in front of a text are some lines, each with its line feed, and the indentation. -/
theorem exists_append_lastPiece (blanks : List Char) :
    ∃ before, blanks = before ++ lastPiece blanks ∧ ∀ c ∈ before.getLast?, c = '\n' := by
  refine ⟨(blanks.reverse.dropWhile (· != '\n')).reverse, ?_, ?_⟩
  · rw [lastPiece, ← List.reverse_append, List.takeWhile_append_dropWhile, List.reverse_reverse]
  · intro c hc
    rw [List.getLast?_reverse] at hc
    simpa using Text.head?_dropWhile c hc

/-- The result is the shifted lines between the blanks in front of the indentation and the ones
behind. -/
theorem restore_eq_shifted {host before : List Char}
    (hbefore : Text.leadingBlanks host = before ++ lastPiece (Text.leadingBlanks host))
    (printed : List Char) :
    restore host printed =
      before ++ shifted (lastPiece (Text.leadingBlanks host)) printed ++ blanksBehind host := by
  have htake := take_append_lastPiece (Text.leadingBlanks host)
  conv at htake => rhs; rw [hbefore]
  rw [← List.append_cancel_right htake]
  rfl

/-- What is put in the place of a text is something between the blanks of that text. -/
theorem exists_restore_eq (h : Text.isAllBlank printed = false) (host : List Char) :
    ∃ solid, restore host printed = Text.leadingBlanks host ++ (solid ++ blanksBehind host) ∧
      solid ≠ [] ∧ (∀ c ∈ solid.head?, Text.isBlank c = false) ∧
      ∀ c ∈ solid.getLast?, Text.isBlank c = false := by
  obtain ⟨before, hbefore, -⟩ := exists_append_lastPiece (Text.leadingBlanks host)
  obtain ⟨solid, hsolid, hne, hhead, hlast⟩ :=
    exists_shifted_eq h (lastPiece (Text.leadingBlanks host))
  refine ⟨solid, ?_, hne, hhead, hlast⟩
  calc restore host printed
      = before ++ (lastPiece (Text.leadingBlanks host) ++ solid) ++ blanksBehind host := by
        rw [restore_eq_shifted hbefore, hsolid]
    _ = before ++ lastPiece (Text.leadingBlanks host) ++ (solid ++ blanksBehind host) := by
        simp only [List.append_assoc]
    _ = Text.leadingBlanks host ++ (solid ++ blanksBehind host) := by rw [← hbefore]

/-- What is restored has the leading blanks of its host. -/
theorem leadingBlanks_restore (h : Text.isAllBlank printed = false) (host : List Char) :
    Text.leadingBlanks (restore host printed) = Text.leadingBlanks host := by
  obtain ⟨solid, hrestore, hne, hhead, -⟩ := exists_restore_eq h host
  rw [hrestore]
  exact Text.leadingBlanks_append (fun _ => Text.isBlank_of_mem_leadingBlanks) hne hhead

/-- What is restored ends in the blanks behind its host. -/
theorem trailingBlanks_restore (h : Text.isAllBlank printed = false) (host : List Char) :
    Text.trailingBlanks (restore host printed) = blanksBehind host := by
  obtain ⟨solid, hrestore, hne, -, hlast⟩ := exists_restore_eq h host
  rw [hrestore]
  exact Text.trailingBlanks_append (fun _ => isBlank_of_mem_blanksBehind) hne hlast

/-- What is restored is not all blank. -/
theorem isAllBlank_restore (h : Text.isAllBlank printed = false) (host : List Char) :
    Text.isAllBlank (restore host printed) = false := by
  obtain ⟨solid, hrestore, hne, hhead, -⟩ := exists_restore_eq h host
  obtain ⟨c, tail, rfl⟩ := List.exists_cons_of_ne_nil hne
  have hc : Text.isBlank c = false := hhead c rfl
  simp [hrestore, Text.isAllBlank, hc]

/-- The result depends on the blanks around a text only. -/
theorem restore_congr {host other : List Char}
    (hleading : Text.leadingBlanks host = Text.leadingBlanks other)
    (hbehind : blanksBehind host = blanksBehind other) (printed : List Char) :
    restore host printed = restore other printed := by
  obtain ⟨before, hbefore, -⟩ := exists_append_lastPiece (Text.leadingBlanks other)
  rw [restore_eq_shifted hbefore, hbehind.symm, ← hleading]
  rw [← hleading] at hbefore
  exact restore_eq_shifted hbefore printed

/-- What is put in the place of a text has the blanks of that text around it, so that nothing
changes when the same text is put in its place again. -/
theorem restore_restore (h : Text.isAllBlank printed = false) (host : List Char) :
    restore (restore host printed) printed = restore host printed := by
  apply restore_congr
  · exact leadingBlanks_restore h host
  · rw [blanksBehind, isAllBlank_restore h, trailingBlanks_restore h]
    rfl

/-- A printed text with something in it that takes the place of another text: the result has the
blanks of that text in front and, unless that text is all blank, behind. Without the latter and the
lines of the former it is the lines of the trimmed text, each behind the indentation unless it is
empty. So putting the same text in the place of the result changes nothing. -/
theorem restoreString_padding {host printed : String}
    (h : ∃ c ∈ printed.toList, Text.isBlank c = false) :
    Text.isAllBlank (restoreString host printed).toList = false ∧
      Text.leadingBlanks (restoreString host printed).toList = Text.leadingBlanks host.toList ∧
      Text.trailingBlanks (restoreString host printed).toList =
        (if Text.isAllBlank host.toList then [] else Text.trailingBlanks host.toList) ∧
      (∃ before indent rest, Text.leadingBlanks host.toList = before ++ indent ∧
        (∀ c ∈ before.getLast?, c = '\n') ∧ '\n' ∉ indent ∧
        (restoreString host printed).toList =
          before ++ rest ++ Text.trailingBlanks (restoreString host printed).toList ∧
        Text.pieces rest = (Text.lines (Text.trim printed.toList)).map fun line =>
          if line = [] then [] else indent ++ line) ∧
      restoreString (restoreString host printed) printed = restoreString host printed := by
  have hsome : Text.isAllBlank printed.toList = false := by
    obtain ⟨c, hc, hblank⟩ := h
    rw [Text.isAllBlank, List.all_eq_false]
    exact ⟨c, hc, by simp [hblank]⟩
  have hresult : (restoreString host printed).toList = restore host.toList printed.toList :=
    String.toList_ofList
  -- What is restored has the blanks of the host, and these are all that is taken from a host.
  have htwice :
      restoreString (restoreString host printed) printed = restoreString host printed := by
    rw [restoreString, hresult, restore_restore hsome, restoreString]
  have htrailing := trailingBlanks_restore hsome host.toList
  -- The indentation is what stands behind the last line end of the blanks in front.
  obtain ⟨before, hbefore, hnewline⟩ := exists_append_lastPiece (Text.leadingBlanks host.toList)
  have hindent : '\n' ∉ lastPiece (Text.leadingBlanks host.toList) :=
    fun hmem => (mem_lastPiece hmem).2 rfl
  rw [hresult]
  refine ⟨isAllBlank_restore hsome _, leadingBlanks_restore hsome _, htrailing,
    ⟨before, _, shifted (lastPiece (Text.leadingBlanks host.toList)) printed.toList, hbefore,
      hnewline, hindent, ?_, ?_⟩, htwice⟩
  · rw [htrailing]
    exact restore_eq_shifted hbefore printed.toList
  · rw [pieces_shifted hsome hindent]
    apply List.map_congr_left
    intro line _
    simp only [indentLine, List.isEmpty_iff]

/-- An indentation with a carriage return and an empty line in between. -/
theorem restoreString_padding_returns :
    restoreString "\n \r\x7b a \x7d\r\n" "\x7b\r\n\n a\x7d\n" = "\n \r\x7b\n\n \r a\x7d\r\n" ∧
      restoreString "\n \r\x7b\n\n \r a\x7d\r\n" "\x7b\r\n\n a\x7d\n" =
        "\n \r\x7b\n\n \r a\x7d\r\n" := by
  have hrestore :
      restoreString "\n \r\x7b a \x7d\r\n" "\x7b\r\n\n a\x7d\n" = "\n \r\x7b\n\n \r a\x7d\r\n" := by
    decide +kernel
  have hsome : ∃ c ∈ "\x7b\r\n\n a\x7d\n".toList, Text.isBlank c = false :=
    ⟨'\x7b', by decide, by decide⟩
  obtain ⟨-, -, -, -, htwice⟩ := @restoreString_padding "\n \r\x7b a \x7d\r\n" _ hsome
  rw [hrestore] at htwice
  exact ⟨hrestore, htwice⟩

end Indentation
end EmbeddedGraphQL
