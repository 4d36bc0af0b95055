import EmbeddedGraphQL.Indentation
import EmbeddedGraphQL.Document.Value
import EmbeddedGraphQL.Proofs.Text.Pieces

/-!
# Texts put into their surroundings

A printed text that takes the place of another one is shifted to the indentation of that text, and
the blanks behind it follow. Shifting goes from left to right: behind every line end the indentation
is put in, unless the line is empty.

* `Indentation.reindent`: a text with its lines shifted, the first one apart.
* `Indentation.restore_eq`: what is put in the place of a text.
* `Surroundings`: what stands around a printed text.
-/

namespace EmbeddedGraphQL

/-! ## Shifted lines -/

namespace Indentation

/-- Whether a text starts with a line that is not empty. -/
def startsLine : List Char → Bool
  | [] => false
  | c :: _ => c != '\n'

/-- A text with its lines shifted to an indentation, the first line apart. Empty lines stay
empty. -/
def reindent (indent : List Char) : List Char → List Char
  | [] => []
  | c :: text =>
    if c = '\n' then c :: ((if startsLine text then indent else []) ++ reindent indent text)
    else c :: reindent indent text

variable {indent : List Char}

@[simp] theorem reindent_nil : reindent indent [] = [] := rfl

@[simp] theorem reindent_newline (text : List Char) :
    reindent indent ('\n' :: text) =
      '\n' :: ((if startsLine text then indent else []) ++ reindent indent text) := rfl

/-- A character inside a line stays as it is. -/
theorem reindent_cons {c : Char} (hc : c ≠ '\n') (text : List Char) :
    reindent indent (c :: text) = c :: reindent indent text := if_neg hc

/-- What has no line feed is not shifted. -/
theorem reindent_append {text : List Char} (h : '\n' ∉ text) (rest : List Char) :
    reindent indent (text ++ rest) = text ++ reindent indent rest := by
  induction text with
  | nil => rfl
  | cons c text ih =>
    obtain ⟨hc, htext⟩ := not_or.mp (fun hmem => h (List.mem_cons.mpr hmem))
    rw [List.cons_append, reindent_cons (Ne.symm hc), ih htext, List.cons_append]

/-- Indentation keeps the first character. -/
theorem head?_reindent (text : List Char) : (reindent indent text).head? = text.head? := by
  cases text with
  | nil => rfl
  | cons c text =>
    rw [reindent]
    split <;> rfl

/-- A text starts with a line that is not empty exactly if its first piece is not. -/
theorem startsLine_eq {text first : List Char} {rest : List (List Char)}
    (h : Text.pieces text = first :: rest) : startsLine text = !first.isEmpty := by
  cases text with
  | nil =>
    cases h
    rfl
  | cons c text =>
    by_cases hc : c = '\n'
    · subst hc
      rw [Text.pieces_newline] at h
      cases h
      rfl
    · obtain ⟨second, others, hpieces⟩ := List.exists_cons_of_ne_nil (Text.pieces_ne_nil text)
      rw [Text.pieces_cons hc, hpieces, List.modifyHead_cons] at h
      cases h
      simpa [startsLine] using hc

/-- A line is indented unless it is empty. -/
theorem indentLine_eq (indent line : List Char) :
    indentLine indent line = (if !line.isEmpty then indent else []) ++ line := by
  cases line <;> rfl

/-- Text in front of the first line stands in front of the joined lines. -/
theorem joinLines_append_cons (start line : List Char) (rest : List (List Char)) :
    Text.joinLines ((start ++ line) :: rest) = start ++ Text.joinLines (line :: rest) := by
  cases rest <;> simp [Text.joinLines, List.intercalate_cons_cons]

/-- The lines of a text behind the indentation, the first one apart, are the shifted text. -/
theorem joinLines_cons_indentLine {text first : List Char} {rest : List (List Char)}
    (h : Text.pieces text = first :: rest) :
    Text.joinLines (first :: rest.map (indentLine indent)) = reindent indent text := by
  induction text generalizing first rest with
  | nil =>
    cases h
    rfl
  | cons c text ih =>
    obtain ⟨second, others, hpieces⟩ := List.exists_cons_of_ne_nil (Text.pieces_ne_nil text)
    by_cases hc : c = '\n'
    · subst hc
      rw [Text.pieces_newline, hpieces] at h
      cases h
      rw [reindent_newline, startsLine_eq hpieces, ← ih hpieces, ← joinLines_append_cons,
        ← indentLine_eq, List.map_cons]
      simp [Text.joinLines, List.intercalate_cons_cons]
    · rw [Text.pieces_cons hc, hpieces, List.modifyHead_cons] at h
      cases h
      rw [reindent_cons hc, ← ih hpieces]
      exact joinLines_append_cons [c] second _

/-- The blanks in front of the last line of blanks, and that line. -/
theorem take_append_lastPiece (blanks : List Char) :
    blanks.take (blanks.length - (lastPiece blanks).length) ++ lastPiece blanks = blanks := by
  have hsuffix : lastPiece blanks <:+ blanks := by
    rw [← List.reverse_prefix, lastPiece, List.reverse_reverse]
    exact List.takeWhile_prefix _
  obtain ⟨before, hbefore⟩ := hsuffix
  have htake : blanks.take (blanks.length - (lastPiece blanks).length) = before := by
    have hlength := congrArg List.length hbefore
    rw [List.length_append] at hlength
    rw [← hlength, Nat.add_sub_cancel]
    conv => lhs; rw [← hbefore]
    exact List.take_left
  rw [htake, hbefore]

/-- The characters of the last line of blanks are blanks, and none of them is a line feed. -/
theorem mem_lastPiece {blanks : List Char} {c : Char} (h : c ∈ lastPiece blanks) :
    c ∈ blanks ∧ c ≠ '\n' := by
  have hreverse := List.mem_reverse.mp h
  have hmem := (List.takeWhile_sublist _).subset hreverse
  have hc := List.all_eq_true.mp List.all_takeWhile c hreverse
  exact ⟨List.mem_reverse.mp hmem, by simpa using hc⟩

/-- A text that starts and ends with something is what is left when the blanks go. -/
theorem trim_newline {text : List Char} (hne : text ≠ [])
    (hhead : ∀ c ∈ text.head?, Text.isBlank c = false)
    (hlast : ∀ c ∈ text.getLast?, Text.isBlank c = false) :
    Text.trim (text ++ ['\n']) = text := by
  obtain ⟨c, tail, rfl⟩ := List.exists_cons_of_ne_nil hne
  have hstart : Text.trimStart (c :: tail ++ ['\n']) = c :: tail ++ ['\n'] := by
    rw [List.cons_append, Text.trimStart, List.dropWhile_cons, hhead c rfl]
    rfl
  obtain ⟨front, d, hfront⟩ := List.eq_nil_or_concat (c :: tail) |>.resolve_left hne
  have hd : Text.isBlank d = false := hlast d (by rw [hfront]; simp)
  have hnewline : Text.isBlank '\n' = true := by decide
  rw [Text.trim, hstart, Text.trimEnd, hfront]
  simp [hnewline, hd]

/-- What is put in the place of a text: the printed text behind its leading blanks and in front of
its trailing ones, with the lines shifted to the indentation of the first line. -/
theorem restore_eq {host text : List Char} (hhost : Text.isAllBlank host = false)
    (hne : text ≠ []) (hreturn : '\r' ∉ text)
    (hhead : ∀ c ∈ text.head?, Text.isBlank c = false)
    (hlast : ∀ c ∈ text.getLast?, Text.isBlank c = false) :
    restore host (text ++ ['\n']) =
      Text.leadingBlanks host ++
        (reindent (lastPiece (Text.leadingBlanks host)) text ++ Text.trailingBlanks host) := by
  have hend : text.getLast? ≠ some '\n' := by
    intro h
    exact absurd (hlast _ h) (by decide)
  obtain ⟨first, rest, hpieces⟩ := List.exists_cons_of_ne_nil (Text.pieces_ne_nil text)
  -- The first line is not empty, so that the margin stands in front of it, too.
  have hfirst : first.isEmpty = false := by
    have hstarts := startsLine_eq hpieces
    obtain ⟨c, tail, rfl⟩ := List.exists_cons_of_ne_nil hne
    have hc : c ≠ '\n' := by
      rintro rfl
      exact absurd (hhead _ rfl) (by decide)
    have htrue : startsLine (c :: tail) = true := by simpa [startsLine] using hc
    rw [htrue] at hstarts
    simpa using hstarts.symm
  have hbody : Text.joinLines ((Text.lines (Text.trim (text ++ ['\n']))).map
      (indentLine (lastPiece (Text.leadingBlanks host)))) =
        lastPiece (Text.leadingBlanks host) ++
          reindent (lastPiece (Text.leadingBlanks host)) text := by
    rw [trim_newline hne hhead hlast, Text.lines_eq_pieces hreturn hne hend, hpieces,
      List.map_cons, indentLine_eq, hfirst, Bool.not_false, if_pos rfl, joinLines_append_cons,
      joinLines_cons_indentLine hpieces]
  simp only [restore, hbody, hhost, Bool.false_eq_true, if_false]
  -- That margin is the last piece of the blanks in front, which are whole again with it.
  have hleading := take_append_lastPiece (Text.leadingBlanks host)
  rw [← List.append_assoc, hleading, List.append_assoc]

end Indentation

/-! ## Surroundings -/

/-- What stands around a printed text: the indentation that its lines are shifted to, and the
blanks behind it. -/
structure Surroundings where
  /-- The indentation. -/
  indent : List Char
  /-- The blanks behind the text. -/
  trailing : List Char
  indent_eq : ∀ c ∈ indent, c = ' ' ∨ c = '\t' ∨ c = '\r'
  isBlank_trailing : ∀ c ∈ trailing, Text.isBlank c = true

namespace Surroundings

/-- A text in its surroundings. -/
def place (s : Surroundings) (text : List Char) : List Char :=
  Indentation.reindent s.indent text ++ s.trailing

variable (s : Surroundings)

/-- What is placed behind a line end is indented, if it starts a line with text. -/
theorem place_newline (text : List Char) :
    s.place ('\n' :: text) =
      '\n' :: ((if Indentation.startsLine text then s.indent else []) ++ s.place text) := by
  simp [place]

/-- Text on one line is placed as it stands. -/
theorem place_append {text : List Char} (h : '\n' ∉ text) (rest : List Char) :
    s.place (text ++ rest) = text ++ s.place rest := by
  rw [place, Indentation.reindent_append h, List.append_assoc, place]

/-- A character inside a line is placed as it stands. -/
theorem place_cons {c : Char} (hc : c ≠ '\n') (text : List Char) :
    s.place (c :: text) = c :: s.place text := by
  rw [place, Indentation.reindent_cons hc, List.cons_append, place]

end Surroundings
end EmbeddedGraphQL
