import EmbeddedGraphQL.Document.Printer
import EmbeddedGraphQL.Proofs.Document.Surroundings

/-!
# Block texts in their surroundings

A text over several lines is printed between three quotes, each line behind an indentation. What is
read again is the text itself if the indentation is made of blanks and tabs only: they are common to
all lines and go. A carriage return in the indentation ends a line of its own, so that a text of
several lines comes back with more lines than it had.

* `Lexeme.untilQuotes?_escapeQuotes`: the closing quotes are not found within an escaped text.
* `Printer.blockInner`: what is printed between the quotes.
* `Lexeme.blockValue_blockInner`: the lines that are read again.
* `Lexeme.blockValue_blockInner_eq_iff`: when they are the lines of the text.
-/

namespace EmbeddedGraphQL

open Printer (escapeQuotes)

/-! ## Escaped quotes -/

namespace Lexeme

/-- Whether quotes at the start of a text are apart from those at the end of the text in front. -/
def QuotesApart (text rest : List Char) : Prop :=
  rest.head? = some '"' → ∀ c ∈ text.getLast?, c ≠ '"' ∧ c ≠ '\\'

/-- One character less leaves the quotes apart. -/
theorem QuotesApart.tail {c d : Char} {text rest : List Char}
    (h : QuotesApart (c :: d :: text) rest) : QuotesApart (d :: text) rest := by
  intro hrest
  have hlast := h hrest
  rwa [List.getLast?_cons_cons] at hlast

/-- A text without its first character keeps its quotes apart. -/
theorem QuotesApart.of_cons {c : Char} {text rest : List Char} (h : QuotesApart (c :: text) rest) :
    QuotesApart text rest := by
  cases text with
  | nil => simp [QuotesApart]
  | cons d text => exact h.tail

/-- A single character in front of a quote is neither a quote nor a backslash. -/
theorem QuotesApart.singleton {c : Char} {rest : List Char} (h : QuotesApart [c] ('"' :: rest)) :
    c ≠ '"' ∧ c ≠ '\\' := h rfl c rfl

/-- A quote at the start of an escaped text is a quote of the text, and no third one. -/
theorem eq_of_escapeQuotes_append {text rest tail : List Char}
    (h : escapeQuotes text ++ rest = '"' :: tail) :
    (text = [] ∧ rest = '"' :: tail) ∨
      ∃ text', text = '"' :: text' ∧ tail = escapeQuotes text' ++ rest ∧
        ∀ text'', text' ≠ '"' :: '"' :: text'' := by
  unfold escapeQuotes at h
  split at h
  · exact Or.inl ⟨rfl, h⟩
  · exact absurd (List.cons.inj h).1 (by decide)
  · rename_i c text' hthree
    obtain ⟨rfl, rfl⟩ := List.cons.inj h
    exact Or.inr ⟨text', rfl, rfl, fun text'' h => hthree text'' rfl h⟩

/-- A character of an escaped text neither starts closing quotes nor escapes them. -/
theorem escapeQuotes_append_ne {c : Char} {text rest : List Char}
    (hthree : ∀ text', c = '"' → text = '"' :: '"' :: text' → False)
    (hapart : QuotesApart (c :: text) rest) :
    (∀ tail, c = '"' → escapeQuotes text ++ rest = '"' :: '"' :: tail → False) ∧
      ∀ tail, c = '\\' → escapeQuotes text ++ rest = '"' :: '"' :: '"' :: tail → False := by
  constructor
  · rintro tail rfl h
    rcases eq_of_escapeQuotes_append h with ⟨rfl, rfl⟩ | ⟨text', rfl, h, -⟩
    · exact hapart.singleton.1 rfl
    · rcases eq_of_escapeQuotes_append h.symm with ⟨rfl, rfl⟩ | ⟨text'', rfl, -, -⟩
      · exact hapart.of_cons.singleton.1 rfl
      · exact hthree text'' rfl rfl
  · rintro tail rfl h
    rcases eq_of_escapeQuotes_append h with ⟨rfl, rfl⟩ | ⟨text', rfl, h, hno⟩
    · exact hapart.singleton.2 rfl
    · rcases eq_of_escapeQuotes_append h.symm with ⟨rfl, rfl⟩ | ⟨text'', rfl, h, -⟩
      · exact hapart.of_cons.singleton.1 rfl
      · rcases eq_of_escapeQuotes_append h.symm with ⟨rfl, rfl⟩ | ⟨third, rfl, -, -⟩
        · exact hapart.of_cons.of_cons.singleton.1 rfl
        · exact hno third rfl

/-- A character that starts neither the closing quotes nor an escape of quotes is passed over. -/
theorem untilQuotes?_cons {c : Char} {text : List Char}
    (hquotes : ∀ tail, c = '"' → text = '"' :: '"' :: tail → False)
    (hslash : ∀ tail, c = '\\' → text = '"' :: '"' :: '"' :: tail → False) :
    untilQuotes? (c :: text) =
      (untilQuotes? text).map fun (inner, rest) => (c :: inner, rest) := by
  rw [untilQuotes?]
  · exact hslash
  · exact hquotes

/-- A character that starts no escape of quotes stays. -/
theorem unescapeQuotes_cons {c : Char} {text : List Char}
    (hslash : ∀ tail, c = '\\' → text = '"' :: '"' :: '"' :: tail → False) :
    unescapeQuotes (c :: text) = c :: unescapeQuotes text := by
  rw [unescapeQuotes]
  exact hslash

/-- The closing quotes are not found within an escaped text. -/
theorem untilQuotes?_escapeQuotes {text rest : List Char} (h : QuotesApart text rest) :
    untilQuotes? (escapeQuotes text ++ rest) =
      (untilQuotes? rest).map fun (inner, after) => (escapeQuotes text ++ inner, after) := by
  fun_induction escapeQuotes text with
  | case1 => simp
  | case2 text ih =>
    simp only [List.cons_append]
    rw [untilQuotes?, ih h.of_cons.of_cons.of_cons, Option.map_map]
    rfl
  | case3 c text hthree ih =>
    obtain ⟨hquotes, hslash⟩ := escapeQuotes_append_ne (fun text' => hthree text') h
    rw [List.cons_append, untilQuotes?_cons hquotes hslash, ih h.of_cons, Option.map_map]
    rfl

/-- An escaped text is read as it was. -/
theorem unescapeQuotes_escapeQuotes {text rest : List Char} (h : QuotesApart text rest) :
    unescapeQuotes (escapeQuotes text ++ rest) = text ++ unescapeQuotes rest := by
  fun_induction escapeQuotes text with
  | case1 => rfl
  | case2 text ih =>
    simp only [List.cons_append]
    rw [unescapeQuotes, ih h.of_cons.of_cons.of_cons]
  | case3 c text hthree ih =>
    obtain ⟨-, hslash⟩ := escapeQuotes_append_ne (fun text' => hthree text') h
    rw [List.cons_append, unescapeQuotes_cons hslash, ih h.of_cons, List.cons_append]

end Lexeme

/-! ## What is printed between the quotes -/

namespace Layout

/-- The blanks behind a line feed in a layout. -/
def spaces : Layout → List Char
  | .oneLine => []
  | .lines level => List.replicate (2 * level) ' '

/-- Where a layout breaks, a gap is a line feed and the indentation. -/
theorem toList_gap {layout : Layout} (h : layout.breaks = true) :
    layout.gap.toList = '\n' :: layout.spaces := by
  cases layout with
  | oneLine => cases h
  | lines level => simp [gap, spaces]

/-- The indentation of a layout is made of spaces. -/
theorem mem_spaces {layout : Layout} {c : Char} (h : c ∈ layout.spaces) : c = ' ' := by
  cases layout with
  | oneLine => cases h
  | lines level => exact (List.mem_replicate.mp h).2

end Layout

namespace Printer

/-- A line of a block text behind its indentation, with the line feed in front. -/
def blockLine (indent piece : List Char) : List Char :=
  if piece.isEmpty then ['\n'] else '\n' :: (indent ++ escapeQuotes piece)

/-- What is printed between the quotes of a block text whose lines stand behind an indentation. -/
def blockInner (indent text : List Char) : List Char :=
  if needsLines text then (Text.pieces text).flatMap (blockLine indent) ++ '\n' :: indent
  else escapeQuotes text

/-- A block text is what stands between its quotes. -/
theorem toList_blockText {layout : Layout} (h : layout.breaks = true) (text : List Char) :
    (blockText layout text).toList =
      '"' :: '"' :: '"' :: (blockInner layout.spaces text ++ ['"', '"', '"']) := by
  have hline (piece : List Char) : (if piece.isEmpty then "\n"
      else layout.gap ++ String.ofList (escapeQuotes piece)).toList =
        blockLine layout.spaces piece := by
    unfold blockLine
    split
    · rfl
    · rw [String.toList_append, Layout.toList_gap h, String.toList_ofList, List.cons_append]
  unfold blockText blockInner
  split
  · simp only [String.toList_append, String.toList_join, List.flatMap_map, hline,
      Layout.toList_gap h]
    simp
  · simp

/-- Whether a text is printed as a block. -/
def isBlock (layout : Layout) (preferBlock : Bool) (s : String) : Bool :=
  layout.breaks && (preferBlock || s.toList.contains '\n') && fitsBlock s.toList

/-- Whether a text is printed as a block of several lines. -/
def spansLines (layout : Layout) (preferBlock : Bool) (s : String) : Bool :=
  isBlock layout preferBlock s && s.toList.contains '\n'

/-- A text is printed as a block if it is one in its layout, else between quotes. -/
theorem text_eq (layout : Layout) (preferBlock : Bool) (s : String) :
    text layout preferBlock s =
      if isBlock layout preferBlock s then blockText layout s.toList else quoted s := rfl

end Printer

open Printer (blockLine blockInner)

/-- Whether a text is made of blanks, tabs and carriage returns. -/
def IsMargin (margin : List Char) : Prop := ∀ c ∈ margin, c = ' ' ∨ c = '\t' ∨ c = '\r'

/-- A margin without its first character is a margin. -/
theorem IsMargin.of_cons {c : Char} {margin : List Char} (h : IsMargin (c :: margin)) :
    IsMargin margin := fun d hd => h d (List.mem_cons_of_mem c hd)

/-- A margin has neither quotes nor backslashes nor line feeds. -/
theorem IsMargin.head_ne {c : Char} {margin : List Char} (h : IsMargin (c :: margin)) :
    c ≠ '"' ∧ c ≠ '\\' ∧ c ≠ '\n' := by
  rcases h c List.mem_cons_self with rfl | rfl | rfl <;> decide

namespace Lexeme

variable {margin : List Char}

/-- A margin is passed over on the way to the closing quotes. -/
theorem untilQuotes?_margin (h : IsMargin margin) (rest : List Char) :
    untilQuotes? (margin ++ rest) =
      (untilQuotes? rest).map fun (inner, after) => (margin ++ inner, after) := by
  induction margin with
  | nil => simp
  | cons c margin ih =>
    obtain ⟨hquote, hslash, -⟩ := h.head_ne
    rw [List.cons_append, untilQuotes?_cons (fun _ hc => absurd hc hquote)
      (fun _ hc => absurd hc hslash), ih h.of_cons, Option.map_map]
    rfl

/-- A margin has no escapes. -/
theorem unescapeQuotes_margin (h : IsMargin margin) (rest : List Char) :
    unescapeQuotes (margin ++ rest) = margin ++ unescapeQuotes rest := by
  induction margin with
  | nil => rfl
  | cons c margin ih =>
    rw [List.cons_append, unescapeQuotes_cons (fun _ hc => absurd hc h.head_ne.2.1),
      ih h.of_cons, List.cons_append]

/-- A line feed is passed over on the way to the closing quotes. -/
theorem untilQuotes?_newline (rest : List Char) :
    untilQuotes? ('\n' :: rest) =
      (untilQuotes? rest).map fun (inner, after) => ('\n' :: inner, after) :=
  untilQuotes?_cons (fun _ hc => absurd hc (by decide)) fun _ hc => absurd hc (by decide)

/-- What starts with a line feed is apart from all quotes. -/
theorem quotesApart_newline (text rest : List Char) : QuotesApart text ('\n' :: rest) := by
  intro h
  exact absurd (Option.some.inj h) (by decide)

/-- The closing quotes are not found within the lines of a block text. -/
theorem untilQuotes?_blockLines (h : IsMargin margin) (lines : List (List Char))
    (rest : List Char) :
    untilQuotes? (lines.flatMap (blockLine margin) ++ '\n' :: rest) =
      (untilQuotes? ('\n' :: rest)).map fun (inner, after) =>
        (lines.flatMap (blockLine margin) ++ inner, after) := by
  induction lines with
  | nil => simp
  | cons line lines ih =>
    -- What follows a line starts with a line feed, be it the next line or the end.
    obtain ⟨tail, htail⟩ : ∃ tail, lines.flatMap (blockLine margin) ++ '\n' :: rest =
        '\n' :: tail := by
      cases lines with
      | nil => exact ⟨rest, rfl⟩
      | cons next lines =>
        rw [List.flatMap_cons, blockLine]
        split
        · exact ⟨_, rfl⟩
        · exact ⟨_, rfl⟩
    rw [List.flatMap_cons, List.append_assoc, blockLine]
    split
    · rw [List.singleton_append, untilQuotes?_newline, ih, Option.map_map]
      rfl
    · have hline : untilQuotes? (escapeQuotes line ++
          (lines.flatMap (blockLine margin) ++ '\n' :: rest)) =
            (untilQuotes? ('\n' :: rest)).map fun (inner, after) =>
              (escapeQuotes line ++ (lines.flatMap (blockLine margin) ++ inner), after) := by
        rw [untilQuotes?_escapeQuotes (htail ▸ quotesApart_newline _ _), ih, Option.map_map]
        rfl
      rw [List.cons_append, untilQuotes?_newline, List.append_assoc, untilQuotes?_margin h, hline,
        Option.map_map, Option.map_map]
      congr 1
      funext parts
      simp

/-- The closing quotes are found right behind what was printed. -/
theorem untilQuotes?_blockInner (h : IsMargin margin) (text rest : List Char) :
    untilQuotes? (blockInner margin text ++ '"' :: '"' :: '"' :: rest) =
      some (blockInner margin text, rest) := by
  have hclose : untilQuotes? ('"' :: '"' :: '"' :: rest) = some ([], rest) := rfl
  unfold blockInner
  split
  · rw [List.append_assoc, List.cons_append, untilQuotes?_blockLines h, untilQuotes?_newline,
      untilQuotes?_margin h, hclose]
    simp
  · -- A text on one line ends neither with a quote nor with a backslash, so that the closing quotes
    -- are seen as such.
    rename_i hlines
    obtain ⟨hquote, hslash⟩ : text.getLast? ≠ some '"' ∧ text.getLast? ≠ some '\\' := by
      simp only [Printer.needsLines, Bool.or_eq_true, beq_iff_eq, not_or] at hlines
      exact ⟨hlines.1.2, hlines.2⟩
    have hapart : QuotesApart text ('"' :: '"' :: '"' :: rest) := by
      intro _ c hc
      constructor
      · rintro rfl
        exact hquote hc
      · rintro rfl
        exact hslash hc
    rw [untilQuotes?_escapeQuotes hapart, hclose]
    simp

/-! ## What is read again -/

/-- A margin whose carriage returns count as line ends. -/
def plainMargin (margin : List Char) : List Char :=
  margin.map fun c => if c = '\r' then '\n' else c

/-- A character other than a carriage return stays. -/
theorem plainLineEnds_cons {c : Char} (hc : c ≠ '\r') (text : List Char) :
    plainLineEnds (c :: text) = c :: plainLineEnds text := by
  rw [plainLineEnds]
  · exact fun _ h => absurd h hc
  · exact fun h => absurd h hc

/-- A text without carriage returns stays, whatever follows. -/
theorem plainLineEnds_append {text : List Char} (h : '\r' ∉ text) (rest : List Char) :
    plainLineEnds (text ++ rest) = text ++ plainLineEnds rest := by
  induction text with
  | nil => rfl
  | cons c text ih =>
    obtain ⟨hc, htext⟩ := not_or.mp (fun hmem => h (List.mem_cons.mpr hmem))
    rw [List.cons_append, plainLineEnds_cons (Ne.symm hc), ih htext, List.cons_append]

/-- In a margin every carriage return ends a line, since no line feed follows it. -/
theorem plainLineEnds_margin (h : IsMargin margin) {rest : List Char}
    (hrest : rest.head? ≠ some '\n') :
    plainLineEnds (margin ++ rest) = plainMargin margin ++ plainLineEnds rest := by
  induction margin with
  | nil => rfl
  | cons c margin ih =>
    have hnext : ∀ tail, margin ++ rest ≠ '\n' :: tail := by
      intro tail htail
      cases margin with
      | nil => exact hrest (by rw [← List.nil_append rest, htail]; rfl)
      | cons d margin => exact h.of_cons.head_ne.2.2 (List.cons.inj htail).1
    rw [plainMargin, List.map_cons, List.cons_append, List.cons_append, ← plainMargin]
    split
    · rename_i hc
      subst hc
      rw [plainLineEnds, ih h.of_cons]
      exact fun tail htail => hnext tail htail
    · rename_i hc
      rw [plainLineEnds_cons hc, ih h.of_cons]

/-- The lines of a text, each with a line feed and a margin in front, an empty one without
margin. -/
def marginLines (margin : List Char) (lines : List (List Char)) : List Char :=
  lines.flatMap fun line => '\n' :: Indentation.indentLine margin line

/-- Escapes are resolved line by line, and margins stay. -/
theorem unescapeQuotes_blockLines (h : IsMargin margin) (lines : List (List Char))
    (rest : List Char) :
    unescapeQuotes (lines.flatMap (blockLine margin) ++ '\n' :: rest) =
      marginLines margin lines ++ unescapeQuotes ('\n' :: rest) := by
  have hnewline (text : List Char) :
      unescapeQuotes ('\n' :: text) = '\n' :: unescapeQuotes text :=
    unescapeQuotes_cons fun _ hc => absurd hc (by decide)
  induction lines with
  | nil => rfl
  | cons line lines ih =>
    -- Behind a line there is a line feed in any case: no quote of the line joins quotes of the
    -- next.
    obtain ⟨tail, htail⟩ : ∃ tail, lines.flatMap (blockLine margin) ++ '\n' :: rest =
        '\n' :: tail := by
      cases lines with
      | nil => exact ⟨rest, rfl⟩
      | cons next lines =>
        rw [List.flatMap_cons, blockLine]
        split
        · exact ⟨_, rfl⟩
        · exact ⟨_, rfl⟩
    have hapart := htail ▸ quotesApart_newline line tail
    rw [List.flatMap_cons, List.append_assoc, blockLine, marginLines, List.flatMap_cons,
      ← marginLines, Indentation.indentLine]
    split
    · rw [List.singleton_append, hnewline, ih]
      rfl
    · rw [List.cons_append, hnewline, List.append_assoc, unescapeQuotes_margin h,
        unescapeQuotes_escapeQuotes hapart, ih]
      simp

/-- Line ends inside a margin become line feeds, and lines stay. -/
theorem plainLineEnds_marginLines (h : IsMargin margin) {lines : List (List Char)}
    (hlines : ∀ line ∈ lines, '\r' ∉ line ∧ '\n' ∉ line) (rest : List Char) :
    plainLineEnds (marginLines margin lines ++ rest) =
      marginLines (plainMargin margin) lines ++ plainLineEnds rest := by
  induction lines with
  | nil => rfl
  | cons line lines ih =>
    obtain ⟨hline, hlines⟩ := List.forall_mem_cons.mp hlines
    have hrest := ih hlines
    simp only [marginLines, List.flatMap_cons, List.append_assoc, List.cons_append] at hrest ⊢
    rw [plainLineEnds_cons (by decide), Indentation.indentLine, Indentation.indentLine]
    cases line with
    | nil => exact congrArg _ hrest
    | cons c line =>
      -- A line with text does not start with a line feed, which would be one line end with a
      -- carriage return at the end of the margin.
      have hc : (c :: line ++ (lines.flatMap (fun line =>
          '\n' :: Indentation.indentLine margin line) ++ rest)).head? ≠ some '\n' := by
        intro hc
        cases hc
        exact hline.2 List.mem_cons_self
      simp only [List.isEmpty_cons, Bool.false_eq_true, if_false]
      rw [List.append_assoc, plainLineEnds_margin h hc, plainLineEnds_append hline.1, hrest,
        List.append_assoc]

/-- The pieces of lines behind line feeds are the pieces of the single lines. -/
theorem pieces_marginLines (margin start : List Char) (lines : List (List Char))
    (rest : List Char) :
    Text.pieces (start ++ (marginLines margin lines ++ '\n' :: rest)) =
      Text.pieces start ++ (lines.flatMap (fun line =>
        Text.pieces (Indentation.indentLine margin line)) ++ Text.pieces rest) := by
  induction lines generalizing start with
  | nil => exact List.splitOn_append_cons_self start rest
  | cons line lines ih =>
    have hsplit := List.splitOn_append_cons_self (a := '\n') start
      (Indentation.indentLine margin line ++ (marginLines margin lines ++ '\n' :: rest))
    have hrest := ih (Indentation.indentLine margin line)
    simp only [marginLines, List.flatMap_cons, List.append_assoc, List.cons_append] at *
    rw [Text.pieces, hsplit, ← Text.pieces, ← Text.pieces, hrest]

/-- A text behind joined lines goes on with the last of them. -/
theorem joinLines_concat_append (lines : List (List Char)) (last text : List Char) :
    Text.joinLines (lines ++ [last]) ++ text = Text.joinLines (lines ++ [last ++ text]) := by
  induction lines with
  | nil => simp [Text.joinLines]
  | cons line lines ih =>
    simp only [Text.joinLines, List.cons_append] at ih ⊢
    rw [List.intercalate_cons_of_ne_nil (by simp), List.intercalate_cons_of_ne_nil (by simp),
      ← ih]
    simp

/-- A text that goes on within a line makes the last piece longer. -/
theorem pieces_append {start text last : List Char} {pieces : List (List Char)}
    (hstart : Text.pieces start = pieces ++ [last]) (htext : '\n' ∉ text) :
    Text.pieces (start ++ text) = pieces ++ [last ++ text] := by
  have hmem : ∀ piece ∈ pieces ++ [last], '\n' ∉ piece := by
    intro piece hpiece hnewline
    exact (Text.mem_of_mem_pieces (hstart ▸ hpiece) hnewline).2 rfl
  have hjoin : start = Text.joinLines (pieces ++ [last]) := by
    rw [← hstart, Text.joinLines_pieces]
  rw [hjoin, joinLines_concat_append]
  refine Text.pieces_joinLines (fun piece hpiece => ?_) (by simp)
  rcases List.mem_append.mp hpiece with hpiece | hpiece
  · exact hmem piece (List.mem_append_left _ hpiece)
  · rw [List.mem_singleton.mp hpiece]
    exact fun h => (List.mem_append.mp h).elim (hmem last (by simp)) htext

/-! ## Common indentation and blank lines -/

/-- Blanks in front of a line do not count when it is asked whether the line is blank. -/
theorem isBlankLine_append {blank : List Char} (h : isBlankLine blank = true)
    (line : List Char) : isBlankLine (blank ++ line) = isBlankLine line := by
  rw [isBlankLine, List.all_append, ← isBlankLine, h, Bool.true_and, ← isBlankLine]

/-- What is left of a blank line is blank. -/
theorem isBlankLine_drop {blank : List Char} (h : isBlankLine blank = true) (n : Nat) :
    isBlankLine (blank.drop n) = true :=
  List.all_eq_true.mpr fun c hc => List.all_eq_true.mp h c (List.mem_of_mem_drop hc)

/-- A line that is not blank is not empty. -/
theorem isEmpty_of_isBlankLine {line : List Char} (h : isBlankLine line = false) :
    line.isEmpty = false := by
  cases line with
  | nil => exact absurd h (by decide)
  | cons c line => rfl

/-- The lines that a line becomes behind a margin: the line itself behind the last line of the
margin, and the others in front of it. -/
def spreadLine (extra : List (List Char)) (last line : List Char) : List (List Char) :=
  if line.isEmpty then [[]] else extra ++ [last ++ line]

/-- A line behind a margin that has line feeds falls into pieces, of which the line is in the last
one. -/
theorem pieces_indentLine {extra : List (List Char)} {last line : List Char}
    (hmargin : Text.pieces margin = extra ++ [last]) (hline : '\n' ∉ line) :
    Text.pieces (Indentation.indentLine margin line) = spreadLine extra last line := by
  unfold Indentation.indentLine spreadLine
  split
  · rfl
  · exact pieces_append hmargin hline

section Spread

variable {extra lines : List (List Char)} {last : List Char}

/-- The lines that are not blank stay the same lines behind a margin. -/
theorem filter_spreadLine (hextra : ∀ line ∈ extra, isBlankLine line = true)
    (hlast : isBlankLine last = true) (lines : List (List Char)) :
    ((lines.flatMap (spreadLine extra last)).filter (!isBlankLine ·)) =
      (lines.filter (!isBlankLine ·)).map (last ++ ·) := by
  induction lines with
  | nil => rfl
  | cons line lines ih =>
    rw [List.flatMap_cons, List.filter_append, ih, List.filter_cons]
    cases line with
    | nil => rfl
    | cons c line =>
      have hnone : extra.filter (!isBlankLine ·) = [] := by
        rw [List.filter_eq_nil_iff]
        intro blank hblank
        simp [hextra blank hblank]
      have hline := isBlankLine_append hlast (c :: line)
      rw [spreadLine, List.isEmpty_cons, if_neg Bool.false_ne_true, List.filter_append, hnone,
        List.nil_append, List.filter_cons, hline]
      cases isBlankLine (c :: line) <;> simp

/-- A margin adds to the indentation that is common to all lines. -/
theorem commonIndent_spreadLine (hextra : ∀ line ∈ extra, isBlankLine line = true)
    (hlast : isBlankLine last = true) (hcommon : commonIndent lines = some 0) :
    commonIndent (lines.flatMap (spreadLine extra last) ++ (extra ++ [last])) =
      some last.length := by
  -- Blank lines have no say in the common indentation.
  have hnone : (extra ++ [last]).filter (!isBlankLine ·) = [] := by
    rw [List.filter_eq_nil_iff]
    intro blank hblank
    rcases List.mem_append.mp hblank with hblank | hblank
    · simp [hextra blank hblank]
    · simp [List.mem_singleton.mp hblank, hlast]
  obtain ⟨hmem, -⟩ := List.min?_eq_some_iff.mp hcommon
  rw [commonIndent, List.filter_append, filter_spreadLine hextra hlast, hnone, List.append_nil,
    List.map_map, List.min?_eq_some_iff]
  have hlength (line : List Char) : ((last ++ line).takeWhile isIndent).length =
      last.length + (line.takeWhile isIndent).length := by
    rw [List.takeWhile_append_of_pos (List.all_eq_true.mp hlast), List.length_append]
  -- The line that was not indented is now indented by the margin, and no line by less.
  constructor
  · obtain ⟨line, hline, hzero⟩ := List.mem_map.mp hmem
    refine List.mem_map.mpr ⟨line, hline, ?_⟩
    rw [Function.comp_apply, hlength, hzero, Nat.add_zero]
  · intro n hn
    obtain ⟨line, -, rfl⟩ := List.mem_map.mp hn
    rw [Function.comp_apply, hlength]
    omega

/-- Without the common indentation the lines are back. -/
theorem map_drop_spreadLine (lines : List (List Char)) :
    (lines.flatMap (spreadLine extra last)).map (List.drop last.length) =
      lines.flatMap (spreadLine (extra.map (List.drop last.length)) []) := by
  rw [List.map_flatMap]
  congr 1
  funext line
  unfold spreadLine
  split
  · simp
  · simp

end Spread

/-- Blank lines at both ends go, and nothing else. -/
theorem trim_blankLines {before lines after : List (List Char)}
    (hbefore : ∀ line ∈ before, isBlankLine line = true)
    (hafter : ∀ line ∈ after, isBlankLine line = true) (hne : lines ≠ [])
    (hhead : ∀ line ∈ lines.head?, isBlankLine line = false)
    (hlast : ∀ line ∈ lines.getLast?, isBlankLine line = false) :
    (((before ++ (lines ++ after)).dropWhile isBlankLine).reverse.dropWhile isBlankLine).reverse =
      lines := by
  have hstart : (before ++ (lines ++ after)).dropWhile isBlankLine = lines ++ after := by
    obtain ⟨line, rest, rfl⟩ := List.exists_cons_of_ne_nil hne
    rw [List.dropWhile_append_of_pos hbefore, List.cons_append, List.dropWhile_cons,
      hhead line rfl, if_neg Bool.false_ne_true]
  have hend : (after.reverse ++ lines.reverse).dropWhile isBlankLine = lines.reverse := by
    obtain ⟨front, line, hfront⟩ := (List.eq_nil_or_concat lines).resolve_left hne
    have hline : isBlankLine line = false := hlast line (by rw [hfront]; simp)
    rw [List.dropWhile_append_of_pos (by simpa using hafter), hfront,
      List.concat_eq_append, List.reverse_concat, List.dropWhile_cons, hline,
      if_neg Bool.false_ne_true]
  rw [hstart, List.reverse_append, hend, List.reverse_reverse]

/-- The pieces of a margin are blank. -/
theorem isBlankLine_of_mem_pieces (h : IsMargin margin) :
    ∀ line ∈ Text.pieces (plainMargin margin), isBlankLine line = true := by
  intro line hline
  refine List.all_eq_true.mpr fun c hc => ?_
  obtain ⟨hmem, hnewline⟩ := Text.mem_of_mem_pieces hline hc
  obtain ⟨d, hd, rfl⟩ := List.mem_map.mp hmem
  rcases h d hd with rfl | rfl | rfl
  · rfl
  · rfl
  · exact absurd rfl hnewline

/-- What is known of a text that can be a block text. -/
structure FitsBlock (text : List Char) : Prop where
  noReturn : '\r' ∉ text
  head : ∀ line ∈ (Text.pieces text).head?, isBlankLine line = false
  last : ∀ line ∈ (Text.pieces text).getLast?, isBlankLine line = false
  commonIndent_eq : commonIndent (Text.pieces text) = some 0

/-- What is tested before a text is printed as a block. -/
theorem fitsBlock_of_eq_true {text : List Char} (h : Printer.fitsBlock text = true) :
    FitsBlock text := by
  simp only [Printer.fitsBlock, Bool.and_eq_true, Bool.not_eq_true', beq_iff_eq] at h
  obtain ⟨⟨⟨hreturn, hhead⟩, hlast⟩, hcommon⟩ := h
  refine ⟨by simpa using hreturn, fun line hline => ?_, fun line hline => ?_, hcommon⟩
  · rw [Option.mem_def.mp hline] at hhead
    exact hhead
  · rw [Option.mem_def.mp hline] at hlast
    exact hlast

/-- A margin has several pieces exactly if it has a carriage return. -/
theorem pieces_plainMargin_eq_singleton_iff (h : IsMargin margin) {last : List Char} :
    Text.pieces (plainMargin margin) = [last] ↔ '\r' ∉ margin ∧ plainMargin margin = last := by
  constructor
  · intro hpieces
    have hjoin : plainMargin margin = last := by
      rw [← Text.joinLines_pieces (plainMargin margin), hpieces]
      simp [Text.joinLines]
    refine ⟨fun hreturn => ?_, hjoin⟩
    have hnewline : '\n' ∈ plainMargin margin := List.mem_map.mpr ⟨'\r', hreturn, rfl⟩
    have hlast : last ∈ Text.pieces (plainMargin margin) := hpieces ▸ List.mem_cons_self
    exact (Text.mem_of_mem_pieces hlast (hjoin ▸ hnewline)).2 rfl
  · rintro ⟨hreturn, rfl⟩
    refine List.splitOn_eq_singleton fun hnewline => ?_
    obtain ⟨c, hc, heq⟩ := List.mem_map.mp hnewline
    split at heq
    · rename_i hcr
      exact hreturn (hcr ▸ hc)
    · rcases h c hc with rfl | rfl | rfl <;> exact absurd heq (by decide)

/-- The pieces of what is printed between the quotes, with all escapes resolved. -/
theorem pieces_blockInner {text last : List Char} {extra : List (List Char)}
    (hmargin : IsMargin margin) (hfits : FitsBlock text)
    (hlines : Printer.needsLines text = true)
    (hextra : Text.pieces (plainMargin margin) = extra ++ [last]) :
    Text.pieces (plainLineEnds (unescapeQuotes (blockInner margin text))) =
      [] :: ((Text.pieces text).flatMap (spreadLine extra last) ++ (extra ++ [last])) := by
  have hplain : ∀ line ∈ Text.pieces text, '\r' ∉ line ∧ '\n' ∉ line := by
    intro line hline
    exact ⟨fun h => hfits.noReturn (Text.mem_of_mem_pieces hline h).1,
      fun h => (Text.mem_of_mem_pieces hline h).2 rfl⟩
  have hend : unescapeQuotes ('\n' :: margin) = '\n' :: margin := by
    have h := unescapeQuotes_margin hmargin []
    rw [List.append_nil, unescapeQuotes, List.append_nil] at h
    rw [unescapeQuotes_cons fun _ hc => absurd hc (by decide), h]
  have hreturn : plainLineEnds ('\n' :: margin) = '\n' :: plainMargin margin := by
    have h := @plainLineEnds_margin margin hmargin [] (by simp)
    rw [List.append_nil, plainLineEnds, List.append_nil] at h
    rw [plainLineEnds_cons (by decide), h]
  -- The lines are cut at the line feeds in front of them, and the margins at those within.
  have hpieces := pieces_marginLines (plainMargin margin) [] (Text.pieces text)
    (plainMargin margin)
  rw [List.nil_append, Text.pieces_nil, hextra] at hpieces
  rw [blockInner, if_pos hlines, unescapeQuotes_blockLines hmargin, hend,
    plainLineEnds_marginLines hmargin hplain, hreturn, hpieces, List.singleton_append]
  congr 2
  rw [List.flatMap_def, List.flatMap_def]
  congr 1
  refine List.map_congr_left fun line hline => ?_
  exact pieces_indentLine hextra (hplain line hline).2

/-- The last line is still the last one when the lines bring others along. -/
theorem getLast?_spreadLine (extra : List (List Char)) {rest : List (List Char)}
    {first : List Char} (hfirst : isBlankLine first = false)
    (hlast : ∀ line ∈ (first :: rest).getLast?, isBlankLine line = false) :
    ∀ line ∈ (first :: rest.flatMap (spreadLine extra [])).getLast?, isBlankLine line = false := by
  rcases List.eq_nil_or_concat rest with rfl | ⟨front, line, rfl⟩
  · simpa using hfirst
  · rw [List.concat_eq_append] at hlast ⊢
    have hline : isBlankLine line = false := by
      refine hlast line ?_
      rw [← List.cons_append, List.getLast?_concat]
      rfl
    have hspread : first :: (front ++ [line]).flatMap (spreadLine extra []) =
        (first :: (front.flatMap (spreadLine extra []) ++ extra)) ++ [line] := by
      simp [spreadLine, isEmpty_of_isBlankLine hline]
    rw [hspread, List.getLast?_concat]
    intro last hmem
    cases hmem
    exact hline

/-- The lines of a margin in front of its last one: blank lines, and none exactly if the margin has
no carriage return. -/
theorem exists_pieces_plainMargin (h : IsMargin margin) :
    ∃ extra last, Text.pieces (plainMargin margin) = extra ++ [last] ∧
      (∀ line ∈ extra, isBlankLine line = true) ∧ isBlankLine last = true ∧
      (extra = [] ↔ '\r' ∉ margin) := by
  obtain ⟨extra, last, hpieces⟩ := (List.eq_nil_or_concat (Text.pieces (plainMargin margin)))
    |>.resolve_left (Text.pieces_ne_nil _)
  rw [List.concat_eq_append] at hpieces
  have hblank := isBlankLine_of_mem_pieces h
  rw [hpieces] at hblank
  refine ⟨extra, last, hpieces, fun line hline => hblank line (List.mem_append_left _ hline),
    hblank last (by simp), ?_, fun hreturn => ?_⟩
  · rintro rfl
    exact ((pieces_plainMargin_eq_singleton_iff h).mp hpieces).1
  · have hsingle := (pieces_plainMargin_eq_singleton_iff h).mpr ⟨hreturn, rfl⟩
    have hlength := congrArg List.length (hpieces.symm.trans hsingle)
    rw [List.length_append, List.length_singleton, List.length_singleton] at hlength
    exact List.eq_nil_of_length_eq_zero (by omega)

/-- The blank lines around the lines of a text are dropped when it is read, those in between are
not: the first line leaves what it brings along in front of the text. -/
theorem trim_spreadLine {extra rest : List (List Char)} {first : List Char}
    (hextra : ∀ line ∈ extra, isBlankLine line = true) (hfirst : isBlankLine first = false)
    (hlast : ∀ line ∈ (first :: rest).getLast?, isBlankLine line = false) :
    ((([] :: ((first :: rest).flatMap (spreadLine extra []) ++ (extra ++ [[]]))).dropWhile
      isBlankLine).reverse.dropWhile isBlankLine).reverse =
        first :: rest.flatMap (spreadLine extra []) := by
  have hkept : [] :: ((first :: rest).flatMap (spreadLine extra []) ++ (extra ++ [[]])) =
      ([] :: extra) ++ ((first :: rest.flatMap (spreadLine extra [])) ++ (extra ++ [[]])) := by
    rw [List.flatMap_cons, spreadLine, isEmpty_of_isBlankLine hfirst, if_neg Bool.false_ne_true]
    simp
  have hbefore : ∀ line ∈ [] :: extra, isBlankLine line = true :=
    List.forall_mem_cons.mpr ⟨rfl, hextra⟩
  have hafter : ∀ line ∈ extra ++ [[]], isBlankLine line = true := by
    intro line hline
    rcases List.mem_append.mp hline with hline | hline
    · exact hextra line hline
    · rw [List.mem_singleton.mp hline]
      rfl
  rw [hkept]
  exact trim_blankLines hbefore hafter (List.cons_ne_nil _ _) (by simpa using hfirst)
    (getLast?_spreadLine extra hfirst hlast)

/-- The lines that are read again: every line but the first one brings the lines of its margin
along. -/
theorem blockValue_blockInner {text first : List Char} {rest : List (List Char)}
    (hmargin : IsMargin margin) (hfits : FitsBlock text)
    (hlines : Printer.needsLines text = true) (hpieces : Text.pieces text = first :: rest) :
    ∃ extra : List (List Char), (extra = [] ↔ '\r' ∉ margin) ∧
      (∀ line ∈ extra, isBlankLine line = true) ∧
      blockValue (blockInner margin text) =
        Text.joinLines (first :: rest.flatMap (spreadLine extra [])) := by
  obtain ⟨extra, last, hextra, hblanks, hlast, hreturn⟩ := exists_pieces_plainMargin hmargin
  -- The last line of the margin is common to all lines, so that its length is dropped from them.
  have hshift : ∀ line ∈ extra.map (List.drop last.length), isBlankLine line = true := by
    intro line hline
    obtain ⟨blank, hblank, rfl⟩ := List.mem_map.mp hline
    exact isBlankLine_drop (hblanks blank hblank) _
  refine ⟨extra.map (List.drop last.length), List.map_eq_nil_iff.trans hreturn, hshift, ?_⟩
  have hfirst : isBlankLine first = false := hfits.head first (by rw [hpieces]; rfl)
  have hend : ∀ line ∈ (first :: rest).getLast?, isBlankLine line = false :=
    fun line hline => hfits.last line (by rw [hpieces]; exact hline)
  unfold blockValue
  simp only [pieces_blockInner hmargin hfits hlines hextra,
    commonIndent_spreadLine hblanks hlast hfits.commonIndent_eq, Option.getD_some,
    List.map_append, map_drop_spreadLine, List.map_cons, List.map_nil, List.drop_length]
  rw [hpieces, trim_spreadLine hshift hfirst hend]

/-- Lines spread over a margin are not fewer than before. -/
theorem length_le_length_spreadLine (extra rest : List (List Char)) :
    rest.length ≤ (rest.flatMap (spreadLine extra [])).length := by
  induction rest with
  | nil => simp
  | cons line rest ih =>
    have hpos : 0 < (spreadLine extra [] line).length := by
      unfold spreadLine
      split <;> simp
    rw [List.flatMap_cons, List.length_append, List.length_cons]
    omega

/-- Several lines that bring others along are no longer the same lines. -/
theorem spreadLine_ne {extra front : List (List Char)} {line : List Char} (hextra : extra ≠ [])
    (hline : line.isEmpty = false) :
    (front ++ [line]).flatMap (spreadLine extra []) ≠ front ++ [line] := by
  intro h
  have hlength := congrArg List.length h
  have hfront := length_le_length_spreadLine extra front
  have hpos := List.length_pos_iff.mpr hextra
  simp only [List.flatMap_append, List.flatMap_cons, List.flatMap_nil, List.append_nil,
    List.length_append, spreadLine, hline, Bool.false_eq_true, if_false, List.length_cons,
    List.length_nil] at hlength
  omega

/-- A margin without line feeds spreads no line. -/
theorem flatMap_spreadLine_nil (lines : List (List Char)) :
    lines.flatMap (spreadLine [] []) = lines := by
  induction lines with
  | nil => rfl
  | cons line lines ih =>
    rw [List.flatMap_cons, ih]
    cases line <;> rfl

/-- What lines bring along has no line feed within. -/
theorem newline_not_mem_spreadLine {extra rest : List (List Char)} {first : List Char}
    (hextra : ∀ line ∈ extra, isBlankLine line = true)
    (hlines : ∀ line ∈ first :: rest, '\n' ∉ line) :
    ∀ line ∈ first :: rest.flatMap (spreadLine extra []), '\n' ∉ line := by
  obtain ⟨hfirst, hrest⟩ := List.forall_mem_cons.mp hlines
  refine List.forall_mem_cons.mpr ⟨hfirst, fun line hline hnewline => ?_⟩
  obtain ⟨source, hsource, hline⟩ := List.mem_flatMap.mp hline
  unfold spreadLine at hline
  split at hline
  · rw [List.mem_singleton.mp hline] at hnewline
    cases hnewline
  · rcases List.mem_append.mp hline with hline | hline
    · have hindent := List.all_eq_true.mp (hextra line hline) _ hnewline
      exact absurd hindent (by decide)
    · rw [List.mem_singleton.mp hline] at hnewline
      exact hrest source hsource hnewline

/-- A text on one line is read as it was. -/
theorem blockValue_escapeQuotes {text : List Char} (hfits : FitsBlock text)
    (hline : '\n' ∉ text) : blockValue (escapeQuotes text) = text := by
  have hpieces : Text.pieces text = [text] := List.splitOn_eq_singleton hline
  have hunescape : unescapeQuotes (escapeQuotes text) = text := by
    have hapart : QuotesApart text [] := by simp [QuotesApart]
    have h := unescapeQuotes_escapeQuotes hapart
    rwa [List.append_nil, unescapeQuotes, List.append_nil] at h
  have hreturn : plainLineEnds text = text := by
    have h := plainLineEnds_append hfits.noReturn []
    rwa [List.append_nil, plainLineEnds, List.append_nil] at h
  have hblank : isBlankLine text = false := hfits.head text (by rw [hpieces]; rfl)
  have hkept := @trim_blankLines [] [text] [] (by simp) (by simp) (by simp)
    (by simpa using hblank) (by simpa using hblank)
  rw [List.nil_append, List.append_nil] at hkept
  unfold blockValue
  simp only [hunescape, hreturn, hpieces, List.map_nil, hkept]
  simp [Text.joinLines]

/-- The lines stay the same exactly if they bring nothing along or only the first one is there,
which brings nothing along. -/
theorem joinLines_spreadLine_eq_iff {extra rest : List (List Char)} {first : List Char}
    (hextra : ∀ line ∈ extra, isBlankLine line = true)
    (hplain : ∀ line ∈ first :: rest, '\n' ∉ line)
    (hlast : ∀ line ∈ (first :: rest).getLast?, isBlankLine line = false) :
    Text.joinLines (first :: rest.flatMap (spreadLine extra [])) = Text.joinLines (first :: rest) ↔
      extra = [] ∨ rest = [] := by
  constructor
  · intro h
    rcases List.eq_nil_or_concat rest with rfl | ⟨front, line, rfl⟩
    · exact Or.inr rfl
    · -- If the lines brought others along, there would be more of them.
      rw [List.concat_eq_append] at h hplain hlast
      refine Or.inl (Decidable.byContradiction fun hne => ?_)
      have hline : isBlankLine line = false := by
        refine hlast line ?_
        rw [← List.cons_append, List.getLast?_concat]
        rfl
      have hsame := Text.pieces_joinLines (newline_not_mem_spreadLine hextra hplain)
        (List.cons_ne_nil _ _)
      rw [h, Text.pieces_joinLines hplain (List.cons_ne_nil _ _)] at hsame
      exact spreadLine_ne hne (isEmpty_of_isBlankLine hline) (List.cons.inj hsame).2.symm
  · rintro (rfl | rfl)
    · rw [flatMap_spreadLine_nil]
    · rfl

/-- A text has a single line exactly if it has no line feed. -/
theorem rest_eq_nil_iff {text first : List Char} {rest : List (List Char)}
    (hpieces : Text.pieces text = first :: rest) : rest = [] ↔ '\n' ∉ text := by
  constructor
  · rintro rfl hnewline
    have hfirst : first ∈ Text.pieces text := hpieces ▸ List.mem_cons_self
    have heq : text = first := by
      rw [← Text.joinLines_pieces text, hpieces]
      simp [Text.joinLines]
    exact (Text.mem_of_mem_pieces hfirst (heq ▸ hnewline)).2 rfl
  · intro hline
    exact (List.cons.inj (hpieces.symm.trans (List.splitOn_eq_singleton hline))).2

/-- A text that is printed as a block is read as it was exactly if it is a single line or the margin
has no carriage return. -/
theorem blockValue_blockInner_eq_iff {text : List Char} (hmargin : IsMargin margin)
    (hfits : FitsBlock text) :
    blockValue (blockInner margin text) = text ↔ '\r' ∉ margin ∨ '\n' ∉ text := by
  by_cases hlines : Printer.needsLines text = true
  · obtain ⟨first, rest, hpieces⟩ := List.exists_cons_of_ne_nil (Text.pieces_ne_nil text)
    obtain ⟨extra, hextra, hblank, hvalue⟩ :=
      blockValue_blockInner hmargin hfits hlines hpieces
    have hjoin : text = Text.joinLines (first :: rest) := by
      rw [← hpieces, Text.joinLines_pieces]
    have hplain : ∀ line ∈ first :: rest, '\n' ∉ line :=
      fun line hline h => (Text.mem_of_mem_pieces (hpieces ▸ hline) h).2 rfl
    have hlast : ∀ line ∈ (first :: rest).getLast?, isBlankLine line = false :=
      fun line hline => hfits.last line (by rw [hpieces]; exact hline)
    rw [hvalue, ← hextra, ← rest_eq_nil_iff hpieces, ← joinLines_spreadLine_eq_iff hblank hplain
      hlast, ← hjoin]
  · have hline : '\n' ∉ text := by
      simp only [Printer.needsLines, Bool.or_eq_true, not_or] at hlines
      simpa using hlines.1.1.1
    rw [blockInner, if_neg hlines, blockValue_escapeQuotes hfits hline]
    simp [hline]

end Lexeme
end EmbeddedGraphQL
