import EmbeddedGraphQL.Proofs.Document.Printed
import EmbeddedGraphQL.Proofs.Document.Reprinting
import EmbeddedGraphQL.Proofs.Region.Gaps

/-!
# Tokens without line feeds

Where no token of a text holds a line feed, the lines of the text can be shifted without changing
its tokens: an indentation is only put in behind a line feed, and there it stands between tokens. If
this is so for a printed document, none of its texts is printed over several lines.

* `Token.Unbroken`: no token of a text holds a line feed.
* `Lexeme.first?_reindent`: what is found in a shifted text.
* `Glyph.scan?_reindent`: the glyphs of a shifted text.
* `Document.spansLines_of_unbroken`: a document that is printed without line feeds in its tokens.
-/

namespace EmbeddedGraphQL

/-! ## Shifted texts -/

namespace Indentation

variable {indent : List Char}

/-- A shifted text starts with the same characters up to its first line feed. -/
theorem exists_of_reindent_eq_cons {c : Char} {text tail : List Char} (hc : c ≠ '\n')
    (h : reindent indent text = c :: tail) :
    ∃ rest, text = c :: rest ∧ reindent indent rest = tail := by
  cases text with
  | nil => cases h
  | cons d text =>
    have hd : d = c := by
      have hhead := @head?_reindent indent (d :: text)
      rw [h] at hhead
      exact (Option.some.inj hhead).symm
    subst hd
    rw [reindent_cons hc] at h
    exact ⟨text, rfl, (List.cons.inj h).2⟩

/-- Indentation keeps the first character in its place. -/
theorem exists_reindent_cons (indent : List Char) (c : Char) (text : List Char) :
    ∃ tail, reindent indent (c :: text) = c :: tail := by
  rw [reindent]
  split
  · exact ⟨_, rfl⟩
  · exact ⟨_, rfl⟩

section Runs

variable {p : Char → Bool}

/-- A run of characters that ends before a line feed is not shifted. -/
theorem takeWhile_reindent (hp : p '\n' = false) (text : List Char) :
    (reindent indent text).takeWhile p = text.takeWhile p := by
  induction text with
  | nil => rfl
  | cons c text ih =>
    by_cases hc : c = '\n'
    · subst hc
      rw [reindent_newline, List.takeWhile_cons, List.takeWhile_cons, hp]
      rfl
    · rw [reindent_cons hc, List.takeWhile_cons, List.takeWhile_cons, ih]

/-- What follows such a run is. -/
theorem dropWhile_reindent (hp : p '\n' = false) (text : List Char) :
    (reindent indent text).dropWhile p = reindent indent (text.dropWhile p) := by
  induction text with
  | nil => rfl
  | cons c text ih =>
    by_cases hc : c = '\n'
    · subst hc
      rw [reindent_newline, List.dropWhile_cons, List.dropWhile_cons, hp]
      rfl
    · rw [reindent_cons hc, List.dropWhile_cons, List.dropWhile_cons, ih]
      split
      · rfl
      · rw [reindent_cons hc]

end Runs

end Indentation

namespace Lexeme

open Indentation

variable {indent : List Char}

/-! ## What is found in a shifted text -/

/-- A minus is read the same in indented text. -/
theorem minusSign_reindent (text : List Char) :
    minusSign (reindent indent text) =
      ((minusSign text).1, reindent indent (minusSign text).2) := by
  cases text with
  | nil => rfl
  | cons c text =>
    by_cases hc : c = '-'
    · subst hc
      rw [reindent_cons (by decide)]
      rfl
    · have hnone : ∀ tail, minusSign (c :: tail) = ([], c :: tail) := by
        intro tail
        rw [minusSign]
        exact fun _ h => hc (List.cons.inj h).1
      obtain ⟨tail, htail⟩ := exists_reindent_cons indent c text
      rw [hnone, htail, hnone, ← htail]

/-- A sign is read the same in indented text. -/
theorem sign_reindent (text : List Char) :
    sign (reindent indent text) = ((sign text).1, reindent indent (sign text).2) := by
  cases text with
  | nil => rfl
  | cons c text =>
    by_cases hplus : c = '+'
    · subst hplus
      rw [reindent_cons (by decide)]
      rfl
    · by_cases hminus : c = '-'
      · subst hminus
        rw [reindent_cons (by decide)]
        rfl
      · -- Without a sign nothing is taken, and the first character is not shifted.
        have hnone : ∀ tail, sign (c :: tail) = ([], c :: tail) := by
          intro tail
          rw [sign]
          · exact fun _ h => hplus (List.cons.inj h).1
          · exact fun _ h => hminus (List.cons.inj h).1
        obtain ⟨tail, htail⟩ := exists_reindent_cons indent c text
        rw [hnone, htail, hnone, ← htail]

/-- A fraction is read the same in indented text. -/
theorem fraction?_reindent (text : List Char) :
    fraction? (reindent indent text) =
      (fraction? text).map fun (fraction, rest) => (fraction, reindent indent rest) := by
  cases text with
  | nil => rfl
  | cons c text =>
    by_cases hc : c = '.'
    · subst hc
      rw [reindent_cons (by decide), fraction?, fraction?, takeWhile_reindent (by decide),
        dropWhile_reindent (by decide)]
      split <;> rfl
    · have hnone : ∀ tail, fraction? (c :: tail) = some ([], c :: tail) := by
        intro tail
        rw [fraction?]
        exact fun _ h => hc (List.cons.inj h).1
      obtain ⟨tail, htail⟩ := exists_reindent_cons indent c text
      rw [hnone, htail, hnone, ← htail]
      rfl

/-- An exponent is read the same in indented text. -/
theorem exponent?_reindent (text : List Char) :
    exponent? (reindent indent text) =
      (exponent? text).map fun (exponent, rest) => (exponent, reindent indent rest) := by
  cases text with
  | nil => rfl
  | cons c text =>
    by_cases hc : (c = 'e' || c = 'E') = true
    · have hline : c ≠ '\n' := by
        rintro rfl
        exact absurd hc (by decide)
      simp only [reindent_cons hline, exponent?, if_pos hc, sign_reindent,
        takeWhile_reindent (p := Char.isDigit) (by decide),
        dropWhile_reindent (p := Char.isDigit) (by decide)]
      split <;> rfl
    · obtain ⟨tail, htail⟩ := exists_reindent_cons indent c text
      rw [htail, exponent?, if_neg hc, exponent?, if_neg hc, ← htail]
      rfl

/-- Whether a number goes on is the same in indented text. -/
theorem continuesNumber_reindent (isFloat : Bool) (text : List Char) :
    continuesNumber isFloat (reindent indent text) = continuesNumber isFloat text := by
  cases text with
  | nil => rfl
  | cons c text =>
    obtain ⟨tail, htail⟩ := exists_reindent_cons indent c text
    rw [htail]
    rfl

/-- A number holds no line feed, so that it is found in a shifted text. -/
theorem number?_reindent (text : List Char) :
    number? (reindent indent text) =
      (number? text).map fun found => { found with rest := reindent indent found.rest } := by
  simp only [number?_eq, minusSign_reindent, takeWhile_reindent (p := Char.isDigit) (by decide),
    dropWhile_reindent (p := Char.isDigit) (by decide), fraction?_reindent]
  split
  · rfl
  · cases fraction? ((minusSign text).2.dropWhile Char.isDigit) with
    | none => rfl
    | some fraction =>
      simp only [Option.map_some, Option.bind_some, exponent?_reindent]
      cases exponent? fraction.2 with
      | none => rfl
      | some exponent =>
        simp only [Option.map_some, Option.bind_some, continuesNumber_reindent]
        split <;> rfl

/-- The closing quote is found in a shifted text: there is no line end in front of it. -/
theorem untilQuote?_reindent {text inner rest : List Char}
    (h : untilQuote? text = some (inner, rest)) :
    untilQuote? (reindent indent text) = some (inner, reindent indent rest) := by
  -- Where the search goes on, the character is no line feed, since a text in quotes does not go
  -- over a line end.
  fun_induction untilQuote? text generalizing inner with
  | case1 => cases h
  | case2 =>
    cases h
    rw [reindent_cons (by decide), untilQuote?]
  | case3 => cases h
  | case4 c text hc ih =>
    obtain ⟨⟨inner', rest'⟩, hinner, h⟩ := Option.map_eq_some_iff.mp h
    cases h
    have hline : c ≠ '\n' := by
      rintro rfl
      exact hc rfl
    rw [reindent_cons (by decide), reindent_cons hline, untilQuote?, if_neg hc, ih hinner]
    rfl
  | case5 => cases h
  | case6 c text hquote hslash hc ih =>
    obtain ⟨⟨inner', rest'⟩, hinner, h⟩ := Option.map_eq_some_iff.mp h
    cases h
    have hline : c ≠ '\n' := by
      rintro rfl
      exact hc rfl
    rw [reindent_cons hline, untilQuote?, if_neg hc, ih hinner]
    · rfl
    · exact hquote
    · -- A backslash at the end of the text is followed by nothing in the shifted text, too.
      intro d tail hd htail
      cases text with
      | nil => cases htail
      | cons e text => exact hslash e text hd rfl

/-- A shifted text does not start with two of a character if the text does not. -/
theorem reindent_ne_twice {c : Char} (hc : c ≠ '\n') {text : List Char}
    (h : ∀ rest, text = c :: c :: rest → False) (tail : List Char) :
    reindent indent text ≠ c :: c :: tail := by
  intro htail
  obtain ⟨second, rfl, hsecond⟩ := exists_of_reindent_eq_cons hc htail
  obtain ⟨third, rfl, -⟩ := exists_of_reindent_eq_cons hc hsecond
  exact h third rfl

/-- The closing quotes of a block text without line feeds are found in a shifted text. -/
theorem untilQuotes?_reindent {text inner rest : List Char}
    (h : untilQuotes? text = some (inner, rest)) (hline : '\n' ∉ inner) :
    untilQuotes? (reindent indent text) = some (inner, reindent indent rest) := by
  fun_induction untilQuotes? text generalizing inner with
  | case1 => cases h
  | case2 text ih =>
    obtain ⟨⟨inner', rest'⟩, hinner, h⟩ := Option.map_eq_some_iff.mp h
    cases h
    have hinner' : '\n' ∉ inner' := fun hmem => hline (by simp [hmem])
    simp only [reindent_cons (show '\\' ≠ '\n' by decide),
      reindent_cons (show '"' ≠ '\n' by decide), untilQuotes?, ih hinner hinner', Option.map_some]
  | case3 =>
    cases h
    simp only [reindent_cons (show '"' ≠ '\n' by decide), untilQuotes?]
  | case4 c text hslash hquotes ih =>
    obtain ⟨⟨inner', rest'⟩, hinner, h⟩ := Option.map_eq_some_iff.mp h
    cases h
    obtain ⟨hc, hinner'⟩ := not_or.mp fun hmem => hline (List.mem_cons.mpr hmem)
    rw [reindent_cons (Ne.symm hc), untilQuotes?_cons, ih hinner hinner']
    · rfl
    · exact fun tail hd => reindent_ne_twice (by decide) (fun rest => hquotes rest hd) tail
    · -- Nor do escaped quotes come up that were not there.
      intro tail hd htail
      obtain ⟨second, rfl, hsecond⟩ := exists_of_reindent_eq_cons (by decide) htail
      exact reindent_ne_twice (by decide) (fun rest h => hslash rest hd (h ▸ rfl)) tail hsecond

/-- A block string on one line is read the same in indented text. -/
theorem block?_reindent {text : List Char} {found : Found} (h : block? text = some found)
    {taken : List Char} (htext : '"' :: '"' :: '"' :: text = taken ++ found.rest)
    (hline : '\n' ∉ taken) :
    block? (reindent indent text) =
      some { found with rest := reindent indent found.rest } := by
  obtain ⟨⟨inner, rest⟩, hinner, h⟩ := Option.bind_eq_some_iff.mp h
  cases h
  have htaken : taken = '"' :: '"' :: '"' :: (inner ++ ['"', '"', '"']) := by
    refine List.append_cancel_right (htext.symm.trans ?_)
    rw [append_of_untilQuotes? hinner]
    simp
  rw [block?, untilQuotes?_reindent hinner fun hmem => hline (by simp [htaken, hmem])]
  rfl

/-- A quoted string on one line is read the same in indented text. -/
theorem quoted?_reindent {text : List Char} {found : Found} (h : quoted? text = some found)
    {taken : List Char} (htext : '"' :: text = taken ++ found.rest) (hline : '\n' ∉ taken) :
    quoted? (reindent indent text) =
      some { found with rest := reindent indent found.rest } := by
  obtain ⟨⟨inner, rest⟩, hinner, h⟩ := Option.bind_eq_some_iff.mp h
  obtain ⟨value, hvalue, h⟩ := Option.bind_eq_some_iff.mp h
  change untilQuote? (leadingLineEnd text).2 = some (inner, rest) at hinner
  change unescape? inner = some value at hvalue
  obtain rfl : ⟨.string (String.ofList ((leadingLineEnd text).1 ++ value)),
      Text.byteLength ((leadingLineEnd text).1 ++ inner) + 2, rest⟩ = found := Option.some.inj h
  have htaken : taken = '"' :: ((leadingLineEnd text).1 ++ inner ++ ['"']) := by
    refine List.append_cancel_right (htext.symm.trans ?_)
    conv => lhs; rw [← leadingLineEnd_append text, append_of_untilQuote? hinner]
    simp
  have hlead : leadingLineEnd (reindent indent text) =
      ((leadingLineEnd text).1, reindent indent (leadingLineEnd text).2) := by
    cases text with
    | nil => rfl
    | cons c text =>
      -- A line feed right behind the opening quote would be one of the token.
      have hc : c ≠ '\n' := by
        rintro rfl
        exact hline (by simp [htaken, leadingLineEnd, isLineEnd])
      rw [reindent_cons hc, leadingLineEnd, leadingLineEnd]
      split
      · rfl
      · rw [reindent_cons hc]
  simp only [quoted?, hlead, untilQuote?_reindent hinner, hvalue, Option.bind_eq_bind,
    Option.bind_some]
  rfl

/-- A text that something is taken from does not start with a line feed if no line feed is taken. -/
theorem ne_newline_of_taken {c : Char} {text taken rest : List Char}
    (htext : c :: text = taken ++ rest) (hlt : rest.length < (c :: text).length)
    (hline : '\n' ∉ taken) : c ≠ '\n' := by
  rintro rfl
  cases taken with
  | nil =>
    rw [List.nil_append] at htext
    exact absurd hlt (htext ▸ Nat.lt_irrefl _)
  | cons d taken =>
    rw [List.cons_append] at htext
    exact hline ((List.cons.inj htext).1 ▸ List.mem_cons_self)

/-- A lexeme that takes no line feed is found in a shifted text. -/
theorem first?_reindent {text taken : List Char} {found : Found} (h : first? text = some found)
    (htext : text = taken ++ found.rest) (hline : '\n' ∉ taken) :
    first? (reindent indent text) = some { found with rest := reindent indent found.rest } := by
  have hlt := length_first? h
  unfold first? at h
  split at h
  · cases h
  · cases h
    simp only [reindent_cons (show '.' ≠ '\n' by decide), first?]
  · simp only [reindent_cons (show '"' ≠ '\n' by decide), first?]
    exact block?_reindent h htext hline
  · rename_i text hquotes
    rw [reindent_cons (by decide), first?]
    · exact quoted?_reindent h htext hline
    · -- The lines behind a quote are shifted, which brings no two more quotes about.
      exact reindent_ne_twice (by decide) hquotes
  · rename_i c text hdots _ hquote
    have hc : c ≠ '\n' := ne_newline_of_taken htext hlt hline
    rw [reindent_cons hc, first?]
    · -- Marks, names and numbers hold no line feed.
      split at h
      · rename_i hmark
        cases h
        rw [if_pos hmark]
      · rename_i hmark
        rw [if_neg hmark]
        split at h
        · rename_i hstart
          cases h
          rw [if_pos hstart, takeWhile_reindent (by decide), dropWhile_reindent (by decide)]
        · rename_i hstart
          rw [if_neg hstart, ← reindent_cons hc, number?_reindent, h, Option.map_some]
    · exact fun tail hd => reindent_ne_twice (by decide) (fun rest => hdots rest hd) tail
    · exact fun _ hd => absurd hd hquote
    · exact hquote

end Lexeme

/-! ## The glyphs of a shifted text -/

namespace Token

/-- Whether no token of a text holds a line feed. -/
def Unbroken (text : List Char) : Prop :=
  ∀ tokens, scan? text = some tokens →
    ∀ t ∈ tokens, '\n' ∉ Text.slice t.span.start t.span.stop text

/-- Whether no token of a text holds a line feed can be decided by scanning the text. -/
instance (text : List Char) : Decidable (Unbroken text) :=
  match h : scan? text with
  | none => isTrue fun _ htokens => nomatch h.symm.trans htokens
  | some tokens =>
    decidable_of_iff (∀ t ∈ tokens, '\n' ∉ Text.slice t.span.start t.span.stop text)
      ⟨fun hall _ htokens => Option.some.inj (h.symm.trans htokens) ▸ hall,
        fun hunbroken => hunbroken tokens h⟩

end Token

namespace Glyph

open Indentation

variable {indent : List Char}

/-- A comment is no glyph. -/
theorem scan?_comment (text : List Char) :
    scan? ('#' :: text) = scan? (text.dropWhile (!Lexeme.isLineEnd ·)) := by
  have hle := (List.dropWhile_suffix (l := text) (!Lexeme.isLineEnd ·)).length_le
  exact scanUpTo_eq_scan? hle

/-- Blanks of an indentation are scanned over. -/
theorem scan?_indent (hindent : ∀ c ∈ indent, c = ' ' ∨ c = '\t' ∨ c = '\r') (text : List Char) :
    scan? (indent ++ text) = scan? text := by
  have hblank : ∀ c ∈ indent, Text.isBlank c = true := by
    intro c hc
    rcases hindent c hc with rfl | rfl | rfl <;> decide
  have hignored : indent.all Lexeme.isIgnored = true := by
    refine List.all_eq_true.mpr fun c hc => ?_
    rcases hindent c hc with rfl | rfl | rfl <;> decide
  rw [scan?_blanks hblank, if_pos hignored]

/-- A character between tokens may be shifted with what follows. Only here can an indentation be put
in, behind a line feed. -/
theorem scan?_reindent_ignored (hindent : ∀ c ∈ indent, c = ' ' ∨ c = '\t' ∨ c = '\r') {c : Char}
    (hignored : Lexeme.isIgnored c = true) {text : List Char}
    (h : scan? (reindent indent text) = scan? text) :
    scan? (reindent indent (c :: text)) = scan? (c :: text) := by
  by_cases hcomma : c = ','
  · subst hcomma
    rw [reindent_cons (by decide), scan?_comma, scan?_comma, h]
  · by_cases hc : c = '\n'
    · subst hc
      rw [reindent_newline, scan?_ignored hignored hcomma, scan?_ignored hignored hcomma]
      split
      · rw [scan?_indent hindent, h]
      · rw [List.nil_append, h]
    · rw [reindent_cons hc, scan?_ignored hignored hcomma, scan?_ignored hignored hcomma, h]

/-- A token without line feeds may be shifted with what follows: it is found again. -/
theorem scan?_reindent_token {c : Char} (hignored : ¬ Lexeme.isIgnored c = true)
    (hcomment : c ≠ '#') {text taken : List Char} {found : Lexeme.Found}
    (hfound : Lexeme.first? (c :: text) = some found) (htext : c :: text = taken ++ found.rest)
    (hline : '\n' ∉ taken) (h : scan? (reindent indent found.rest) = scan? found.rest) :
    scan? (reindent indent (c :: text)) = scan? (c :: text) := by
  have hshifted : Lexeme.first? (reindent indent (c :: text)) = _ :=
    Lexeme.first?_reindent hfound htext hline
  obtain ⟨tail, htail⟩ := exists_reindent_cons indent c text
  rw [htail] at hshifted ⊢
  have hignored : Lexeme.isIgnored c = false := Bool.eq_false_iff.mpr hignored
  rw [scan?_cons hignored hcomment, scan?_cons hignored hcomment, hshifted, hfound,
    Option.bind_some, Option.bind_some, h]

/-- Shifting the lines of a text whose tokens hold no line feed keeps its glyphs. The induction
follows the scanner; what it has left behind is `before`. -/
theorem scan?_reindent_of_scanUpTo (hindent : ∀ c ∈ indent, c = ' ' ∨ c = '\t' ∨ c = '\r')
    {fuel offset : Nat} {comma : Bool} {text : List Char} {tokens : List Token}
    (h : Token.scanUpTo fuel offset comma text = some tokens) {before : List Char}
    (hoffset : Text.byteLength before = offset)
    (hline : ∀ t ∈ tokens, '\n' ∉ Text.slice t.span.start t.span.stop (before ++ text)) :
    scan? (reindent indent text) = scan? text := by
  fun_induction Token.scanUpTo fuel offset comma text generalizing tokens before with
  | case1 => rfl
  | case2 => cases h
  | case3 fuel offset comma c text hignored ih =>
    rw [List.append_cons before] at hline
    have hrest := ih h (by rw [Text.byteLength_append, hoffset]; rfl) hline
    exact scan?_reindent_ignored hindent hignored hrest
  | case4 fuel offset comma text comment stop _ =>
    rename_i ih
    have hcomment : before ++ '#' :: text =
        before ++ '#' :: comment ++ text.dropWhile (!Lexeme.isLineEnd ·) := by
      rw [List.append_assoc, List.cons_append, List.takeWhile_append_dropWhile]
    rw [hcomment] at hline
    have hrest := ih h (by
      rw [Text.byteLength_append, hoffset, Text.byteLength_cons, ← Nat.add_assoc]
      rfl) hline
    rw [reindent_cons (by decide), scan?_comment, scan?_comment, dropWhile_reindent (by decide),
      hrest]
  | case5 => cases h
  | case6 fuel offset comma c text hignored hcomment found hfound stop =>
    rename_i ih
    obtain ⟨rest, hrest, rfl⟩ := Option.map_eq_some_iff.mp h
    obtain ⟨taken, -, htext, hsize⟩ := Lexeme.takenFrom_of_first? hfound
    rw [htext, ← List.append_assoc] at hline
    obtain ⟨hfirst, hothers⟩ := List.forall_mem_cons.mp hline
    -- The token holds what was taken.
    have hslice :
        Text.slice offset (offset + found.size) (before ++ taken ++ found.rest) = taken := by
      rw [← hoffset, hsize, Text.slice_append]
    have hstop : Text.byteLength (before ++ taken) = offset + found.size := by
      rw [Text.byteLength_append, hoffset, hsize]
    exact scan?_reindent_token hignored hcomment hfound htext (hslice ▸ hfirst)
      (ih hrest hstop hothers)

/-- Shifting the lines of a text whose tokens hold no line feed keeps its glyphs. -/
theorem scan?_reindent (hindent : ∀ c ∈ indent, c = ' ' ∨ c = '\t' ∨ c = '\r') {text : List Char}
    {gs : List Glyph} (h : scan? text = some gs) (hunbroken : Token.Unbroken text) :
    scan? (reindent indent text) = some gs := by
  have hkeys := Token.map_key_scan? text
  rw [h, Option.map_some] at hkeys
  obtain ⟨tokens, htokens, -⟩ := Option.map_eq_some_iff.mp hkeys
  rw [← h]
  exact scan?_reindent_of_scanUpTo hindent htokens (rfl : Text.byteLength [] = 0)
    (hunbroken tokens htokens)

end Glyph

/-! ## Printed documents -/

/-- A carriage return in front of every line but the first, and nothing behind the text. -/
def Surroundings.returns : Surroundings :=
  { plain with
    indent := ['\r']
    indent_eq := List.forall_mem_singleton.mpr (.inr (.inr rfl)) }

namespace Document

open Surroundings

variable {d : Document}

/-- If no token of a printed document holds a line feed, none of its texts is printed over several
lines. -/
theorem spansLines_of_unbroken (h : d.Grammatical) (hall : d.Reprintable)
    (hunbroken : Token.Unbroken d.pretty.toList) : d.spansLines = false := by
  have hpretty : d.pretty.toList =
      ("\n\n".intercalate (Printer.definitions (.lines 0) d.definitions)).toList ++ ['\n'] := by
    rw [pretty, String.toList_append]
    rfl
  have hplain := scan?_printed h (rfl : isFree ['\n'] = true) rfl
  rw [← hpretty] at hplain
  -- The tokens stay the same when the lines are shifted by a carriage return, so that the printed
  -- document can be read as one that was printed between carriage returns.
  have hshifted := Glyph.scan?_reindent returns.indent_eq hplain hunbroken
  have hwritten := (Written.definitions (s := returns) h.nonempty h.definitions).scan ['\n'] rfl
  have hplace : returns.place d.pretty.toList =
      Indentation.reindent returns.indent d.pretty.toList :=
    List.append_nil _
  rw [← hpretty, scan?, hplace, hshifted, ← hplain] at hwritten
  obtain ⟨e, hparse, hreread⟩ :=
    parse?_of_scan? h hall (hwritten.trans (congrArg some (List.append_nil _)))
  obtain ⟨e', hparse', hsame⟩ := (parse?_pretty_iff h).mpr hall
  obtain rfl : e = e' := Option.some.inj (hparse.symm.trans hparse')
  exact hreread.eq_true_iff.mp hsame (by simp [returns])

end Document
end EmbeddedGraphQL
