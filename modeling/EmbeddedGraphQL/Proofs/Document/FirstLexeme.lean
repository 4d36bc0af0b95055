import EmbeddedGraphQL.Document.Printer
import EmbeddedGraphQL.Proofs.Document.Glyphs
import EmbeddedGraphQL.Proofs.Text.Runs

/-!
# The first lexeme of a written text

A name, a mark, a number or a quoted text that was written is found again at the start of a text,
if what follows does not run into it.

* `isFree`: texts that run into no lexeme in front of them.
* `Lexeme.first?_name`, `Lexeme.first?_mark`: names and marks.
* `Lexeme.number?_append`: numbers.
* `Lexeme.first?_quoted`: quoted texts.
-/

namespace EmbeddedGraphQL

/-! ## Characters -/

/-- Between the blank and the first of the longer characters no character is blank. -/
theorem Text.isBlank_eq_false {c : Char} (hlow : 0x21 ≤ c.toNat) (hhigh : c.toNat < 0x85) :
    Text.isBlank c = false := by
  have hbefore : ∀ n ∈ Text.blankSet.changes.take 4, decide (n ≤ c.toNat) = true := by
    intro n hn
    have hle : ∀ m ∈ Text.blankSet.changes.take 4, m ≤ 0x21 := by decide
    exact decide_eq_true (Nat.le_trans (hle n hn) hlow)
  have hafter : ∀ n ∈ Text.blankSet.changes.drop 4, ¬ decide (n ≤ c.toNat) = true := by
    intro n hn
    have hle : ∀ m ∈ Text.blankSet.changes.drop 4, 0x85 ≤ m := by decide
    have := hle n hn
    simp only [decide_eq_true_eq]
    omega
  rw [Text.isBlank, CharSet.contains, ← List.take_append_drop 4 Text.blankSet.changes,
    List.countP_append, List.countP_eq_length.mpr hbefore, List.countP_eq_zero.mpr hafter]
  rfl

/-- No name starts with a digit. -/
theorem isNameStart_of_isDigit {c : Char} (h : c.isDigit = true) : isNameStart c = false := by
  refine Bool.eq_false_iff.mpr fun hstart => ?_
  simp only [isNameStart, Bool.or_eq_true, beq_iff_eq] at hstart
  rcases hstart with hstart | rfl
  · have hdigit := toNat_of_isDigit h
    have hletter := toNat_of_isAlpha hstart
    omega
  · exact absurd h (by decide)

/-- Whether a text runs into no lexeme in front of it. -/
def isFree : List Char → Bool
  | [] => true
  | c :: _ => !isNameContinue c && c != '.' && c != '"'

/-- Text that is free, in front of text that is free, is free. -/
theorem isFree_append {text rest : List Char} (htext : isFree text = true)
    (hrest : isFree rest = true) : isFree (text ++ rest) = true := by
  cases text with
  | nil => exact hrest
  | cons c text => exact htext

/-- Whether a text is free is decided by its first character. -/
theorem isFree_of_head? {text text' : List Char} (h : text.head? = text'.head?) :
    isFree text = isFree text' := by
  cases text with
  | nil =>
    cases text' with
    | nil => rfl
    | cons c text' => cases h
  | cons c text =>
    cases text' with
    | nil => cases h
    | cons d text' =>
      cases h
      rfl

/-- Text that is free starts with nothing that a name, a number or a string goes on with. -/
theorem ne_of_isFree {c : Char} {text : List Char} (h : isFree (c :: text) = true) :
    isNameContinue c = false ∧ c ≠ '.' ∧ c ≠ '"' := by
  simpa [isFree, and_assoc] using h

/-- Blanks are free. -/
theorem isFree_of_isBlank {text : List Char} (h : ∀ c ∈ text, Text.isBlank c = true) :
    isFree text = true := by
  cases text with
  | nil => rfl
  | cons c text =>
    have hc : Text.isBlank c = true := h c List.mem_cons_self
    have hcontinue : isNameContinue c = false := by
      refine Bool.eq_false_iff.mpr fun hcontinue => ?_
      obtain ⟨hlow, hhigh⟩ := toNat_of_isNameContinue hcontinue
      rw [Text.isBlank_eq_false (by omega) (by omega)] at hc
      cases hc
    have hdot : c ≠ '.' := by
      rintro rfl
      exact absurd hc (by decide)
    have hquote : c ≠ '"' := by
      rintro rfl
      exact absurd hc (by decide)
    simp [isFree, hcontinue, hdot, hquote]

/-! ## Scanning single lexemes -/

namespace Lexeme

/-- What starts neither with a dot nor with a quote is a mark, a name or a number. -/
theorem first?_cons {c : Char} (hdot : c ≠ '.') (hquote : c ≠ '"') (text : List Char) :
    first? (c :: text) =
      if isMark c then some ⟨.mark c, 1, text⟩
      else if isNameStart c then
        some ⟨.name (String.ofList (c :: text.takeWhile isNameContinue)),
          (c :: text.takeWhile isNameContinue).length, text.dropWhile isNameContinue⟩
      else number? (c :: text) := by
  rw [first?]
  · exact fun _ h => absurd h hdot
  · exact fun _ h => absurd h hquote
  · exact fun h => absurd h hquote

/-- No mark goes on with a name. -/
theorem isNameContinue_of_isMark {c : Char} (h : isMark c = true) : isNameContinue c = false := by
  simp only [isMark, decide_eq_true_eq, List.mem_cons, List.not_mem_nil, or_false] at h
  rcases h with rfl | rfl | rfl | rfl | rfl | rfl | rfl | rfl | rfl | rfl | rfl | rfl | rfl <;> rfl

/-- No mark is ignored. -/
theorem isIgnored_of_isMark {c : Char} (h : isMark c = true) : isIgnored c = false := by
  simp only [isMark, decide_eq_true_eq, List.mem_cons, List.not_mem_nil, or_false] at h
  rcases h with rfl | rfl | rfl | rfl | rfl | rfl | rfl | rfl | rfl | rfl | rfl | rfl | rfl <;> rfl

/-- What goes on with a name is not ignored. -/
theorem isIgnored_of_isNameContinue {c : Char} (h : isNameContinue c = true) :
    isIgnored c = false := by
  refine Bool.eq_false_iff.mpr fun hignored => ?_
  simp only [isIgnored, decide_eq_true_eq, List.mem_cons, List.not_mem_nil, or_false] at hignored
  rcases hignored with rfl | rfl | rfl | rfl | rfl | rfl <;> exact absurd h (by decide)

/-- What is free does not go on with a name. -/
theorem isNameContinue_head? {text : List Char} (h : isFree text = true) :
    ∀ c ∈ text.head?, isNameContinue c = false := by
  cases text with
  | nil => simp
  | cons c text =>
    have hc := (ne_of_isFree h).1
    simpa using hc

/-- A name is found if what follows is free. -/
theorem first?_name {name : String} (hname : isName name = true) {rest : List Char}
    (hrest : isFree rest = true) :
    ∃ size, first? (name.toList ++ rest) = some ⟨.name name, size, rest⟩ := by
  obtain ⟨c, tail, hchars⟩ : ∃ c tail, name.toList = c :: tail := by
    cases hchars : name.toList with
    | nil => simp [isName, hchars] at hname
    | cons c tail => exact ⟨c, tail, rfl⟩
  obtain ⟨hstart, htail⟩ : isNameStart c = true ∧ ∀ d ∈ tail, isNameContinue d = true := by
    simpa [isName, hchars] using hname
  have hcontinue := isNameContinue_of_isNameStart hstart
  -- What starts a name is tried behind dots, quotes and marks, and is none of them.
  have hdot : c ≠ '.' := by
    rintro rfl
    exact absurd hstart (by decide)
  have hquote : c ≠ '"' := by
    rintro rfl
    exact absurd hstart (by decide)
  have hmark : isMark c = false := by
    refine Bool.eq_false_iff.mpr fun hmark => ?_
    rw [isNameContinue_of_isMark hmark] at hcontinue
    cases hcontinue
  have hstop := isNameContinue_head? hrest
  have hofList : String.ofList (c :: tail) = name := by rw [← hchars, String.ofList_toList]
  refine ⟨(c :: tail).length, ?_⟩
  rw [hchars, List.cons_append, first?_cons hdot hquote, hmark, if_neg Bool.false_ne_true,
    if_pos hstart, Text.takeWhile_append_stop htail hstop, Text.dropWhile_append_stop htail hstop,
    hofList]

/-- Three dots are found whatever follows. -/
theorem first?_dots (rest : List Char) :
    first? ('.' :: '.' :: '.' :: rest) = some ⟨.dots, 3, rest⟩ := rfl

/-- A mark is found whatever follows. -/
theorem first?_mark {c : Char} (hmark : isMark c = true) (rest : List Char) :
    first? (c :: rest) = some ⟨.mark c, 1, rest⟩ := by
  have hdot : c ≠ '.' := by
    rintro rfl
    exact absurd hmark (by decide)
  have hquote : c ≠ '"' := by
    rintro rfl
    exact absurd hmark (by decide)
  rw [first?_cons hdot hquote, if_pos hmark]

/-! ## Numbers -/

/-- A fraction is read if no digit follows, and none if no dot follows. -/
theorem fraction?_append {fraction rest : List Char} (h : IsFraction fraction)
    (hdigit : ∀ c ∈ rest.head?, c.isDigit = false) (hdot : ∀ c ∈ rest.head?, c ≠ '.') :
    fraction? (fraction ++ rest) = some (fraction, rest) := by
  rcases h with rfl | ⟨digits, hdigits, rfl⟩
  · cases rest with
    | nil => rfl
    | cons c rest =>
      rw [List.nil_append, fraction?]
      exact fun _ h => absurd (List.cons.inj h).1 (hdot c rfl)
  · have hsome : digits.isEmpty = false := by simpa using hdigits.1
    rw [List.cons_append, fraction?, Text.takeWhile_append_stop hdigits.2 hdigit,
      Text.dropWhile_append_stop hdigits.2 hdigit, hsome]
    rfl

/-- A sign in front of digits is read as the sign. -/
theorem sign_append {signs digits : List Char} (hsigns : IsSign signs) (hdigits : IsDigits digits)
    (rest : List Char) : sign (signs ++ (digits ++ rest)) = (signs, digits ++ rest) := by
  obtain ⟨d, tail, rfl⟩ := List.exists_cons_of_ne_nil hdigits.1
  have hd : d.isDigit = true := hdigits.2 d List.mem_cons_self
  rcases hsigns with rfl | rfl | rfl
  · rw [List.nil_append, List.cons_append, sign]
    · rintro text h
      cases h
      exact absurd hd (by decide)
    · rintro text h
      cases h
      exact absurd hd (by decide)
  · rfl
  · rfl

/-- An exponent is read if what follows is free. -/
theorem exponent?_append {exponent rest : List Char} (h : IsExponent exponent)
    (hrest : isFree rest = true) : exponent? (exponent ++ rest) = some (exponent, rest) := by
  have hcontinue := isNameContinue_head? hrest
  rcases h with rfl | ⟨letter, signs, digits, hletter, hsigns, hdigits, rfl⟩
  · cases rest with
    | nil => rfl
    | cons c rest =>
      -- A letter would go on with the number, which is not free to end then.
      have hc : ¬ ((c = 'e' || c = 'E') = true) := by
        intro hc
        rcases (by simpa using hc : c = 'e' ∨ c = 'E') with rfl | rfl <;>
          exact absurd (hcontinue _ rfl) (by decide)
      rw [List.nil_append, exponent?, if_neg hc]
  · have hdigit : ∀ c ∈ rest.head?, c.isDigit = false := by
      intro c hc
      refine Bool.eq_false_iff.mpr fun hdigit => ?_
      have hfalse := hcontinue c hc
      rw [isNameContinue_of_isDigit hdigit] at hfalse
      cases hfalse
    have hsome : digits.isEmpty = false := by simpa using hdigits.1
    have hletter : (letter = 'e' || letter = 'E') = true := by simpa using hletter
    rw [List.cons_append, exponent?, if_pos hletter, List.append_assoc,
      sign_append hsigns hdigits rest]
    simp only
    rw [Text.takeWhile_append_stop hdigits.2 hdigit, Text.dropWhile_append_stop hdigits.2 hdigit,
      hsome]
    rfl

/-- What follows the digits of a number is no digit. -/
theorem isDigit_head?_append {fraction exponent rest : List Char} (hfraction : IsFraction fraction)
    (hexponent : IsExponent exponent) (hrest : isFree rest = true) :
    ∀ c ∈ (fraction ++ (exponent ++ rest)).head?, c.isDigit = false := by
  rcases hfraction with rfl | ⟨digits, -, rfl⟩
  · rcases hexponent with rfl | ⟨letter, signs, digits, hletter, -, -, rfl⟩
    · intro c hc
      refine Bool.eq_false_iff.mpr fun hdigit => ?_
      have hfalse := isNameContinue_head? hrest c hc
      rw [isNameContinue_of_isDigit hdigit] at hfalse
      cases hfalse
    · intro c hc
      cases hc
      rcases hletter with rfl | rfl <;> rfl
  · intro c hc
    cases hc
    rfl

/-- Neither an exponent nor the free text behind it starts with a point. -/
theorem dot_head?_append {exponent rest : List Char} (hexponent : IsExponent exponent)
    (hrest : isFree rest = true) : ∀ c ∈ (exponent ++ rest).head?, c ≠ '.' := by
  rcases hexponent with rfl | ⟨letter, signs, digits, hletter, -, -, rfl⟩
  · cases rest with
    | nil => simp
    | cons c rest =>
      intro d hd
      cases hd
      exact (ne_of_isFree hrest).2.1
  · intro c hc
    cases hc
    rcases hletter with rfl | rfl <;> decide

/-- A minus in front of digits, or none, is read as it stands. -/
theorem minusSign_append {minus digits : List Char} (hminus : minus = [] ∨ minus = ['-'])
    (hdigits : IsDigits digits) (rest : List Char) :
    minusSign (minus ++ (digits ++ rest)) = (minus, digits ++ rest) := by
  obtain ⟨d, tail, rfl⟩ := List.exists_cons_of_ne_nil hdigits.1
  have hd : d.isDigit = true := hdigits.2 d List.mem_cons_self
  rcases hminus with rfl | rfl
  · rw [List.nil_append, List.cons_append, minusSign]
    rintro text h
    cases h
    exact absurd hd (by decide)
  · rfl

/-- Text that is free does not go on with a number. -/
theorem continuesNumber_eq_false {rest : List Char} (h : isFree rest = true) (isFloat : Bool) :
    continuesNumber isFloat rest = false := by
  cases rest with
  | nil => rfl
  | cons c rest =>
    obtain ⟨hcontinue, hdot, -⟩ := ne_of_isFree h
    have hstart : isNameStart c = false := by
      refine Bool.eq_false_iff.mpr fun hstart => ?_
      rw [isNameContinue_of_isNameStart hstart] at hcontinue
      cases hcontinue
    simp [continuesNumber, hstart, hdot]

/-- A written number is read if what follows is free. -/
theorem number?_append (n : NumberParts) {rest : List Char} (hrest : isFree rest = true) :
    number? (n.written ++ rest) =
      some ⟨if n.isFloat then .float (String.ofList n.written) else .int (String.ofList n.written),
        n.written.length, rest⟩ := by
  have hwritten : n.written ++ rest =
      n.minus ++ (n.digits ++ (n.fraction ++ (n.exponent ++ rest))) := by
    simp [NumberParts.written]
  have hsome : n.digits.isEmpty = false := by simpa using n.isDigits.1
  have hdigit := isDigit_head?_append n.isFraction n.isExponent hrest
  have hfraction : fraction? (n.fraction ++ (n.exponent ++ rest)) =
      some (n.fraction, n.exponent ++ rest) :=
    fraction?_append n.isFraction (isDigit_head?_append (Or.inl rfl) n.isExponent hrest)
      (dot_head?_append n.isExponent hrest)
  rw [number?_eq, hwritten, minusSign_append n.minus_eq n.isDigits]
  simp only
  rw [Text.takeWhile_append_stop n.isDigits.2 hdigit,
    Text.dropWhile_append_stop n.isDigits.2 hdigit, hsome, n.noLeadingZero, Bool.or_false,
    if_neg Bool.false_ne_true, hfraction, Option.bind_some,
    exponent?_append n.isExponent hrest, Option.bind_some, continuesNumber_eq_false hrest,
    if_neg Bool.false_ne_true]
  rfl

/-- The first character of a number is a minus sign or a digit. -/
theorem exists_written_eq_cons (n : NumberParts) :
    ∃ c tail, n.written = c :: tail ∧ (c = '-' ∨ c.isDigit = true) := by
  obtain ⟨d, digits, hdigits⟩ := List.exists_cons_of_ne_nil n.isDigits.1
  have hd : d.isDigit = true := n.isDigits.2 d (hdigits ▸ List.mem_cons_self)
  rcases n.minus_eq with hminus | hminus
  · exact ⟨d, digits ++ n.fraction ++ n.exponent, by simp [NumberParts.written, hminus, hdigits],
      Or.inr hd⟩
  · exact ⟨'-', n.digits ++ n.fraction ++ n.exponent, by simp [NumberParts.written, hminus],
      Or.inl rfl⟩

/-- The first character of a number is neither ignored nor the start of a comment. -/
theorem isIgnored_of_number {c : Char} (h : c = '-' ∨ c.isDigit = true) :
    isIgnored c = false ∧ c ≠ '#' := by
  rcases h with rfl | h
  · decide
  · have hcontinue := isNameContinue_of_isDigit h
    refine ⟨isIgnored_of_isNameContinue hcontinue, ?_⟩
    rintro rfl
    exact absurd hcontinue (by decide)

/-- A minus sign or a digit starts a number and nothing else. -/
theorem first?_eq_number? {c : Char} (h : c = '-' ∨ c.isDigit = true) (text : List Char) :
    first? (c :: text) = number? (c :: text) := by
  rcases h with rfl | h
  · rw [first?_cons (by decide) (by decide)]
    rfl
  · have hcontinue := isNameContinue_of_isDigit h
    have hdot : c ≠ '.' := by
      rintro rfl
      exact absurd h (by decide)
    have hquote : c ≠ '"' := by
      rintro rfl
      exact absurd h (by decide)
    have hmark : isMark c = false := by
      refine Bool.eq_false_iff.mpr fun hmark => ?_
      rw [isNameContinue_of_isMark hmark] at hcontinue
      cases hcontinue
    rw [first?_cons hdot hquote, hmark, isNameStart_of_isDigit h]
    rfl

/-! ## Quoted texts -/

/-- How a character is escaped: not at all, by a character of its own, or by its code. -/
inductive EscapedAs (c : Char) : List Char → Prop where
  /-- The character stands for itself. -/
  | plain (hquote : c ≠ '"') (hslash : c ≠ '\\') (hline : isLineEnd c = false) : EscapedAs c [c]
  /-- Another character stands for it. -/
  | simple {e : Char} (hu : e ≠ 'u') (hline : isLineEnd e = false) (h : simpleEscape? e = some c) :
      EscapedAs c ['\\', e]
  /-- Its code stands for it. -/
  | code {a b : Char} (ha : a.isAlphanum = true) (hb : b.isAlphanum = true)
      (h : Text.hexValue? ['0', '0', a, b] = some c.toNat) (hc : c.toNat < 0x20) :
      EscapedAs c ['\\', 'u', '0', '0', a, b]

/-- Each character is escaped in one of the forms that are read back. -/
theorem escapedAs_escapeChar (c : Char) : EscapedAs c (Printer.escapeChar c) := by
  unfold Printer.escapeChar
  split
  · subst c
    exact .simple (by decide) rfl rfl
  · split
    · subst c
      exact .simple (by decide) rfl rfl
    · split
      · -- A tab is printed as it is, unlike the other characters named here.
        subst c
        exact .plain (by decide) (by decide) rfl
      · split
        · subst c
          exact .simple (by decide) rfl rfl
        · split
          · subst c
            exact .simple (by decide) rfl rfl
          · split
            · subst c
              exact .simple (by decide) rfl rfl
            · split
              · subst c
                exact .simple (by decide) rfl rfl
              · split
                · rename_i hcode
                  -- The other control characters are few enough to try them all.
                  have hdigits : ∀ n < 0x20,
                      (Printer.upperHexDigit (n / 16)).isAlphanum = true ∧
                        (Printer.upperHexDigit (n % 16)).isAlphanum = true ∧
                        Text.hexValue? ['0', '0', Printer.upperHexDigit (n / 16),
                          Printer.upperHexDigit (n % 16)] = some n := by
                    decide
                  obtain ⟨ha, hb, h⟩ := hdigits c.toNat hcode
                  exact .code ha hb h hcode
                · rename_i hquote hslash _ _ hfeed _ hreturn _
                  exact .plain hquote hslash (by simp [isLineEnd, hfeed, hreturn])

/-- A plain character inside a string is taken as it stands. -/
theorem untilQuote?_cons {c : Char} (hquote : c ≠ '"') (hslash : c ≠ '\\')
    (hline : isLineEnd c = false) (rest : List Char) :
    untilQuote? (c :: rest) = (untilQuote? rest).map fun (inner, rest) => (c :: inner, rest) := by
  rw [untilQuote?, hline, if_neg Bool.false_ne_true]
  · exact hquote
  · exact fun _ _ h => absurd h hslash

/-- A letter or digit inside a string is taken as it stands. -/
theorem untilQuote?_cons_of_isAlphanum {c : Char} (h : c.isAlphanum = true) (rest : List Char) :
    untilQuote? (c :: rest) = (untilQuote? rest).map fun (inner, rest) => (c :: inner, rest) := by
  have hne : ∀ d : Char, d.isAlphanum = false → c ≠ d := by
    rintro d hd rfl
    rw [h] at hd
    cases hd
  have hline : isLineEnd c = false := by
    simp [isLineEnd, hne '\n' (by decide), hne '\r' (by decide)]
  exact untilQuote?_cons (hne _ (by decide)) (hne _ (by decide)) hline rest

/-- No closing quote is found within an escaped character. -/
theorem untilQuote?_escapedAs {c : Char} {escaped : List Char} (h : EscapedAs c escaped)
    (rest : List Char) :
    untilQuote? (escaped ++ rest) =
      (untilQuote? rest).map fun (inner, rest) => (escaped ++ inner, rest) := by
  cases h with
  | plain hquote hslash hline => exact untilQuote?_cons hquote hslash hline rest
  | simple _ hline _ =>
    rw [List.cons_append, List.cons_append, untilQuote?, hline, if_neg Bool.false_ne_true]
    rfl
  | code ha hb _ _ =>
    simp only [List.cons_append, List.nil_append]
    rw [untilQuote?, if_neg (by decide), untilQuote?_cons_of_isAlphanum (by decide),
      untilQuote?_cons_of_isAlphanum (by decide), untilQuote?_cons_of_isAlphanum ha,
      untilQuote?_cons_of_isAlphanum hb]
    simp only [Option.map_map]
    rfl

/-- The closing quote of an escaped text is found behind it. -/
theorem untilQuote?_escape (text rest : List Char) :
    untilQuote? (text.flatMap Printer.escapeChar ++ '"' :: rest) =
      some (text.flatMap Printer.escapeChar, rest) := by
  induction text with
  | nil => rfl
  | cons c text ih =>
    rw [List.flatMap_cons, List.append_assoc, untilQuote?_escapedAs (escapedAs_escapeChar c), ih]
    rfl

/-- An escaped character is resolved. -/
theorem unescapeUpTo_escapedAs {c : Char} {escaped : List Char} (h : EscapedAs c escaped)
    (fuel : Nat) (rest : List Char) :
    unescapeUpTo (fuel + 1) (escaped ++ rest) = (unescapeUpTo fuel rest).map (c :: ·) := by
  cases h with
  | plain _ hslash _ =>
    rw [List.cons_append, List.nil_append, unescapeUpTo]
    · exact fun _ h => absurd h hslash
    · exact fun _ _ h => absurd h hslash
  | simple hu _ hsimple =>
    rw [List.cons_append, List.cons_append, List.nil_append, unescapeUpTo, hsimple]
    · rfl
    · exact fun h => absurd h hu
  | @code a b ha hb hvalue hc =>
    -- What is escaped by its code is a control character, hence no half of a surrogate pair.
    have hhigh : Text.isHighSurrogate c.toNat = false := by
      simp only [Text.isHighSurrogate, Bool.and_eq_false_iff, decide_eq_false_iff_not]
      omega
    have hscalar : Text.scalar? c.toNat = some c := by
      rw [Text.scalar?, if_pos (Or.inl (by omega)), Char.ofNat_toNat]
    have hcode : codeEscape? ('0' :: '0' :: a :: b :: rest) = some (c, rest) := by
      rw [codeEscape?, hvalue]
      · show (if Text.isHighSurrogate c.toNat = true then _ else _) = _
        rw [hhigh, if_neg Bool.false_ne_true, hscalar]
        rfl
      · decide
    simp only [List.cons_append, List.nil_append]
    rw [unescapeUpTo, hcode]
    rfl

/-- Escaped text is unescaped to itself, with fuel for its length. -/
theorem unescapeUpTo_escape {text : List Char} {fuel : Nat} (h : text.length ≤ fuel) :
    unescapeUpTo fuel (text.flatMap Printer.escapeChar) = some text := by
  induction text generalizing fuel with
  | nil => cases fuel <;> rfl
  | cons c text ih =>
    rw [List.length_cons] at h
    obtain ⟨fuel, rfl⟩ := Nat.exists_eq_add_of_lt (Nat.lt_of_lt_of_le (Nat.zero_lt_succ _) h)
    rw [Nat.zero_add] at h ⊢
    rw [List.flatMap_cons, unescapeUpTo_escapedAs (escapedAs_escapeChar c),
      ih (Nat.le_of_succ_le_succ h)]
    rfl

/-- Escaping never makes a text shorter. -/
theorem length_le_length_escape (text : List Char) :
    text.length ≤ (text.flatMap Printer.escapeChar).length := by
  induction text with
  | nil => simp
  | cons c text ih =>
    have hpos : 0 < (Printer.escapeChar c).length := by
      have hescaped := escapedAs_escapeChar c
      generalize Printer.escapeChar c = escaped at hescaped
      cases hescaped <;> simp
    rw [List.flatMap_cons, List.length_append, List.length_cons]
    omega

/-- A text that was escaped is read as it was. -/
theorem unescape?_escape (text : List Char) :
    unescape? (text.flatMap Printer.escapeChar) = some text :=
  unescapeUpTo_escape (length_le_length_escape text)

/-- An escaped text never starts with a line end. -/
theorem leadingLineEnd_escape (text rest : List Char) :
    leadingLineEnd (text.flatMap Printer.escapeChar ++ '"' :: rest) =
      ([], text.flatMap Printer.escapeChar ++ '"' :: rest) := by
  cases text with
  | nil => rfl
  | cons c text =>
    rw [List.flatMap_cons]
    have hescaped := escapedAs_escapeChar c
    generalize Printer.escapeChar c = escaped at hescaped
    cases hescaped with
    | plain _ _ hline =>
      simp only [List.cons_append, List.nil_append, leadingLineEnd, hline, Bool.false_eq_true,
        if_false]
    | simple => rfl
    | code => rfl

/-- A quoted text does not open a block text: a quote within is escaped, and none follows one that
is empty. -/
theorem escaped_ne_quotes (chars : List Char) {rest : List Char} (hrest : isFree rest = true)
    (tail : List Char) : chars.flatMap Printer.escapeChar ++ '"' :: rest ≠ '"' :: '"' :: tail := by
  intro h
  cases chars with
  | nil =>
    obtain ⟨c, after, rfl⟩ : ∃ c after, rest = c :: after := ⟨_, _, (List.cons.inj h).2⟩
    exact (ne_of_isFree hrest).2.2 (List.cons.inj (List.cons.inj h).2).1
  | cons c chars =>
    rw [List.flatMap_cons] at h
    have hescaped := escapedAs_escapeChar c
    generalize Printer.escapeChar c = escaped at hescaped h
    cases hescaped with
    | plain hquote => exact hquote (List.cons.inj h).1
    | simple => exact absurd (List.cons.inj h).1 (by decide)
    | code => exact absurd (List.cons.inj h).1 (by decide)

/-- A quoted text is found if no quote follows. -/
theorem first?_quoted (text : String) {rest : List Char} (hrest : isFree rest = true) :
    ∃ size, first? ((Printer.quoted text).toList ++ rest) = some ⟨.string text, size, rest⟩ := by
  have hchars : (Printer.quoted text).toList ++ rest =
      '"' :: (text.toList.flatMap Printer.escapeChar ++ '"' :: rest) := by
    simp [Printer.quoted]
  refine ⟨Text.byteLength (text.toList.flatMap Printer.escapeChar) + 2, ?_⟩
  rw [hchars, first?]
  · rw [quoted?, leadingLineEnd_escape]
    show (untilQuote? _).bind _ = _
    rw [untilQuote?_escape]
    show (unescape? _).bind _ = _
    rw [unescape?_escape]
    show some _ = _
    rw [List.nil_append, String.ofList_toList]
    rfl
  · exact escaped_ne_quotes text.toList hrest

end Lexeme

end EmbeddedGraphQL
