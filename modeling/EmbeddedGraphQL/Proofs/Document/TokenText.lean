import EmbeddedGraphQL.Proofs.Document.Lexemes
import EmbeddedGraphQL.Proofs.LineIndex.Reached

/-!
# The text that a token takes

The scanner counts bytes: it keeps how many a lexeme takes and where the next one is looked for. A
lexeme takes a part of the text that is not empty and the count is the size of that part, so that
tokens start and end between characters.

* `Lexeme.Found.TakenFrom`: what is found is a part of the text, measured in bytes.
* `Lexeme.takenFrom_of_first?`: what the scanner finds at the start of a text.
* `Span.StandsIn`: a span that starts and ends between characters of a text.
* `Token.standsIn_of_scan?`: the tokens of a text stand in it.
-/

namespace EmbeddedGraphQL

/-! ## Characters of names and numbers -/

/-- Letters by their code points. -/
theorem toNat_of_isAlpha {c : Char} (h : c.isAlpha = true) :
    0x41 ≤ c.toNat ∧ c.toNat ≤ 0x5A ∨ 0x61 ≤ c.toNat ∧ c.toNat ≤ 0x7A := by
  rcases Bool.or_eq_true_iff.mp h with hupper | hlower
  · obtain ⟨hle, hge⟩ := of_decide_eq_true hupper
    exact Or.inl ⟨UInt32.le_iff_toNat_le.mp hle, UInt32.le_iff_toNat_le.mp hge⟩
  · obtain ⟨hle, hge⟩ := Bool.and_eq_true_iff.mp hlower
    exact Or.inr ⟨UInt32.le_iff_toNat_le.mp (of_decide_eq_true hle),
      UInt32.le_iff_toNat_le.mp (of_decide_eq_true hge)⟩

/-- Digits by their code points. -/
theorem toNat_of_isDigit {c : Char} (h : c.isDigit = true) :
    0x30 ≤ c.toNat ∧ c.toNat ≤ 0x39 := by
  obtain ⟨hle, hge⟩ := Bool.and_eq_true_iff.mp h
  exact ⟨UInt32.le_iff_toNat_le.mp (of_decide_eq_true hle),
    UInt32.le_iff_toNat_le.mp (of_decide_eq_true hge)⟩

/-- Code points that go on with a name lie from the digits to the small letters. -/
theorem toNat_of_isNameContinue {c : Char} (h : isNameContinue c = true) :
    0x30 ≤ c.toNat ∧ c.toNat ≤ 0x7A := by
  simp only [isNameContinue, Char.isAlphanum, Bool.or_eq_true, beq_iff_eq] at h
  rcases h with (h | h) | rfl
  · have := toNat_of_isAlpha h
    omega
  · have := toNat_of_isDigit h
    omega
  · decide

/-- What starts a name also goes on with one. -/
theorem isNameContinue_of_isNameStart {c : Char} (h : isNameStart c = true) :
    isNameContinue c = true := by
  simp only [isNameStart, isNameContinue, Char.isAlphanum, Bool.or_eq_true] at h ⊢
  exact h.imp_left Or.inl

/-- A digit goes on with a name. -/
theorem isNameContinue_of_isDigit {c : Char} (h : c.isDigit = true) :
    isNameContinue c = true := by
  simp [isNameContinue, Char.isAlphanum, h]

namespace Lexeme

/-- Marks are ASCII. -/
theorem toNat_lt_of_isMark {c : Char} (h : isMark c = true) : c.toNat < 0x80 := by
  simp only [isMark, decide_eq_true_eq, List.mem_cons, List.not_mem_nil, or_false] at h
  rcases h with rfl | rfl | rfl | rfl | rfl | rfl | rfl | rfl | rfl | rfl | rfl | rfl | rfl <;>
    decide

/-- A digit or a character of a number. -/
def isNumeric (c : Char) : Bool := c.isDigit || c ∈ ['-', '+', '.', 'e', 'E']

/-- Digits are numeric. -/
theorem isNumeric_of_isDigits {digits : List Char} (h : IsDigits digits) :
    ∀ c ∈ digits, isNumeric c = true := by
  intro c hc
  rw [isNumeric, h.2 c hc, Bool.true_or]

/-- Signs are numeric. -/
theorem isNumeric_of_isSign {signs : List Char} (h : IsSign signs) :
    ∀ c ∈ signs, isNumeric c = true := by
  rcases h with rfl | rfl | rfl <;> simp [isNumeric]

/-- A fraction is numeric throughout. -/
theorem isNumeric_of_isFraction {fraction : List Char} (h : IsFraction fraction) :
    ∀ c ∈ fraction, isNumeric c = true := by
  rcases h with rfl | ⟨digits, hdigits, rfl⟩
  · exact List.forall_mem_nil _
  · exact List.forall_mem_cons.mpr ⟨rfl, isNumeric_of_isDigits hdigits⟩

/-- An exponent is numeric throughout. -/
theorem isNumeric_of_isExponent {exponent : List Char} (h : IsExponent exponent) :
    ∀ c ∈ exponent, isNumeric c = true := by
  rcases h with rfl | ⟨letter, signs, digits, hletter, hsigns, hdigits, rfl⟩
  · exact List.forall_mem_nil _
  · refine List.forall_mem_cons.mpr ⟨?_, List.forall_mem_append.mpr
      ⟨isNumeric_of_isSign hsigns, isNumeric_of_isDigits hdigits⟩⟩
    rcases hletter with rfl | rfl <;> rfl

/-- A number is written in numeric characters only. -/
theorem isNumeric_written (n : NumberParts) : ∀ c ∈ n.written, isNumeric c = true := by
  have hminus : ∀ c ∈ n.minus, isNumeric c = true := by
    rcases n.minus_eq with h | h <;> simp [h, isNumeric]
  rw [NumberParts.written]
  simp only [List.forall_mem_append]
  exact ⟨⟨⟨hminus, isNumeric_of_isDigits n.isDigits⟩, isNumeric_of_isFraction n.isFraction⟩,
    isNumeric_of_isExponent n.isExponent⟩

/-- Numeric characters are visible ASCII. -/
theorem toNat_of_isNumeric {c : Char} (h : isNumeric c = true) :
    0x21 ≤ c.toNat ∧ c.toNat < 0x80 := by
  simp only [isNumeric, Bool.or_eq_true, decide_eq_true_eq, List.mem_cons, List.not_mem_nil,
    or_false] at h
  rcases h with h | rfl | rfl | rfl | rfl | rfl
  · have := toNat_of_isNameContinue (isNameContinue_of_isDigit h)
    omega
  all_goals decide

/-! ## Texts in quotes -/

/-- A text is the part before its closing quote, the quote, and the rest. -/
theorem append_of_untilQuote? {text inner rest : List Char}
    (h : untilQuote? text = some (inner, rest)) : text = inner ++ '"' :: rest := by
  fun_induction untilQuote? text generalizing inner with
  | case1 => cases h
  | case2 =>
    cases h
    rfl
  | case3 => cases h
  | case4 c text _ ih =>
    obtain ⟨⟨inner', rest'⟩, hinner, h⟩ := Option.map_eq_some_iff.mp h
    cases h
    rw [ih hinner]
    rfl
  | case5 => cases h
  | case6 =>
    rename_i ih
    obtain ⟨⟨inner', rest'⟩, hinner, h⟩ := Option.map_eq_some_iff.mp h
    cases h
    rw [ih hinner]
    rfl

/-- A text is the part before its closing quotes, the quotes, and the rest. -/
theorem append_of_untilQuotes? {text inner rest : List Char}
    (h : untilQuotes? text = some (inner, rest)) :
    text = inner ++ '"' :: '"' :: '"' :: rest := by
  fun_induction untilQuotes? text generalizing inner with
  | case1 => cases h
  | case2 text ih =>
    obtain ⟨⟨inner', rest'⟩, hinner, h⟩ := Option.map_eq_some_iff.mp h
    cases h
    rw [ih hinner]
    rfl
  | case3 =>
    cases h
    rfl
  | case4 =>
    rename_i ih
    obtain ⟨⟨inner', rest'⟩, hinner, h⟩ := Option.map_eq_some_iff.mp h
    cases h
    rw [ih hinner]
    rfl

/-- A leading line end and what follows it make up the text. -/
theorem leadingLineEnd_append (text : List Char) :
    (leadingLineEnd text).1 ++ (leadingLineEnd text).2 = text := by
  unfold leadingLineEnd
  split
  · rfl
  · split <;> rfl

/-! ## What is found at the start of a text -/

/-- Whether what was found at the start of a text is a part of it that is not empty, and its size
is that of the part. -/
def Found.TakenFrom (text : List Char) (found : Found) : Prop :=
  ∃ taken, taken ≠ [] ∧ text = taken ++ found.rest ∧ found.size = Text.byteLength taken

/-- A number is taken off the front of the text. -/
theorem takenFrom_of_number? {text : List Char} {found : Found} (h : number? text = some found) :
    found.TakenFrom text := by
  obtain ⟨parts, htext, hsize, -⟩ := exists_parts_of_number? h
  refine ⟨parts.written, ?_, htext, ?_⟩
  · intro hnil
    have hdigits := parts.isDigits.1
    simp [NumberParts.written, hdigits] at hnil
  · rw [hsize, Text.byteLength_of_ascii]
    exact fun c hc => (toNat_of_isNumeric (isNumeric_written parts c hc)).2

/-- A quoted string is taken off the front of the text, its first quote included. -/
theorem takenFrom_of_quoted? {text : List Char} {found : Found} (h : quoted? text = some found) :
    found.TakenFrom ('"' :: text) := by
  obtain ⟨⟨inner, rest⟩, hinner, h⟩ := Option.bind_eq_some_iff.mp h
  obtain ⟨value, -, h⟩ := Option.bind_eq_some_iff.mp h
  change untilQuote? (leadingLineEnd text).2 = some (inner, rest) at hinner
  obtain rfl : ⟨.string (String.ofList ((leadingLineEnd text).1 ++ value)),
      Text.byteLength ((leadingLineEnd text).1 ++ inner) + 2, rest⟩ = found := Option.some.inj h
  refine ⟨'"' :: ((leadingLineEnd text).1 ++ inner ++ ['"']), List.cons_ne_nil _ _, ?_, ?_⟩
  · calc '"' :: text
        = '"' :: ((leadingLineEnd text).1 ++ (inner ++ '"' :: rest)) := by
          rw [← append_of_untilQuote? hinner, leadingLineEnd_append]
      _ = '"' :: ((leadingLineEnd text).1 ++ inner ++ ['"']) ++ rest := by simp
  · have hquote : '"'.utf8Size = 1 := rfl
    simp only [Text.byteLength_cons, Text.byteLength_append, Text.byteLength_nil, hquote]
    omega

/-- A block string is taken off the front of the text, its first quotes included. -/
theorem takenFrom_of_block? {text : List Char} {found : Found} (h : block? text = some found) :
    found.TakenFrom ('"' :: '"' :: '"' :: text) := by
  obtain ⟨⟨inner, rest⟩, hinner, h⟩ := Option.bind_eq_some_iff.mp h
  cases h
  refine ⟨'"' :: '"' :: '"' :: (inner ++ ['"', '"', '"']), List.cons_ne_nil _ _, ?_, ?_⟩
  · rw [append_of_untilQuotes? hinner]
    simp
  · have hquote : '"'.utf8Size = 1 := rfl
    simp only [Text.byteLength_cons, Text.byteLength_append, Text.byteLength_nil, hquote]
    omega

/-- A lexeme takes a part of the text that is not empty. Marks, names and numbers are ASCII, so
that their characters are their bytes. -/
theorem takenFrom_of_first? {text : List Char} {found : Found} (h : first? text = some found) :
    found.TakenFrom text := by
  unfold first? at h
  split at h
  · cases h
  · cases h
    exact ⟨['.', '.', '.'], by simp, rfl, rfl⟩
  · exact takenFrom_of_block? h
  · exact takenFrom_of_quoted? h
  · -- A mark is one byte, and so is every character of a name.
    rename_i c text _ _ _
    split at h
    · rename_i hmark
      cases h
      refine ⟨[c], by simp, rfl, ?_⟩
      rw [Text.byteLength_cons, Text.byteLength_nil,
        Text.utf8Size_of_ascii (toNat_lt_of_isMark hmark)]
    · split at h
      · rename_i hstart
        cases h
        refine ⟨c :: text.takeWhile isNameContinue, List.cons_ne_nil _ _, ?_, ?_⟩
        · rw [List.cons_append, List.takeWhile_append_dropWhile]
        · rw [Text.byteLength_of_ascii]
          have hcontinue : ∀ d ∈ c :: text.takeWhile isNameContinue, isNameContinue d = true :=
            List.forall_mem_cons.mpr ⟨isNameContinue_of_isNameStart hstart,
              List.all_eq_true.mp List.all_takeWhile⟩
          intro d hd
          have hbound := (toNat_of_isNameContinue (hcontinue d hd)).2
          omega
      · exact takenFrom_of_number? h

/-- Something is taken from a text in which a lexeme is found. -/
theorem length_first? {text : List Char} {found : Found} (h : first? text = some found) :
    found.rest.length < text.length := by
  obtain ⟨taken, hne, rfl, -⟩ := takenFrom_of_first? h
  rw [List.length_append]
  exact Nat.lt_add_of_pos_left (List.length_pos_iff.mpr hne)

end Lexeme

/-! ## Tokens -/

/-- Whether a span starts and ends between characters of a text, and later than it starts. -/
structure Span.StandsIn (text : List Char) (span : Span) : Prop where
  start : Text.IsBoundary text span.start
  stop : Text.IsBoundary text span.stop
  nonempty : span.start < span.stop

namespace Token

/-- The tokens that are found from an offset on stand in the text. -/
theorem standsIn_of_scanUpTo {fuel offset : Nat} {comma : Bool} {text : List Char}
    {tokens : List Token} (h : scanUpTo fuel offset comma text = some tokens) {before : List Char}
    (hoffset : Text.byteLength before = offset) :
    ∀ t ∈ tokens, t.span.StandsIn (before ++ text) := by
  fun_induction scanUpTo fuel offset comma text generalizing tokens before with
  | case1 =>
    cases h
    simp
  | case2 => cases h
  | case3 fuel offset comma c text hignored ih =>
    -- An ignored character joins the text in front of the offset.
    rw [List.append_cons before]
    apply ih h
    rw [Text.byteLength_append, hoffset]
    rfl
  | case4 fuel offset comma text comment stop _ =>
    rename_i ih
    -- So does a comment, up to the end of its line.
    have hcomment : before ++ '#' :: text =
        before ++ '#' :: comment ++ text.dropWhile (!Lexeme.isLineEnd ·) := by
      rw [List.append_assoc, List.cons_append, List.takeWhile_append_dropWhile]
    rw [hcomment]
    apply ih h
    rw [Text.byteLength_append, hoffset, Text.byteLength_cons, ← Nat.add_assoc]
    rfl
  | case5 => cases h
  | case6 fuel offset comma c text _ _ found hfound stop =>
    rename_i ih
    obtain ⟨rest, hrest, rfl⟩ := Option.map_eq_some_iff.mp h
    obtain ⟨taken, hne, htext, hsize⟩ := Lexeme.takenFrom_of_first? hfound
    have hstop : Text.byteLength (before ++ taken) = offset + found.size := by
      rw [Text.byteLength_append, hoffset, hsize]
    -- What is found is not empty, so that its token ends behind its start.
    have hpos : Text.byteLength taken ≠ 0 := fun h => hne (Text.eq_nil_of_byteLength h)
    rw [htext, ← List.append_assoc]
    refine List.forall_mem_cons.mpr ⟨⟨?_, ?_, ?_⟩, ih hrest hstop⟩
    · exact ⟨before, taken ++ found.rest, by rw [List.append_assoc], hoffset⟩
    · exact ⟨before ++ taken, found.rest, rfl, hstop⟩
    · show offset < offset + found.size
      omega

/-- The tokens of a text stand in it. -/
theorem standsIn_of_scan? {text : List Char} {tokens : List Token} (h : scan? text = some tokens) :
    ∀ t ∈ tokens, t.span.StandsIn text :=
  standsIn_of_scanUpTo h (rfl : Text.byteLength [] = 0)

end Token
end EmbeddedGraphQL
