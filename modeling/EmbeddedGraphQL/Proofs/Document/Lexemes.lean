import EmbeddedGraphQL.Document.Token

/-!
# Lexemes that a text can have

Not every lexeme comes from a text: a name has to be a name, and a number has to be written as one.
The scanner gives such lexemes only, and it gives them in the order in which they stand.

* `Lexeme.IsNumber`: how numbers are written.
* `Lexeme.Legal`: the lexemes that a text can have.
* `Token.InOrder`: tokens that stand one after the other.
* `Token.scanUpTo_sound`: what the scanner guarantees.
-/

namespace EmbeddedGraphQL
namespace Lexeme

/-- Whether a text is some digits. -/
def IsDigits (text : List Char) : Prop := text ≠ [] ∧ ∀ c ∈ text, c.isDigit

/-- Whether a text is a dot and digits, or nothing. -/
def IsFraction (text : List Char) : Prop :=
  text = [] ∨ ∃ digits, IsDigits digits ∧ text = '.' :: digits

/-- Whether a text is the sign of an exponent, or nothing. -/
def IsSign (text : List Char) : Prop := text = [] ∨ text = ['+'] ∨ text = ['-']

/-- Whether a text is an exponent, or nothing. -/
def IsExponent (text : List Char) : Prop :=
  text = [] ∨ ∃ letter signs digits, (letter = 'e' ∨ letter = 'E') ∧ IsSign signs ∧
    IsDigits digits ∧ text = letter :: (signs ++ digits)

/-- The parts of a written number. -/
structure NumberParts where
  /-- The minus sign, if there is one. -/
  minus : List Char
  /-- The digits in front of fraction and exponent. -/
  digits : List Char
  /-- The fraction, if there is one. -/
  fraction : List Char
  /-- The exponent, if there is one. -/
  exponent : List Char
  minus_eq : minus = [] ∨ minus = ['-']
  isDigits : IsDigits digits
  noLeadingZero : hasLeadingZero digits = false
  isFraction : IsFraction fraction
  isExponent : IsExponent exponent

namespace NumberParts

/-- The number as it is written. -/
def written (n : NumberParts) : List Char := n.minus ++ n.digits ++ n.fraction ++ n.exponent

/-- Whether the number has a fraction or an exponent. -/
def isFloat (n : NumberParts) : Bool := !(n.fraction.isEmpty && n.exponent.isEmpty)

end NumberParts

/-- Whether a text is a number with or without a fraction or exponent. -/
def IsNumber (isFloat : Bool) (text : String) : Prop :=
  ∃ n : NumberParts, n.isFloat = isFloat ∧ text = String.ofList n.written

/-- The lexemes that a text can have. -/
def Legal : Lexeme → Prop
  | .name text => isName text = true
  | .int digits => IsNumber false digits
  | .float digits => IsNumber true digits
  | .mark _ | .dots | .string _ => True

/-! ## What the scanner finds at the start of a text -/

/-- The digits at the start of a text are digits. -/
theorem isDigits_takeWhile {text : List Char} (h : (text.takeWhile Char.isDigit).isEmpty = false) :
    IsDigits (text.takeWhile Char.isDigit) :=
  ⟨by simpa using h, List.all_eq_true.mp List.all_takeWhile⟩

/-- What is read as a fraction is one. -/
theorem isFraction_of_fraction? {text fraction rest : List Char}
    (h : fraction? text = some (fraction, rest)) : IsFraction fraction := by
  unfold fraction? at h
  split at h
  · rename_i text
    simp only at h
    split at h
    · simp at h
    · rename_i hdigits
      simp only [Option.some.injEq, Prod.mk.injEq] at h
      exact Or.inr ⟨_, isDigits_takeWhile (by simpa using hdigits), h.1.symm⟩
  · simp only [Option.some.injEq, Prod.mk.injEq] at h
    exact Or.inl h.1.symm

/-- What is read as a sign is one. -/
theorem isSign_sign (text : List Char) : IsSign (sign text).1 := by
  unfold sign
  split
  · exact Or.inr (Or.inl rfl)
  · exact Or.inr (Or.inr rfl)
  · exact Or.inl rfl

/-- What is read as an exponent is one. -/
theorem isExponent_of_exponent? {text exponent rest : List Char}
    (h : exponent? text = some (exponent, rest)) : IsExponent exponent := by
  unfold exponent? at h
  split at h
  · simp only [Option.some.injEq, Prod.mk.injEq] at h
    exact Or.inl h.1.symm
  · rename_i c text
    split at h
    · rename_i hletter
      simp only at h
      split at h
      · simp at h
      · rename_i hdigits
        simp only [Option.some.injEq, Prod.mk.injEq] at h
        refine Or.inr ⟨c, _, _, by simpa using hletter, isSign_sign text,
          isDigits_takeWhile (by simpa using hdigits), h.1.symm⟩
    · simp only [Option.some.injEq, Prod.mk.injEq] at h
      exact Or.inl h.1.symm

/-- The minus sign at the start of a text, if there is one, and the rest. -/
def minusSign (text : List Char) : List Char × List Char :=
  match text with
  | '-' :: text => (['-'], text)
  | _ => ([], text)

/-- A number is read part by part. -/
theorem number?_eq (text : List Char) :
    number? text =
      if ((minusSign text).2.takeWhile Char.isDigit).isEmpty ||
          hasLeadingZero ((minusSign text).2.takeWhile Char.isDigit) then none
      else
        (fraction? ((minusSign text).2.dropWhile Char.isDigit)).bind fun fraction =>
          (exponent? fraction.2).bind fun exponent =>
            if continuesNumber (!(fraction.1.isEmpty && exponent.1.isEmpty)) exponent.2 then none
            else
              let written := (minusSign text).1 ++ (minusSign text).2.takeWhile Char.isDigit ++
                fraction.1 ++ exponent.1
              some ⟨if !(fraction.1.isEmpty && exponent.1.isEmpty) then
                  .float (String.ofList written) else .int (String.ofList written),
                written.length, exponent.2⟩ := by
  rfl

/-- What is read as a minus sign is one. -/
theorem minusSign_eq (text : List Char) : (minusSign text).1 = [] ∨ (minusSign text).1 = ['-'] := by
  unfold minusSign
  split
  · exact Or.inr rfl
  · exact Or.inl rfl

/-- A minus and what is left make up the text. -/
theorem minusSign_append_rest (text : List Char) :
    (minusSign text).1 ++ (minusSign text).2 = text := by
  unfold minusSign
  split <;> rfl

/-- A fraction and what is left make up the text. -/
theorem append_of_fraction? {text fraction rest : List Char}
    (h : fraction? text = some (fraction, rest)) : fraction ++ rest = text := by
  unfold fraction? at h
  split at h
  · simp only at h
    split at h
    · cases h
    · cases h
      rw [List.cons_append, List.takeWhile_append_dropWhile]
  · cases h
    rfl

/-- A sign and what is left make up the text. -/
theorem sign_append_rest (text : List Char) : (sign text).1 ++ (sign text).2 = text := by
  unfold sign
  split <;> rfl

/-- An exponent and what is left make up the text. -/
theorem append_of_exponent? {text exponent rest : List Char}
    (h : exponent? text = some (exponent, rest)) : exponent ++ rest = text := by
  unfold exponent? at h
  split at h
  · cases h
    rfl
  · rename_i c text
    split at h
    · simp only at h
      split at h
      · cases h
      · cases h
        rw [List.cons_append, List.append_assoc, List.takeWhile_append_dropWhile,
          sign_append_rest]
    · cases h
      rfl

/-- What is read as a number is one, and stands at the start of the text. -/
theorem exists_parts_of_number? {text : List Char} {found : Found}
    (h : number? text = some found) :
    ∃ n : NumberParts, text = n.written ++ found.rest ∧ found.size = n.written.length ∧
      found.lexeme = if n.isFloat then .float (String.ofList n.written)
        else .int (String.ofList n.written) := by
  rw [number?_eq] at h
  split at h
  · cases h
  · rename_i hdigits
    obtain ⟨hsome, hzero⟩ : _ ∧ _ := by simpa using hdigits
    obtain ⟨fraction, hfraction, h⟩ := Option.bind_eq_some_iff.mp h
    obtain ⟨exponent, hexponent, h⟩ := Option.bind_eq_some_iff.mp h
    split at h
    · cases h
    · cases h
      let parts : NumberParts :=
        { minus := (minusSign text).1
          digits := (minusSign text).2.takeWhile Char.isDigit
          fraction := fraction.1
          exponent := exponent.1
          minus_eq := minusSign_eq text
          isDigits := isDigits_takeWhile (by simpa using hsome)
          noLeadingZero := hzero
          isFraction := isFraction_of_fraction? hfraction
          isExponent := isExponent_of_exponent? hexponent }
      refine ⟨parts, ?_, rfl, rfl⟩
      -- The parts are taken one after the other.
      calc text = (minusSign text).1 ++ (minusSign text).2 := (minusSign_append_rest text).symm
        _ = (minusSign text).1 ++ ((minusSign text).2.takeWhile Char.isDigit ++
              (fraction.1 ++ (exponent.1 ++ exponent.2))) := by
            rw [append_of_exponent? hexponent, append_of_fraction? hfraction,
              List.takeWhile_append_dropWhile]
        _ = parts.written ++ exponent.2 := by simp [parts, NumberParts.written]

/-- What is read as a number is one. -/
theorem legal_of_number? {text : List Char} {found : Found} (h : number? text = some found) :
    found.lexeme.Legal := by
  obtain ⟨parts, -, -, hlexeme⟩ := exists_parts_of_number? h
  rw [hlexeme]
  cases hfloat : parts.isFloat
  · exact ⟨parts, hfloat, rfl⟩
  · exact ⟨parts, hfloat, rfl⟩

/-- What is read as a name is one. -/
theorem isName_ofList {c : Char} (hc : isNameStart c = true) (text : List Char) :
    isName (String.ofList (c :: text.takeWhile isNameContinue)) = true := by
  simp [isName, hc, List.all_takeWhile]

/-- What is found at the start of a text is a lexeme that a text can have. -/
theorem legal_of_first? {text : List Char} {found : Found} (h : first? text = some found) :
    found.lexeme.Legal := by
  -- One case for each way in which a lexeme starts; only names and numbers have to be looked at.
  unfold first? at h
  split at h
  · simp at h
  · cases h
    trivial
  · obtain ⟨inner, -, h⟩ := Option.bind_eq_some_iff.mp h
    cases h
    trivial
  · obtain ⟨inner, -, h⟩ := Option.bind_eq_some_iff.mp h
    obtain ⟨value, -, h⟩ := Option.bind_eq_some_iff.mp h
    cases h
    trivial
  · split at h
    · cases h
      trivial
    · split at h
      · rename_i hstart
        cases h
        exact isName_ofList hstart _
      · exact legal_of_number? h

end Lexeme

namespace Token

/-- Whether tokens stand one after the other, from a byte offset on. -/
def InOrder : Nat → List Token → Prop
  | _, [] => True
  | offset, t :: rest =>
    offset ≤ t.span.start ∧ t.span.start ≤ t.span.stop ∧ InOrder t.span.stop rest

/-- Tokens that stand after a place stand after every place before it. -/
theorem InOrder.mono {tokens : List Token} {n m : Nat} (hnm : n ≤ m) (h : InOrder m tokens) :
    InOrder n tokens := by
  cases tokens with
  | nil => trivial
  | cons t rest => exact ⟨Nat.le_trans hnm h.1, h.2⟩

/-- The scanner gives tokens in order, with lexemes that a text can have. -/
theorem scanUpTo_sound {fuel offset : Nat} {comma : Bool} {text : List Char}
    {tokens : List Token} (h : scanUpTo fuel offset comma text = some tokens) :
    InOrder offset tokens ∧ ∀ t ∈ tokens, t.lexeme.Legal := by
  fun_induction scanUpTo fuel offset comma text generalizing tokens with
  | case1 fuel offset comma =>
    cases h
    exact ⟨trivial, by simp⟩
  | case2 => simp at h
  | case3 offset comma fuel c text hignored ih =>
    obtain ⟨horder, hlegal⟩ := ih h
    exact ⟨horder.mono (by omega), hlegal⟩
  | case4 =>
    rename_i ih
    obtain ⟨horder, hlegal⟩ := ih h
    exact ⟨horder.mono (Nat.le_add_right_of_le (Nat.le_succ _)), hlegal⟩
  | case5 => simp at h
  | case6 =>
    rename_i found hfound stop ih
    -- The next token starts where the one that is found ends, or further on.
    obtain ⟨rest, hrest, rfl⟩ := Option.map_eq_some_iff.mp h
    obtain ⟨horder, hlegal⟩ := ih hrest
    refine ⟨⟨Nat.le_refl _, Nat.le_add_right _ _, horder⟩, ?_⟩
    intro t ht
    rcases List.mem_cons.mp ht with rfl | ht
    · exact Lexeme.legal_of_first? hfound
    · exact hlegal t ht

end Token
end EmbeddedGraphQL
