import EmbeddedGraphQL.Proofs.Document.TokenText
import EmbeddedGraphQL.Proofs.Lists

/-!
# Glyphs of a text

A token knows where it stands and whether a comma stands in front of it. What a text is made of can
be said without either: it is a row of lexemes and commas. Such rows are put together by appending
them, as texts are, and the tokens of a text are its glyphs with the commas turned into remarks.

* `Glyph`: a lexeme or a comma.
* `Glyph.scan?`: the glyphs of a text.
* `Glyph.keys`: lexemes and whether a comma stands in front of them.
* `Token.map_key_scan?`: the tokens of a text are its glyphs.
-/

namespace EmbeddedGraphQL

/-! ## Glyphs -/

/-- What a text is made of, blanks and comments apart. -/
inductive Glyph where
  /-- A comma. -/
  | comma
  /-- A lexeme. -/
  | lexeme (l : Lexeme)
deriving DecidableEq

namespace Glyph

/-- The glyphs of a text; `fuel` bounds the number of characters. -/
def scanUpTo : Nat → List Char → Option (List Glyph)
  | _, [] => some []
  | 0, _ :: _ => none
  | fuel + 1, c :: text =>
    if c = ',' then (scanUpTo fuel text).map (.comma :: ·)
    else if Lexeme.isIgnored c then scanUpTo fuel text
    else if c = '#' then scanUpTo fuel (text.dropWhile (!Lexeme.isLineEnd ·))
    else (Lexeme.first? (c :: text)).bind fun found =>
      (scanUpTo fuel found.rest).map (.lexeme found.lexeme :: ·)

/-- The glyphs of a text. -/
def scan? (text : List Char) : Option (List Glyph) := scanUpTo text.length text

/-- Lexemes and whether a comma stands in front of each, where `behind` tells it of the first. -/
def keys : Bool → List Glyph → List (Lexeme × Bool)
  | _, [] => []
  | _, .comma :: gs => keys true gs
  | behind, .lexeme l :: gs => (l, behind) :: keys false gs

/-- More fuel than characters changes nothing. -/
theorem scanUpTo_eq_scanUpTo {fuel fuel' : Nat} {text : List Char} (h : text.length ≤ fuel)
    (h' : text.length ≤ fuel') : scanUpTo fuel text = scanUpTo fuel' text := by
  induction fuel generalizing fuel' text with
  | zero =>
    rw [List.eq_nil_of_length_eq_zero (Nat.le_zero.mp h), scanUpTo, scanUpTo]
  | succ fuel ih =>
    cases text with
    | nil => rw [scanUpTo, scanUpTo]
    | cons c text =>
      rw [List.length_cons] at h h'
      obtain ⟨fuel', rfl⟩ := Nat.exists_eq_add_of_lt (Nat.lt_of_lt_of_le (Nat.zero_lt_succ _) h')
      rw [Nat.zero_add] at h' ⊢
      -- Whatever comes first, what is left is shorter, and both amounts of fuel are enough for it.
      have hdrop := (List.dropWhile_suffix (l := text) (!Lexeme.isLineEnd ·)).length_le
      have hrest := @ih fuel' text (by omega) (by omega)
      have hcomment := @ih fuel' (text.dropWhile (!Lexeme.isLineEnd ·)) (by omega) (by omega)
      rw [scanUpTo, scanUpTo, hrest, hcomment]
      cases hfirst : Lexeme.first? (c :: text) with
      | none => rfl
      | some found =>
        have hlt := Lexeme.length_first? hfirst
        rw [List.length_cons] at hlt
        have hfound := @ih fuel' found.rest (by omega) (by omega)
        rw [Option.bind_some, Option.bind_some, hfound]

/-- A text is scanned with any fuel that suffices. -/
theorem scanUpTo_eq_scan? {fuel : Nat} {text : List Char} (h : text.length ≤ fuel) :
    scanUpTo fuel text = scan? text := scanUpTo_eq_scanUpTo h (Nat.le_refl _)

@[simp] theorem scan?_nil : scan? [] = some [] := rfl

@[simp] theorem scan?_comma (text : List Char) :
    scan? (',' :: text) = (scan? text).map (.comma :: ·) := rfl

/-- Blanks and line ends are no glyphs. -/
theorem scan?_ignored {c : Char} (h : Lexeme.isIgnored c = true) (hcomma : c ≠ ',')
    (text : List Char) : scan? (c :: text) = scan? text := by
  rw [scan?, List.length_cons, scanUpTo, if_neg hcomma, if_pos h]
  rfl

/-- A text that starts neither with a blank nor with a comment starts with a lexeme or not at
all. -/
theorem scan?_cons {c : Char} (h : Lexeme.isIgnored c = false) (hcomment : c ≠ '#')
    (text : List Char) :
    scan? (c :: text) = (Lexeme.first? (c :: text)).bind fun found =>
      (scan? found.rest).map (.lexeme found.lexeme :: ·) := by
  have hcomma : c ≠ ',' := by
    rintro rfl
    exact absurd h (by decide)
  rw [scan?, List.length_cons, scanUpTo, if_neg hcomma, h, if_neg Bool.false_ne_true,
    if_neg hcomment]
  refine Option.bind_congr fun found hfound => ?_
  have hlt := Lexeme.length_first? hfound
  rw [scanUpTo_eq_scan? (Nat.le_of_lt_succ hlt)]

end Glyph

namespace Token

/-- What the grammar knows of a token, its place apart. -/
def key (t : Token) : Lexeme × Bool := (t.lexeme, t.afterComma)

/-- The keys of the tokens that are scanned are those of the glyphs. -/
theorem map_key_scanUpTo (fuel offset : Nat) (comma : Bool) (text : List Char) :
    (scanUpTo fuel offset comma text).map (List.map key) =
      (Glyph.scanUpTo fuel text).map (Glyph.keys comma) := by
  fun_induction scanUpTo fuel offset comma text with
  | case1 => simp [Glyph.scanUpTo, Glyph.keys]
  | case2 => rfl
  | case3 fuel offset comma c text hignored ih =>
    rw [ih, Glyph.scanUpTo, if_pos hignored]
    -- A comma is ignored by both, but the next token is marked as one behind a comma.
    by_cases hcomma : c = ','
    · rw [if_pos hcomma, Option.map_map, hcomma, beq_self_eq_true, Bool.or_true]
      rfl
    · rw [if_neg hcomma, beq_false_of_ne hcomma, Bool.or_false]
  | case4 =>
    rename_i hignored hcomment _ _ ih
    subst hcomment
    rw [ih]
    rfl
  | case5 fuel offset comma c text hignored hcomment hfirst =>
    have hcomma : c ≠ ',' := by
      rintro rfl
      exact absurd rfl hignored
    rw [Glyph.scanUpTo, if_neg hcomma, if_neg hignored, if_neg hcomment, hfirst]
    rfl
  | case6 fuel offset comma c text hignored hcomment found hfirst stop ih =>
    have hcomma : c ≠ ',' := by
      rintro rfl
      exact absurd rfl hignored
    rw [Glyph.scanUpTo, if_neg hcomma, if_neg hignored, if_neg hcomment, hfirst,
      Option.bind_some, Option.map_map, Option.map_map]
    -- A token uses up the comma in front of it.
    have hkeys := congrArg (Option.map (List.cons (found.lexeme, comma))) ih
    rw [Option.map_map, Option.map_map] at hkeys
    exact hkeys

/-- The tokens of a text are its glyphs. -/
theorem map_key_scan? (text : List Char) :
    (scan? text).map (List.map key) = (Glyph.scan? text).map (Glyph.keys false) :=
  map_key_scanUpTo text.length 0 false text

end Token
end EmbeddedGraphQL
