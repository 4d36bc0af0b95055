import EmbeddedGraphQL.Region.Opening
import EmbeddedGraphQL.Proofs.Text.Pieces

/-!
# Where a region closes

The closing backtick is searched over bytes, with a backslash that skips a byte. In the encoding of
a text no byte of a longer character looks like a backslash or a backtick, so that the search may as
well be done over characters.

* `Text.isSealed`: texts that hold no backtick but escaped ones, and no escape left open.
* `close?`: the search over characters.
* `closing?_utf8`: the search over bytes finds the same place.
* `close?_eq_some_iff`: a region closes after a sealed text.
-/

namespace EmbeddedGraphQL

/-- Whether every backtick of a text is behind a backslash of its own, and no such backslash comes
last. -/
def Text.isSealed : List Char → Bool
  | [] => true
  | ['\\'] => false
  | '\\' :: _ :: rest => isSealed rest
  | '`' :: _ => false
  | _ :: rest => isSealed rest

/-- The text before the first backtick that no backslash escapes, and the text after it. -/
def close? : List Char → Option (List Char × List Char)
  | [] => none
  | ['\\'] => none
  | '\\' :: c :: rest => (close? rest).map fun (before, after) => ('\\' :: c :: before, after)
  | '`' :: rest => some ([], rest)
  | c :: rest => (close? rest).map fun (before, after) => (c :: before, after)

/-- A character behind which a backslash has neither nothing nor something is no backslash. -/
theorem ne_backslash {c : Char} {rest : List Char} (hend : c = '\\' → rest = [] → False)
    (hescape : ∀ d tail, c = '\\' → rest = d :: tail → False) : c ≠ '\\' := by
  intro hslash
  cases rest with
  | nil => exact hend hslash rfl
  | cons d tail => exact hescape d tail hslash rfl

/-- A plain character in front does not matter for whether a text is sealed. -/
theorem Text.isSealed_cons {c : Char} (hslash : c ≠ '\\') (htick : c ≠ '`') (rest : List Char) :
    Text.isSealed (c :: rest) = Text.isSealed rest := by
  rw [Text.isSealed]
  · exact fun h => absurd h hslash
  · exact fun _ _ h => absurd h hslash
  · exact htick

/-- A plain character in front is part of what is closed. -/
theorem close?_cons {c : Char} (hslash : c ≠ '\\') (htick : c ≠ '`') (rest : List Char) :
    close? (c :: rest) = (close? rest).map fun (before, after) => (c :: before, after) := by
  rw [close?]
  · exact fun h => absurd h hslash
  · exact fun _ _ h => absurd h hslash
  · exact htick

/-! ## Bytes -/

/-- Whether a byte means nothing to the search. -/
def IsPlainByte (b : UInt8) : Prop := b ≠ 0x5C ∧ b ≠ 0x60

/-- The bytes of any character but a backslash and a backtick mean nothing to the search. -/
theorem isPlainByte_of_mem {c : Char} (hslash : c ≠ '\\') (htick : c ≠ '`') :
    ∀ b ∈ String.utf8EncodeChar c, IsPlainByte b := by
  intro b hb
  have hchar : b.toNat < 0x80 → c.toNat = b.toNat := Text.toNat_eq_of_mem_utf8EncodeChar hb
  constructor
  · rintro rfl
    exact hslash (Char.toNat_inj.mp (hchar (by decide)))
  · rintro rfl
    exact htick (Char.toNat_inj.mp (hchar (by decide)))

/-- Bytes that mean nothing to the search are passed over. -/
theorem closing?_append {bytes : List UInt8} (h : ∀ b ∈ bytes, IsPlainByte b)
    (rest : List UInt8) : closing? (bytes ++ rest) = (closing? rest).map (· + bytes.length) := by
  induction bytes with
  | nil => simp
  | cons b bytes ih =>
    obtain ⟨hb, hbytes⟩ := List.forall_mem_cons.mp h
    rw [List.cons_append, closing?, ih hbytes, Option.map_map]
    · rfl
    · exact fun hslash => absurd hslash hb.1
    · exact fun _ _ hslash => absurd hslash hb.1
    · exact hb.2

/-- A backslash and the character behind it are passed over. -/
theorem closing?_escape (c : Char) (rest : List UInt8) :
    closing? (0x5C :: (String.utf8EncodeChar c ++ rest)) =
      (closing? rest).map (· + (c.utf8Size + 1)) := by
  obtain ⟨b, bytes, hbytes⟩ : ∃ b bytes, String.utf8EncodeChar c = b :: bytes :=
    List.exists_cons_of_ne_nil (List.ne_nil_of_length_pos (by simp [Char.utf8Size_pos]))
  have hsize : c.utf8Size = bytes.length + 1 := by
    rw [← String.length_utf8EncodeChar, hbytes, List.length_cons]
  -- Behind the byte that is skipped stand the other bytes of a longer character, if any.
  have hplain : ∀ x ∈ bytes, IsPlainByte x := by
    by_cases hspecial : c = '\\' ∨ c = '`'
    · have hnil : bytes = [] := by
        rcases hspecial with rfl | rfl <;> exact (List.cons.inj hbytes).2.symm
      simp [hnil]
    · rw [not_or] at hspecial
      intro x hx
      exact isPlainByte_of_mem hspecial.1 hspecial.2 x (hbytes ▸ List.mem_cons_of_mem b hx)
  rw [hbytes, List.cons_append, closing?, closing?_append hplain, Option.map_map, hsize]
  rfl

/-- The search over bytes finds the place that the search over characters finds. -/
theorem closing?_utf8 (text : List Char) :
    closing? (Text.utf8 text) = (close? text).map fun parts => Text.byteLength parts.1 := by
  -- The bytes are searched as the characters are: no byte of a longer character is a backslash or a
  -- backtick.
  fun_induction close? text with
  | case1 => rfl
  | case2 => rfl
  | case3 c rest ih =>
    have hutf8 : Text.utf8 ('\\' :: c :: rest) =
        0x5C :: (String.utf8EncodeChar c ++ Text.utf8 rest) := rfl
    rw [hutf8, closing?_escape, ih, Option.map_map, Option.map_map]
    congr 1
    funext parts
    simp only [Function.comp_apply, Text.byteLength_cons]
    have hslash : '\\'.utf8Size = 1 := rfl
    omega
  | case4 rest => rfl
  | case5 c rest hend hescape htick ih =>
    have hslash := ne_backslash hend hescape
    have hutf8 : Text.utf8 (c :: rest) = String.utf8EncodeChar c ++ Text.utf8 rest := rfl
    rw [hutf8, closing?_append (isPlainByte_of_mem hslash htick), ih, Option.map_map,
      Option.map_map]
    congr 1
    funext parts
    simp only [Function.comp_apply, Text.byteLength_cons, String.length_utf8EncodeChar]
    omega

/-! ## Sealed texts -/

/-- A region closes after a sealed text, and only there. -/
theorem close?_eq_some_iff {text before after : List Char} :
    close? text = some (before, after) ↔
      Text.isSealed before = true ∧ text = before ++ '`' :: after := by
  constructor
  · intro h
    fun_induction close? text generalizing before with
    | case1 => cases h
    | case2 => cases h
    | case3 c rest ih =>
      obtain ⟨⟨inner, _⟩, hinner, h⟩ := Option.map_eq_some_iff.mp h
      cases h
      obtain ⟨hsealed, rfl⟩ := ih hinner
      exact ⟨hsealed, rfl⟩
    | case4 rest =>
      cases h
      exact ⟨rfl, rfl⟩
    | case5 c rest hend hescape htick ih =>
      obtain ⟨⟨inner, _⟩, hinner, h⟩ := Option.map_eq_some_iff.mp h
      cases h
      obtain ⟨hsealed, rfl⟩ := ih hinner
      rw [Text.isSealed_cons (ne_backslash hend hescape) htick]
      exact ⟨hsealed, rfl⟩
  · rintro ⟨h, rfl⟩
    -- The search follows the text up to the backtick: what is sealed gives it no reason to stop.
    fun_induction Text.isSealed before with
    | case1 => rfl
    | case2 => cases h
    | case3 c rest ih =>
      rw [List.cons_append, List.cons_append, close?, ih h]
      rfl
    | case4 => cases h
    | case5 c rest hend hescape htick ih =>
      rw [List.cons_append, close?_cons (ne_backslash hend hescape) htick, ih h]
      rfl

end EmbeddedGraphQL
