import EmbeddedGraphQL.Text.Blank
import EmbeddedGraphQL.Text.Measure
import EmbeddedGraphQL.Text.Word

/-!
# What a host text is searched for

A region opens with `%`, one of the configured tags, `(`, optional blanks and a backtick, and
closes at the next backtick that no backslash escapes. The opening is searched over characters,
the closing over bytes: a backslash skips the byte after it.

A line declares a module where it reads `module`, blanks, a word, optional blanks and `=`. The
leftmost such place on a line gives the line's module name.

* `Opening.here?`: the opening at the very start of a text.
* `Opening.find?`: the leftmost opening of a text.
* `closing?`: the number of bytes before the closing backtick.
* `ModuleName.declared?`: the module that a line declares.
-/

namespace EmbeddedGraphQL

/-! ## Openings and closings -/

/-- An opening found in a text. -/
structure Opening where
  /-- The byte offset of the `%`. -/
  start : Nat
  /-- The byte offset after the backtick. -/
  stop : Nat
  /-- The text after the backtick. -/
  rest : List Char
deriving DecidableEq

namespace Opening

/-- The part of an opening after its tag: `(`, optional blanks and a backtick. Gives the text after
the backtick. -/
def afterTag? : List Char → Option (List Char)
  | '(' :: text =>
    match Text.trimStart text with
    | '`' :: rest => some rest
    | _ => none
  | _ => none

/-- The opening at the very start of a text, with the first tag that fits. Gives the text after the
backtick. -/
def here? (tags : List (List Char)) : List Char → Option (List Char)
  | '%' :: text => tags.findSome? fun tag => (tag.isPrefixOf? text).bind afterTag?
  | _ => none

/-- The leftmost opening of a text that starts at byte offset `offset`. -/
def find? (tags : List (List Char)) (offset : Nat) : List Char → Option Opening
  | [] => none
  | c :: text =>
    match here? tags (c :: text) with
    | some rest =>
      some ⟨offset, offset + (Text.byteLength (c :: text) - Text.byteLength rest), rest⟩
    -- the search goes on by characters while offsets count bytes
    | none => find? tags (offset + c.utf8Size) text

/-- What follows a word is no longer than the text. -/
theorem length_of_isPrefixOf? {word text rest : List Char} (h : word.isPrefixOf? text = some rest) :
    rest.length ≤ text.length := by
  induction word generalizing text with
  | nil =>
    obtain rfl := Option.some.inj h
    exact Nat.le_refl _
  | cons w word ih =>
    cases text with
    | nil => cases h
    | cons c text =>
      -- One character is compared, and the rest of the word with the rest of the text.
      change (if w == c then word.isPrefixOf? text else none) = some rest at h
      split at h
      · exact Nat.le_succ_of_le (ih h)
      · cases h

/-- What follows the part after a tag is shorter than the text. -/
theorem length_of_afterTag? {text rest : List Char} (h : afterTag? text = some rest) :
    rest.length < text.length := by
  unfold afterTag? at h
  split at h
  · rename_i tail
    split at h
    · rename_i r hr
      simp only [Option.some.injEq] at h
      subst h
      have hle := (List.dropWhile_suffix (l := tail) Text.isBlank).length_le
      simp only [Text.trimStart] at hr
      simp only [hr, List.length_cons] at hle
      simp only [List.length_cons]
      omega
    · simp at h
  · simp at h

/-- What follows an opening is shorter than the text. -/
theorem length_of_here? {tags : List (List Char)} {text rest : List Char}
    (h : here? tags text = some rest) : rest.length < text.length := by
  unfold here? at h
  split at h
  · rename_i tail
    obtain ⟨tag, -, htag⟩ := List.exists_of_findSome?_eq_some h
    obtain ⟨mid, hmid, hrest⟩ := Option.bind_eq_some_iff.mp htag
    have h1 := length_of_afterTag? hrest
    have h2 := length_of_isPrefixOf? hmid
    simp only [List.length_cons]
    omega
  · simp at h

/-- What follows the leftmost opening is shorter than the text. -/
theorem length_of_find? {tags : List (List Char)} {offset : Nat} {text : List Char} {o : Opening}
    (h : find? tags offset text = some o) : o.rest.length < text.length := by
  induction text generalizing offset with
  | nil => simp [find?] at h
  | cons c text ih =>
    unfold find? at h
    split at h
    · rename_i rest hrest
      simp only [Option.some.injEq] at h
      subst h
      exact length_of_here? hrest
    · have := ih h
      simp only [List.length_cons]
      omega

end Opening

/-- The number of bytes before the first backtick that no backslash escapes. -/
def closing? : List UInt8 → Option Nat
  | [] => none
  | 0x5C :: [] => none
  -- if this skips the first byte of a longer character, the other bytes of that character are
  -- neither a backslash nor a backtick
  | 0x5C :: _ :: bytes => (closing? bytes).map (· + 2)
  | 0x60 :: _ => some 0
  | _ :: bytes => (closing? bytes).map (· + 1)

/-! ## Module declarations -/

namespace ModuleName

/-- The module name declared at the very start of a text. -/
def declaredHere? (text : List Char) : Option (List Char) :=
  match "module".toList.isPrefixOf? text with
  | none => none
  | some rest =>
    let afterBlanks := Text.trimStart rest
    let name := afterBlanks.takeWhile Text.isWord
    let afterName := Text.trimStart (afterBlanks.dropWhile Text.isWord)
    if (Text.leadingBlanks rest).isEmpty || name.isEmpty then none
    else if afterName.head? = some '=' then some name else none

/-- The module name of the leftmost declaration on a line. -/
def declared? : List Char → Option (List Char)
  | [] => none
  | c :: line => (declaredHere? (c :: line)).or (declared? line)

end ModuleName
end EmbeddedGraphQL
