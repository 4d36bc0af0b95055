/-!
# Sets of characters, and blanks

A set of characters is given by the ascending code points at which membership changes: the first
code point inside, the first one outside again, and so on.

A character is blank when it has the Unicode property White_Space. Trimming and the gaps allowed
inside tags and module declarations go by this property.

* `CharSet`: sets of characters.
* `Text.isBlank`, `Text.trim`: blanks, and texts without those around them.
-/

namespace EmbeddedGraphQL

/-- A set of characters, given by the code points at which membership changes. -/
structure CharSet where
  /-- The code points at which membership changes, in ascending order. -/
  changes : List Nat

namespace CharSet

/-- Whether a character is in the set: an odd number of changes stand at or before it. -/
def contains (s : CharSet) (c : Char) : Bool :=
  s.changes.countP (· ≤ c.toNat) % 2 == 1

end CharSet

namespace Text

/-- The characters with the property White_Space. -/
def blankSet : CharSet :=
  ⟨[0x9, 0xE, 0x20, 0x21, 0x85, 0x86, 0xA0, 0xA1, 0x1680, 0x1681, 0x2000, 0x200B, 0x2028, 0x202A,
    0x202F, 0x2030, 0x205F, 0x2060, 0x3000, 0x3001]⟩

/-- Whether a character is white space. -/
def isBlank (c : Char) : Bool := blankSet.contains c

/-- A text without its leading blanks. -/
def trimStart (text : List Char) : List Char := text.dropWhile isBlank

/-- A text without its trailing blanks. -/
def trimEnd (text : List Char) : List Char := (text.reverse.dropWhile isBlank).reverse

/-- A text without its leading and trailing blanks. -/
def trim (text : List Char) : List Char := trimEnd (trimStart text)

/-- The blanks at the start of a text. -/
def leadingBlanks (text : List Char) : List Char := text.takeWhile isBlank

/-- The blanks at the end of a text. -/
def trailingBlanks (text : List Char) : List Char := (text.reverse.takeWhile isBlank).reverse

/-- Whether a text holds nothing but blanks. -/
def isAllBlank (text : List Char) : Bool := text.all isBlank

/-- A string without its leading and trailing blanks. -/
def trimString (s : String) : String := String.ofList (trim s.toList)

/-- A string without its trailing blanks. -/
def trimEndString (s : String) : String := String.ofList (trimEnd s.toList)

/-- The leading blanks and the rest make up the text. -/
theorem leadingBlanks_append_trimStart (text : List Char) :
    leadingBlanks text ++ trimStart text = text := by
  simp [leadingBlanks, trimStart]

/-- The trimmed text and its trailing blanks make up the text. -/
theorem trimEnd_append_trailingBlanks (text : List Char) :
    trimEnd text ++ trailingBlanks text = text := by
  simp [trimEnd, trailingBlanks, ← List.reverse_append]

end Text
end EmbeddedGraphQL
