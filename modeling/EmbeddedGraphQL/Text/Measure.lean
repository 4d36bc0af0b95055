/-!
# Sizes and cuts of text

Texts are lists of characters. Offsets into them count UTF-8 bytes, columns count UTF-16 code
units, so each character has two sizes, and a text is cut at a byte offset.

* `total`: the sum of a measure over a list.
* `byteLength`, `unitLength`: the two sizes of a text.
* `takeBytes`, `dropBytes`: the two parts of a text cut at a byte offset.
* `utf8`: the bytes of a text.
-/

namespace EmbeddedGraphQL
namespace Text

/-- The number of UTF-16 code units of a character: two outside the basic plane. -/
def utf16Size (c : Char) : Nat := if c.toNat < 0x10000 then 1 else 2

/-- The sum of a measure over a list. -/
def total {α : Type} (measure : α → Nat) : List α → Nat
  | [] => 0
  | a :: rest => measure a + total measure rest

/-- The number of UTF-8 bytes of a text. -/
def byteLength (text : List Char) : Nat := total Char.utf8Size text

/-- The number of UTF-16 code units of a text. -/
def unitLength (text : List Char) : Nat := total utf16Size text

/-- The UTF-8 bytes of a text. -/
def utf8 (text : List Char) : List UInt8 := text.flatMap String.utf8EncodeChar

/-- The characters of `text` that start before byte offset `n`. -/
def takeBytes : Nat → List Char → List Char
  | 0, _ => []
  | _ + 1, [] => []
  | n + 1, c :: text => c :: takeBytes (n + 1 - c.utf8Size) text

/-- The characters of `text` that start at or after byte offset `n`. -/
def dropBytes : Nat → List Char → List Char
  | 0, text => text
  | _ + 1, [] => []
  | n + 1, c :: text => dropBytes (n + 1 - c.utf8Size) text

/-- The sum over two lists in a row. -/
theorem total_append {α : Type} (measure : α → Nat) (s t : List α) :
    total measure (s ++ t) = total measure s + total measure t := by
  induction s with
  | nil => simp [total]
  | cons a s ih => simp [total, ih, Nat.add_assoc]

@[simp] theorem byteLength_nil : byteLength [] = 0 := rfl

@[simp] theorem byteLength_cons (c : Char) (text : List Char) :
    byteLength (c :: text) = c.utf8Size + byteLength text := rfl

@[simp] theorem byteLength_append (s t : List Char) :
    byteLength (s ++ t) = byteLength s + byteLength t := total_append Char.utf8Size s t

@[simp] theorem unitLength_nil : unitLength [] = 0 := rfl

@[simp] theorem unitLength_cons (c : Char) (text : List Char) :
    unitLength (c :: text) = utf16Size c + unitLength text := rfl

@[simp] theorem unitLength_append (s t : List Char) :
    unitLength (s ++ t) = unitLength s + unitLength t := total_append utf16Size s t

/-- Cutting a text loses nothing. -/
theorem takeBytes_append_dropBytes (n : Nat) (text : List Char) :
    takeBytes n text ++ dropBytes n text = text := by
  induction text generalizing n with
  | nil => cases n <;> rfl
  | cons c text ih =>
    cases n with
    | zero => rfl
    | succ n => simp [takeBytes, dropBytes, ih]

/-- The later part of a cut text is no longer than the text. -/
theorem length_dropBytes_le (n : Nat) (text : List Char) :
    (dropBytes n text).length ≤ text.length := by
  have h := congrArg List.length (takeBytes_append_dropBytes n text)
  simp only [List.length_append] at h
  omega

end Text
end EmbeddedGraphQL
