import EmbeddedGraphQL.Json.Basic
import EmbeddedGraphQL.Json.Quoted

/-!
# Reading JSON

A text is read as one value, with spaces, tabs and line ends around it and between its parts. The
depth of nested lists and objects is bounded by an allowance.

* `Json.Reader`: reads something at the start of a text.
* `Json.value`: reads a value.
* `Json.parse?`: the value a whole text stands for.
-/

namespace EmbeddedGraphQL
namespace Json

/-- Reads something at the start of a text and leaves the rest. -/
abbrev Reader (α : Type) := List Char → Option (α × List Char)

/-- Whether a character may stand between the parts of a value. -/
def isSpace (c : Char) : Bool := c == ' ' || c == '\t' || c == '\n' || c == '\r'

/-- A text without the spaces it starts with. -/
def skip (text : List Char) : List Char := text.dropWhile isSpace

/-! ## Numbers -/

/-- Digits, at least one. -/
def digits : Reader (List Char) := fun text =>
  let taken := text.takeWhile Char.isDigit
  if taken.isEmpty then none else some (taken, text.dropWhile Char.isDigit)

/-- Digits without a zero in front of others. -/
def whole : Reader (List Char)
  | '0' :: c :: rest => if c.isDigit then none else some (['0'], c :: rest)
  | text => digits text

/-- A point and digits, if there is a point. -/
def fraction : Reader (List Char)
  | '.' :: text => (digits text).map fun (taken, rest) => ('.' :: taken, rest)
  | text => some ([], text)

/-- A sign, if there is one. -/
def sign : List Char → List Char × List Char
  | '+' :: text => (['+'], text)
  | '-' :: text => (['-'], text)
  | text => ([], text)

/-- The letter of an exponent, a sign and digits, if there is such a letter. -/
def exponent : Reader (List Char)
  | [] => some ([], [])
  | c :: text =>
    if c = 'e' || c = 'E' then do
      let (signs, text) := sign text
      let (taken, rest) ← digits text
      return (c :: (signs ++ taken), rest)
    else some ([], c :: text)

/-- A minus, if there is one. -/
def minus : List Char → List Char × List Char
  | '-' :: text => (['-'], text)
  | text => ([], text)

/-- A number. -/
def number : Reader Json := fun text => do
  let (signs, text) := minus text
  let (wholePart, text) ← whole text
  let (fractionPart, text) ← fraction text
  let (exponentPart, text) ← exponent text
  return (.num (String.ofList (signs ++ wholePart ++ fractionPart ++ exponentPart)), text)

/-! ## Values -/

/-- The rest of a quoted text whose opening quote was read. -/
def quoted : Reader Json := fun text => do
  let (pieces, rest) ← Quoted.pieces? text
  match Quoted.text? pieces with
  | some chars => return (.str (String.ofList chars), rest)
  | none => return (.broken, rest)

/-- A value that holds no others. -/
def simple : Reader Json
  | 'n' :: 'u' :: 'l' :: 'l' :: rest => some (.null, rest)
  | 't' :: 'r' :: 'u' :: 'e' :: rest => some (.bool true, rest)
  | 'f' :: 'a' :: 'l' :: 's' :: 'e' :: rest => some (.bool false, rest)
  | '"' :: rest => quoted rest
  | text => number text

/-- What follows an item: commas with further items, at most `fuel`, and the closing character. -/
def furtherItems {α : Type} (item : Reader α) (close : Char) : Nat → Reader (List α)
  | 0, _ => none
  | fuel + 1, text =>
    match skip text with
    | [] => none
    | c :: rest =>
      if c = close then some ([], rest)
      else if c = ',' then do
        let (first, rest) ← item (skip rest)
        let (more, rest) ← furtherItems item close fuel rest
        return (first :: more, rest)
      else none

/-- Items separated by commas, up to the closing character. -/
def group {α : Type} (item : Reader α) (close : Char) : Reader (List α) := fun text =>
  match skip text with
  | [] => none
  | c :: rest =>
    if c = close then some ([], rest)
    else do
      let (first, rest) ← item (c :: rest)
      let (more, rest) ← furtherItems item close (rest.length + 1) rest
      return (first :: more, rest)

/-- A member of an object: a quoted key, a colon and a value. A key may be broken. -/
def member (value : Reader Json) : Reader (Option String × Json)
  | '"' :: text => do
    let (pieces, text) ← Quoted.pieces? text
    let key := (Quoted.text? pieces).map String.ofList
    match skip text with
    | ':' :: text =>
      let (v, rest) ← value (skip text)
      return ((key, v), rest)
    | _ => none
  | _ => none

/-- The object with some members. -/
def ofMembers (members : List (Option String × Json)) : Json :=
  match members.mapM fun (key, v) => key.map (·, v) with
  | some members => .object members
  | none => .broken

/-- A value with at most `depth` lists and objects inside one another. -/
def value : Nat → Reader Json
  | 0 => simple
  | depth + 1 => fun text =>
    match text with
    | '[' :: text => do
      let (items, rest) ← group (value depth) ']' text
      return (.array items, rest)
    | '\x7b' :: text => do
      let (members, rest) ← group (member (value depth)) '\x7d' text
      return (ofMembers members, rest)
    | _ => simple text

/-- The value a whole text stands for, with at most `depth` lists and objects inside one
another. -/
def parseWithin? (depth : Nat) (text : String) : Option Json := do
  let (v, rest) ← value depth (skip text.toList)
  if (skip rest).isEmpty then some v else none

/-- The value a whole text stands for. -/
def parse? (text : String) : Option Json := parseWithin? text.length text

end Json
end EmbeddedGraphQL
