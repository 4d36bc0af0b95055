import EmbeddedGraphQL.Text.CodePoint
import EmbeddedGraphQL.Yaml.Cursor

/-!
# Properties of YAML nodes

In front of a node may stand an anchor, by which other places refer to it, and a tag, which says
what it is. A tag is written in full between angle brackets, or as a handle that stands for the
start of the tag, and the rest of it.

* `Property.anchor?`: the name of an anchor, or of a reference to one.
* `Property.tag?`: a tag as it is written.
-/

namespace EmbeddedGraphQL
namespace Yaml
namespace Property

/-- Whether a character may stand in a name. -/
def isNameChar (c : Char) : Bool := c.isAlphanum || c == '_' || c == '-'

/-- Whether a text goes on in a way that may follow an anchor. -/
def endsAnchor (text : List Char) : Bool :=
  endsWord text || text.head?.any (· ∈ ['?', ':', ',', ']', '\x7d', '%', '@', '\x60'])

/-- The name of an anchor, whose mark was read. -/
def anchor? (text : List Char) : Option (String × List Char) :=
  let name := text.takeWhile isNameChar
  let rest := text.dropWhile isNameChar
  if name.isEmpty || !endsAnchor rest then none else some (String.ofList name, rest)

/-! ## Tags -/

/-- A tag as it is written. -/
structure TagName where
  /-- What stands for the start of the tag; nothing if it is written in full. -/
  handle : String
  /-- The rest of the tag. -/
  suffix : String
deriving DecidableEq

/-- Whether a character may stand in a tag. A tag in brackets may also hold marks of the flow
style. -/
def isTagChar (bracketed : Bool) (c : Char) : Bool :=
  isNameChar c ||
    c ∈ [';', '/', '?', ':', '@', '&', '=', '+', '$', '.', '!', '~', '*', '\'', '(', ')'] ||
    (bracketed && c ∈ [',', '[', ']'])

/-- How many octets belong to the same character as this octet, if it is the first one. -/
def furtherOctets? (octet : Nat) : Option Nat :=
  if octet < 0x80 then some 0
  else if octet < 0xC0 then none
  else if octet < 0xE0 then some 1
  else if octet < 0xF0 then some 2
  else if octet < 0xF8 then some 3
  else none

/-- How many octets are due after an octet, where `due` were before. -/
def octetsDue? (due octet : Nat) : Option Nat :=
  if due = 0 then furtherOctets? octet
  else if 0x80 ≤ octet && octet < 0xC0 then some (due - 1)
  else none

/-- The characters of a tag, and the text after them. An octet may be written as a percent sign and
two hexadecimal digits, and `due` octets have to be. -/
def tagChars? (bracketed : Bool) : Nat → List Char → Option (List Char × List Char)
  | due, '%' :: a :: b :: rest => do
    let octet ← Text.hexValue? [a, b]
    let due ← octetsDue? due octet
    let (more, rest) ← tagChars? bracketed due rest
    return (Char.ofNat octet :: more, rest)
  | due, c :: rest =>
    if due ≠ 0 || c = '%' then none
    else if isTagChar bracketed c then
      (tagChars? bracketed 0 rest).map fun (more, rest) => (c :: more, rest)
    else some ([], c :: rest)
  | due, [] => if due = 0 then some ([], []) else none

/-- The characters of a tag, at least one. -/
def someTagChars? (bracketed : Bool) (text : List Char) : Option (String × List Char) := do
  let (chars, rest) ← tagChars? bracketed 0 text
  if chars.isEmpty then none else some (String.ofList chars, rest)

/-- The handle at the start of a text: an exclamation mark, and possibly a name and another one. -/
def handle? : List Char → Option (String × List Char)
  | '!' :: text =>
    let name := text.takeWhile isNameChar
    match text.dropWhile isNameChar with
    | '!' :: rest => some (String.ofList ('!' :: (name ++ ['!'])), rest)
    | rest => some (String.ofList ('!' :: name), rest)
  | _ => none

/-- Whether a handle ends with an exclamation mark of its own. -/
def isClosed (handle : String) : Bool :=
  1 < handle.length && handle.toList.getLast? = some '!'

/-- A tag without brackets. -/
def shortTag? (text : List Char) : Option (TagName × List Char) := do
  let (handle, rest) ← handle? text
  if isClosed handle then
    let (suffix, rest) ← someTagChars? false rest
    return (⟨handle, suffix⟩, rest)
  else
    let (chars, rest) ← tagChars? false 0 rest
    let suffix := String.ofList (handle.toList.drop 1 ++ chars)
    return (if suffix.isEmpty then ⟨"", "!"⟩ else ⟨"!", suffix⟩, rest)

/-- A tag between angle brackets, of which the first one was read. -/
def fullTag? (text : List Char) : Option (TagName × List Char) := do
  let (name, rest) ← someTagChars? true text
  match rest with
  | '>' :: rest => return (⟨"", name⟩, rest)
  | _ => none

/-- The tag at the start of a text. A blank or a line end follows it or, in the flow style, a
comma. -/
def tag? (inFlow : Bool) (text : List Char) : Option (TagName × List Char) := do
  let (tag, rest) ← match text with
    | '!' :: '<' :: rest => fullTag? rest
    | _ => shortTag? text
  if endsWord rest || (inFlow && rest.head? = some ',') then some (tag, rest) else none

end Property
end Yaml
end EmbeddedGraphQL
