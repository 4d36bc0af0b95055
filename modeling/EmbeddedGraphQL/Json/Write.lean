import EmbeddedGraphQL.Json.Basic
import EmbeddedGraphQL.Json.Quoted

/-!
# Writing JSON

A value is written on one line without blanks, or over several lines: then each item of a list and
each member of an object has a line of its own, two spaces further in than the line that opens it,
and empty lists and objects stay on one line.

* `Json.compact`: the text of a value on one line.
* `Json.pretty`: the text of a value over several lines.
-/

namespace EmbeddedGraphQL
namespace Json

/-- A line end, with the spaces that open the next line at a depth. -/
def lineBreak (depth : Nat) : List Char := '\n' :: List.replicate (2 * depth) ' '

/-- Parts between an opening and a closing character, each on a line of its own. -/
def enclose (depth : Nat) (opening close : Char) (parts : List (List Char)) : List Char :=
  if parts.isEmpty then [opening, close]
  else
    let lines := parts.map (lineBreak (depth + 1) ++ ·)
    opening :: (List.intercalate [','] lines ++ lineBreak depth ++ [close])

/-- A value that holds no others. -/
def writeSimple : Json → List Char
  | .bool true => ['t', 'r', 'u', 'e']
  | .bool false => ['f', 'a', 'l', 's', 'e']
  | .num literal => literal.toList
  | .str value => Quoted.write value.toList
  | _ => ['n', 'u', 'l', 'l']

mutual

/-- A value on lines at a depth. -/
def writeAt (depth : Nat) : Json → List Char
  | .array items => enclose depth '[' ']' (writeItems (depth + 1) items)
  | .object members => enclose depth '\x7b' '\x7d' (writeMembers (depth + 1) members)
  | value => writeSimple value

/-- Values on lines at a depth. -/
def writeItems (depth : Nat) : List Json → List (List Char)
  | [] => []
  | item :: items => writeAt depth item :: writeItems depth items

/-- Members on lines at a depth. -/
def writeMembers (depth : Nat) : List (String × Json) → List (List Char)
  | [] => []
  | (key, value) :: members =>
    (Quoted.write key.toList ++ [':', ' '] ++ writeAt depth value) :: writeMembers depth members

end

/-- The text of a value, over several lines. -/
def pretty (v : Json) : String := String.ofList (writeAt 0 v)

mutual

/-- A value on one line. -/
def writeFlat : Json → List Char
  | .array items => '[' :: (List.intercalate [','] (writeFlatItems items) ++ [']'])
  | .object members =>
    '\x7b' :: (List.intercalate [','] (writeFlatMembers members) ++ ['\x7d'])
  | value => writeSimple value

/-- Values on one line. -/
def writeFlatItems : List Json → List (List Char)
  | [] => []
  | item :: items => writeFlat item :: writeFlatItems items

/-- Members on one line. -/
def writeFlatMembers : List (String × Json) → List (List Char)
  | [] => []
  | (key, value) :: members =>
    (Quoted.write key.toList ++ [':'] ++ writeFlat value) :: writeFlatMembers members

end

/-- The text of a value, on one line. -/
def compact (v : Json) : String := String.ofList (writeFlat v)

end Json
end EmbeddedGraphQL
