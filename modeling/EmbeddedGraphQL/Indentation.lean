import EmbeddedGraphQL.Text.Blank
import EmbeddedGraphQL.Text.Lines

/-!
# Indentation

Printed GraphQL is put in the place of another text: the blanks around that text stay, and every
line that is not empty gets the indentation of the text's first line.
-/

namespace EmbeddedGraphQL
namespace Indentation

/-- The part of a text after its last line feed. -/
def lastPiece (text : List Char) : List Char := (text.reverse.takeWhile (· != '\n')).reverse

/-- A line behind an indent; an empty line stays empty. -/
def indentLine (indent line : List Char) : List Char := if line.isEmpty then [] else indent ++ line

/-- `printed` with the surrounding blanks and the indentation of `host`. -/
def restore (host printed : List Char) : List Char :=
  let leading := Text.leadingBlanks host
  let indent := lastPiece leading
  let before := leading.take (leading.length - indent.length)
  -- all of a blank text is leading already and must not be written twice
  let trailing := if Text.isAllBlank host then [] else Text.trailingBlanks host
  let body := Text.joinLines ((Text.lines (Text.trim printed)).map (indentLine indent))
  before ++ body ++ trailing

/-- `printed` with the surrounding blanks and the indentation of `host`. -/
def restoreString (host printed : String) : String :=
  String.ofList (restore host.toList printed.toList)

end Indentation
end EmbeddedGraphQL
