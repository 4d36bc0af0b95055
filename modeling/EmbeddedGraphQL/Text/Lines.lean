/-!
# Lines of a text

Two ways to read a text as lines: the pieces between line feeds, of which there is always at least
one, and the lines a reader sees, where a carriage return before a line feed belongs to the line
end and a final line feed opens no further line.

* `pieces`: the text split at every line feed.
* `lines`: the lines without their ends.
* `joinLines`: lines joined by line feeds.
-/

namespace EmbeddedGraphQL
namespace Text

/-- The pieces of a text between line feeds. -/
def pieces (text : List Char) : List (List Char) := text.splitOn '\n'

/-- A line without the carriage return at its end, if it has one. -/
def dropReturn (line : List Char) : List Char :=
  if line.getLast? = some '\r' then line.dropLast else line

/-- The lines of a text without their ends. -/
def lines (text : List Char) : List (List Char) :=
  let parts := pieces text
  let last := parts.getLast?.getD []
  parts.dropLast.map dropReturn ++ (if last.isEmpty then [] else [last])

/-- Lines joined by line feeds. -/
def joinLines (ls : List (List Char)) : List Char := List.intercalate ['\n'] ls

end Text
end EmbeddedGraphQL
