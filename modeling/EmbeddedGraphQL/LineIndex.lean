import EmbeddedGraphQL.Text.Measure
import EmbeddedGraphQL.Position

/-!
# Line index

A `LineIndex` is built once from a text and then converts byte offsets to positions and back. It
keeps the byte offset at which each line starts and, for each line, the characters outside ASCII:
these are the only ones whose size in bytes differs from their size in UTF-16 code units.

* `LineIndex.position`: the position of a byte offset.
* `LineIndex.offset?`: the byte offset of a position.
* `LineIndex.lineSpan?`: the bytes of a line, without its line feed.
-/

namespace EmbeddedGraphQL

/-- A character outside ASCII on its line. -/
structure WideChar where
  /-- The byte offset of the character from the start of its line. -/
  start : Nat
  /-- Its size in UTF-8 bytes. -/
  bytes : Nat
  /-- Its size in UTF-16 code units. -/
  units : Nat
deriving DecidableEq

namespace WideChar

/-- The byte offset after the character, from the start of its line. -/
def stop (w : WideChar) : Nat := w.start + w.bytes

/-- By how much the size in bytes exceeds the size in UTF-16 code units. -/
def surplus (w : WideChar) : Nat := w.bytes - w.units

end WideChar

/-- What the index keeps of a line. -/
structure IndexedLine where
  /-- The byte offset of the line. -/
  start : Nat
  /-- The characters of the line outside ASCII, from left to right. -/
  wide : List WideChar
deriving DecidableEq

/-- The lines of a text, with what is needed to convert between offsets and positions. -/
structure LineIndex where
  /-- The lines, of which there is at least one. -/
  lines : List IndexedLine
  /-- The size of the text in bytes. -/
  size : Nat
deriving DecidableEq

namespace LineIndex

/-- The lines of the text from column `column` of the line at byte offset `start` on; `seen` holds
the wide characters to the left of that column, last one first. -/
def scan (start column : Nat) (seen : List WideChar) : List Char → List IndexedLine
  | [] => [⟨start, seen.reverse⟩]
  | c :: text =>
    if c = '\n' then ⟨start, seen.reverse⟩ :: scan (start + column + 1) 0 [] text
    else if c.toNat < 0x80 then scan start (column + 1) seen text
    else scan start (column + c.utf8Size) (⟨column, c.utf8Size, Text.utf16Size c⟩ :: seen) text

/-- The index of a text. -/
def ofText (text : List Char) : LineIndex := ⟨scan 0 0 [] text, Text.byteLength text⟩

/-- The index of a string. -/
def ofString (s : String) : LineIndex := ofText s.toList

/-- The number of lines. -/
def lineCount (index : LineIndex) : Nat := index.lines.length

/-- The byte offset at which a line starts. -/
def lineStart? (index : LineIndex) (line : Nat) : Option Nat := index.lines[line]?.map (·.start)

/-- The bytes of a line, without its line feed. -/
def lineSpan? (index : LineIndex) (line : Nat) : Option Span :=
  (index.lineStart? line).map fun start =>
    ⟨start, ((index.lineStart? (line + 1)).map (· - 1)).getD index.size⟩

/-- The wide characters of a line. -/
def wideChars (index : LineIndex) (line : Nat) : List WideChar :=
  (index.lines[line]?.map (·.wide)).getD []

/-- The line of a byte offset: the last one that starts at or before it. -/
def lineOf (index : LineIndex) (offset : Nat) : Nat :=
  -- the first line starts at 0, so at least one line is counted
  (index.lines.takeWhile (·.start ≤ offset)).length - 1

/-- By how much a column in bytes exceeds the same column in UTF-16 code units: the surplus of all
wide characters that end at or before it. -/
def surplusBefore (wide : List WideChar) (column : Nat) : Nat :=
  Text.total (·.surplus) (wide.takeWhile (·.stop ≤ column))

/-- The position of a byte offset; an offset past the end counts as the end. -/
def position (index : LineIndex) (offset : Nat) : Position :=
  let offset := min offset index.size
  let line := index.lineOf offset
  let column := offset - (index.lineStart? line).getD 0
  ⟨line, column - surplusBefore (index.wideChars line) column⟩

/-- The surplus of the wide characters that start before a column in UTF-16 code units, on top of
the surplus `acc` of those to the left of `wide`. -/
def surplusUntil (character acc : Nat) : List WideChar → Nat
  | [] => acc
  | w :: wide =>
    -- `w.start - acc` is the column of `w` in UTF-16 code units
    if character ≤ w.start - acc then acc else surplusUntil character (acc + w.surplus) wide

/-- The byte offset of a position, if there is such a line. The column may lie past the end of the
line. -/
def offset? (index : LineIndex) (p : Position) : Option Nat :=
  (index.lineStart? p.line).map fun start =>
    start + p.character + surplusUntil p.character 0 (index.wideChars p.line)

/-- The lines on which a span starts and ends. -/
def lineRange (index : LineIndex) (span : Span) : LineRange :=
  ⟨(index.position span.start).line, (index.position span.stop).line⟩

/-- The positions at which a span starts and ends. -/
def range (index : LineIndex) (span : Span) : Range :=
  ⟨index.position span.start, index.position span.stop⟩

end LineIndex
end EmbeddedGraphQL
