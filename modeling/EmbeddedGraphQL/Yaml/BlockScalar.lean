import EmbeddedGraphQL.Yaml.Cursor

/-!
# Block scalars of YAML

A block scalar starts on the line after its header and goes on as long as lines are indented enough.
The header says how the line ends at its end are treated, and may say how far its lines are indented
below the collection it stands in; otherwise its first line that is not blank decides. In the folded
style a single line end between two lines becomes a space, unless one of them starts with a blank.

* `BlockHeader.read?`: what the header says.
* `Cursor.blockScalar?`: the scalar at a cursor, and the cursor after it.
-/

namespace EmbeddedGraphQL
namespace Yaml

/-- How the line ends at the end of a block scalar are treated. -/
inductive Chomping where
  /-- All of them are dropped. -/
  | strip
  /-- The first one stays. -/
  | clip
  /-- All of them stay. -/
  | keep
deriving DecidableEq

/-- What the header of a block scalar says. -/
structure BlockHeader where
  /-- How the line ends at its end are treated. -/
  chomping : Chomping
  /-- How far its lines are indented, if the header says so. -/
  increment : Option Nat
deriving DecidableEq

namespace BlockHeader

/-- The mark for the treatment of line ends at the start of a text, if there is one. -/
def chompingMark : List Char → Option Chomping × List Char
  | '-' :: rest => (some .strip, rest)
  | '+' :: rest => (some .keep, rest)
  | text => (none, text)

/-- The digit for the indentation at the start of a text, if there is one. It is not zero. -/
def incrementMark? : List Char → Option (Option Nat × List Char)
  | [] => some (none, [])
  | c :: rest =>
    if c = '0' then none
    else if c.isDigit then some (some (c.toNat - '0'.toNat), rest)
    else some (none, c :: rest)

/-- The header at the start of a text, in which either mark may come first. -/
def read? (text : List Char) : Option (BlockHeader × List Char) := do
  let (before, text) := chompingMark text
  let (increment, text) ← incrementMark? text
  let (after, text) := if before.isNone && increment.isSome then chompingMark text else (none, text)
  return (⟨(before.or after).getD .clip, increment⟩, text)

end BlockHeader

/-- Line ends between the lines of a block scalar. -/
structure BlockGap where
  /-- The line ends. -/
  breaks : List Char
  /-- The last column that indentation was found to reach. -/
  reached : Nat
  /-- The place after them. -/
  after : Cursor
deriving DecidableEq

/-- A block scalar of which some lines were read. -/
structure BlockText where
  /-- The text so far. -/
  taken : List Char
  /-- The line end of the last line. -/
  lineEnd : List Char
  /-- The line ends after that. -/
  breaks : List Char
  /-- Whether the last line starts with a blank. -/
  afterBlank : Bool
deriving DecidableEq

namespace BlockText

/-- What stands between the last line and a next one. -/
def joint (text : BlockText) (folded startsBlank : Bool) : List Char :=
  if folded && text.lineEnd = ['\n'] && !text.afterBlank && !startsBlank then
    if text.breaks.isEmpty then [' '] else text.breaks
  else text.lineEnd ++ text.breaks

/-- The whole text, with the line ends at its end treated. -/
def finish (text : BlockText) : Chomping → List Char
  | .strip => text.taken
  | .clip => text.taken ++ text.lineEnd
  | .keep => text.taken ++ text.lineEnd ++ text.breaks

end BlockText

namespace Cursor

/-- Indentation and line ends from a mark on. Spaces count as indentation before column `indent`, or
all of them if it is not known, and a tab must not stand among them. -/
def blockGapFrom? (indent : Option Nat) (mark : Mark) : List Char → Option BlockGap
  | [] => some ⟨[], mark.column, ⟨mark, []⟩⟩
  | c :: rest =>
    let isOutside := indent.all (mark.column < ·)
    if c = ' ' && isOutside then blockGapFrom? indent (mark.past c) rest
    else if c = '\t' && isOutside then none
    else if isBreak c then
      (blockGapFrom? indent (mark.past c) rest).map fun gap =>
        { gap with breaks := c :: gap.breaks, reached := max gap.reached mark.column }
    else some ⟨[], mark.column, ⟨mark, c :: rest⟩⟩

/-- The indentation and line ends at a cursor. -/
def blockGap? (cursor : Cursor) (indent : Option Nat) : Option BlockGap :=
  blockGapFrom? indent cursor.toMark cursor.rest

/-- The lines of a block scalar that start at column `indent`; `fuel` bounds their number. -/
def blockLines? (folded : Bool) (indent : Nat) : Nat → BlockText → Cursor →
    Option (BlockText × Cursor)
  | 0, _, _ => none
  | fuel + 1, text, cursor =>
    match cursor.rest with
    | [] => some (text, cursor)
    | c :: _ =>
      if cursor.column ≠ indent then some (text, cursor)
      else do
        let line := cursor.rest.takeWhile (!isBreak ·)
        let lineEnd := (cursor.rest.dropWhile (!isBreak ·)).take 1
        let next := cursor.moveTo (cursor.rest.drop (line.length + lineEnd.length))
        let gap ← next.blockGap? (some indent)
        let taken := text.taken ++ text.joint folded (isBlank c) ++ line
        blockLines? folded indent fuel ⟨taken, lineEnd, gap.breaks, isBlank c⟩ gap.after

/-- The block scalar whose header starts at a cursor, in a block collection at column `parent?`. -/
def blockScalar? (cursor : Cursor) (folded : Bool) (parent? : Option Nat) :
    Option (List Char × Cursor) := do
  let (header, rest) ← BlockHeader.read? cursor.rest
  let lineEnd ← (cursor.moveTo rest).endOfLine?
  let least := (parent?.map (· + 1)).getD 0
  let given := header.increment.map (parent?.getD 0 + ·)
  let gap ← lineEnd.next.blockGap? given
  let indent := given.getD (max 1 (max least gap.reached))
  let fuel := cursor.rest.length + 1
  let (text, after) ← blockLines? folded indent fuel ⟨[], [], gap.breaks, false⟩ gap.after
  return (text.finish header.chomping, after)

end Cursor
end Yaml
end EmbeddedGraphQL
