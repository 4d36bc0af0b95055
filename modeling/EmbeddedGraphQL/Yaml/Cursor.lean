import EmbeddedGraphQL.Text.CodePoint

/-!
# Scalars of YAML

A cursor stands somewhere in a text and knows its line and column. From there a scalar is read:
plain, or between single or double quotes. Where a scalar goes on over several lines, the blanks
around a line end are dropped, a single line end becomes a space, and of several line ends the
first is dropped.

* `Cursor.ofText`: the start of a text, with every line end written as one character.
* `Cursor.skipGap`: past blanks, comments and line ends.
* `Cursor.plain?`, `Cursor.quoted?`: the scalar at a cursor, and the cursor after it.
-/

namespace EmbeddedGraphQL
namespace Yaml

/-- Whether a character is a space or a tab. -/
def isBlank (c : Char) : Bool := c == ' ' || c == '\t'

/-- Whether a character ends a line, in a text whose line ends are single characters. -/
def isBreak (c : Char) : Bool := c == '\n' || c == '\u2028' || c == '\u2029'

/-- Whether a text ends, or goes on with a blank or a line end. -/
def endsWord : List Char → Bool
  | [] => true
  | c :: _ => isBlank c || isBreak c

/-- Whether a character is a mark of the flow style. -/
def isFlowMark (c : Char) : Bool := c ∈ [',', '[', ']', '\x7b', '\x7d']

/-- Whether a character may stand in a text at all. -/
def isPrintable (c : Char) : Bool :=
  c == '\t' || c == '\n' || c == '\r' || c == '\u0085' ||
    (0x20 ≤ c.toNat && c.toNat ≤ 0x7E) || (0xA0 ≤ c.toNat && c.toNat ≤ 0xFFFD) ||
    0x10000 ≤ c.toNat

/-- A text in which carriage returns and next line characters are line feeds, and a carriage return
before a line feed is dropped. -/
def plainBreaks : List Char → List Char
  | [] => []
  | '\r' :: '\n' :: rest => '\n' :: plainBreaks rest
  | c :: rest => (if c = '\r' || c = '\u0085' then '\n' else c) :: plainBreaks rest

/-- A place on a line. -/
structure Mark where
  /-- The line, from 0. -/
  line : Nat
  /-- The column, in characters from 0. -/
  column : Nat
  /-- The size in bytes of what stands before it on its line. -/
  bytes : Nat
deriving DecidableEq

/-- The place after a character. -/
def Mark.past (mark : Mark) (c : Char) : Mark :=
  if isBreak c then ⟨mark.line + 1, 0, 0⟩
  else ⟨mark.line, mark.column + 1, mark.bytes + c.utf8Size⟩

/-- A place in a text. -/
structure Cursor extends Mark where
  /-- The text from here on. -/
  rest : List Char
deriving DecidableEq

namespace Cursor

/-- The start of a text. -/
def ofText (text : List Char) : Cursor := ⟨⟨0, 0, 0⟩, plainBreaks text⟩

/-- Further on, where `rest` is left. -/
def moveTo (cursor : Cursor) (rest : List Char) : Cursor :=
  let taken := cursor.rest.take (cursor.rest.length - rest.length)
  ⟨taken.foldl Mark.past cursor.toMark, rest⟩

/-- After the next character. -/
def next (cursor : Cursor) : Cursor := cursor.moveTo (cursor.rest.drop 1)

/-- Whether a line starts here with a mark of three characters that stands alone. -/
def atMark (cursor : Cursor) (mark : Char) : Bool :=
  match cursor.rest with
  | a :: b :: c :: rest =>
    cursor.column = 0 && a = mark && b = mark && c = mark && endsWord rest
  | _ => false

/-- Whether a document starts or ends here. -/
def atDocumentMark (cursor : Cursor) : Bool := cursor.atMark '-' || cursor.atMark '.'

/-! ## Between tokens -/

/-- The place after blanks, comments and line ends from a mark on. A line may start with a byte
order mark. Tabs are blanks only where no key may stand. Outside the flow style a key may stand
after a line end. -/
def skipGapFrom (inFlow : Bool) (mark : Mark) (keyAllowed inComment : Bool) :
    List Char → Cursor × Bool
  | [] => (⟨mark, []⟩, keyAllowed)
  | c :: rest =>
    if isBreak c then skipGapFrom inFlow (mark.past c) (keyAllowed || !inFlow) false rest
    else if inComment || c = ' ' || (c = '\t' && (inFlow || !keyAllowed)) ||
        (c = '\uFEFF' && mark.column = 0) then
      skipGapFrom inFlow (mark.past c) keyAllowed inComment rest
    else if c = '#' then skipGapFrom inFlow (mark.past c) keyAllowed true rest
    else (⟨mark, c :: rest⟩, keyAllowed)

/-- The place after blanks, comments and line ends, and whether a key may stand there. -/
def skipGap (cursor : Cursor) (inFlow keyAllowed : Bool) : Cursor × Bool :=
  skipGapFrom inFlow cursor.toMark keyAllowed false cursor.rest

/-- The place after blanks and a comment, if the line ends there. -/
def endOfLine? (cursor : Cursor) : Option Cursor :=
  let text := cursor.rest.dropWhile isBlank
  let text := if text.head? = some '#' then text.dropWhile (!isBreak ·) else text
  if text.head?.all isBreak then some (cursor.moveTo text) else none

/-! ## Inside scalars -/

/-- The blanks and line ends inside a scalar. -/
structure Stretch where
  /-- The blanks before the first line end. -/
  blanks : List Char
  /-- The line ends. -/
  breaks : List Char
  /-- The place after it. -/
  after : Cursor
deriving DecidableEq

/-- The blanks and line ends from a mark on. After a line end (`broken`) blanks are dropped, and
none of them may be a tab before column `indent`. -/
def stretchFrom? (indent : Nat) (mark : Mark) (broken : Bool) : List Char → Option Stretch
  | [] => some ⟨[], [], ⟨mark, []⟩⟩
  | c :: rest =>
    if isBreak c then
      (stretchFrom? indent (mark.past c) true rest).map fun s => { s with breaks := c :: s.breaks }
    else if isBlank c then
      if broken && c = '\t' && mark.column < indent then none
      else
        (stretchFrom? indent (mark.past c) broken rest).map fun s =>
          if broken then s else { s with blanks := c :: s.blanks }
    else some ⟨[], [], ⟨mark, c :: rest⟩⟩

/-- The blanks and line ends at a cursor. -/
def stretch? (cursor : Cursor) (indent : Nat) (broken : Bool) : Option Stretch :=
  stretchFrom? indent cursor.toMark broken cursor.rest

/-- What line ends inside a scalar stand for. -/
def foldBreaks : List Char → List Char
  | ['\n'] => [' ']
  | '\n' :: more => more
  | breaks => breaks

/-- What a stretch inside a scalar stands for. -/
def Stretch.text (s : Stretch) : List Char :=
  if s.breaks.isEmpty then s.blanks else foldBreaks s.breaks

/-! ## Plain scalars -/

/-- The characters of a plain scalar up to a blank, a line end or a mark that ends it. -/
def plainRun? (inFlow : Bool) : List Char → Option (List Char × List Char)
  | [] => some ([], [])
  | c :: rest =>
    if isBlank c || isBreak c then some ([], c :: rest)
    else if c = ':' && inFlow && (rest.head?.any fun d => isFlowMark d || d = '?') then none
    else if (c = ':' && endsWord rest) || (inFlow && isFlowMark c) then some ([], c :: rest)
    else (plainRun? inFlow rest).map fun (run, rest) => (c :: run, rest)

/-- The rest of a plain scalar of which `taken` was read, behind the stretch `gap`. It ends before
a comment, a document mark and, outside the flow style, a column before `indent`. The flag says
whether a line end was passed after its last character. -/
def plainFrom? (inFlow : Bool) (indent : Nat) :
    Nat → List Char → List Char → Bool → Cursor → Option (List Char × Cursor × Bool)
  | 0, _, _, _, _ => none
  | fuel + 1, taken, gap, broken, cursor =>
    if cursor.atDocumentMark || cursor.rest.head? = some '#' then some (taken, cursor, broken)
    else do
      let (run, rest) ← plainRun? inFlow cursor.rest
      if run.isEmpty then return (taken, cursor, broken)
      let taken := taken ++ gap ++ run
      let next := cursor.moveTo rest
      let s ← next.stretch? indent false
      let broken := !s.breaks.isEmpty
      if s.after = next then return (taken, next, false)
      else if !inFlow && s.after.column < indent then return (taken, s.after, broken)
      else plainFrom? inFlow indent fuel taken s.text broken s.after

/-- The plain scalar at a cursor. -/
def plain? (cursor : Cursor) (inFlow : Bool) (indent : Nat) :
    Option (List Char × Cursor × Bool) :=
  plainFrom? inFlow indent (cursor.rest.length + 1) [] [] false cursor

/-! ## Quoted scalars -/

/-- How the characters of a quoted scalar end. -/
inductive RunEnd where
  /-- With the closing quote, which is read. -/
  | closed
  /-- Before a blank or a line end. -/
  | gap
  /-- Before a line end that a backslash takes away. -/
  | escapedBreak
deriving DecidableEq

/-- The characters of a scalar in single quotes, where a quote is written twice. -/
def singleRun? : List Char → Option (List Char × RunEnd × List Char)
  | [] => none
  | '\'' :: '\'' :: rest => (singleRun? rest).map fun (run, stop) => ('\'' :: run, stop)
  | c :: rest =>
    if c = '\'' then some ([], .closed, rest)
    else if isBlank c || isBreak c then some ([], .gap, c :: rest)
    else (singleRun? rest).map fun (run, stop) => (c :: run, stop)

/-- The character a backslash and this character stand for. -/
def escape? : Char → Option Char
  | '0' => some '\x00'
  | 'a' => some '\x07'
  | 'b' => some '\x08'
  | 't' => some '\t'
  | '\t' => some '\t'
  | 'n' => some '\n'
  | 'v' => some '\x0b'
  | 'f' => some '\x0c'
  | 'r' => some '\r'
  | 'e' => some '\x1b'
  | ' ' => some ' '
  | '"' => some '"'
  | '/' => some '/'
  | '\\' => some '\\'
  | 'N' => some '\u0085'
  | '_' => some '\u00A0'
  | 'L' => some '\u2028'
  | 'P' => some '\u2029'
  | _ => none

/-- The character with a code point written in hexadecimal digits. -/
def codePoint? (digits : List Char) : Option Char := Text.hexValue? digits >>= Text.scalar?

/-- The characters of a scalar in double quotes, with its escapes resolved. -/
def doubleRun? : List Char → Option (List Char × RunEnd × List Char)
  | [] => none
  | '\\' :: 'x' :: a :: b :: rest => do
    let c ← codePoint? [a, b]
    let (run, stop) ← doubleRun? rest
    return (c :: run, stop)
  | '\\' :: 'u' :: a :: b :: c :: d :: rest => do
    let c ← codePoint? [a, b, c, d]
    let (run, stop) ← doubleRun? rest
    return (c :: run, stop)
  | '\\' :: 'U' :: a :: b :: c :: d :: e :: f :: g :: h :: rest => do
    let c ← codePoint? [a, b, c, d, e, f, g, h]
    let (run, stop) ← doubleRun? rest
    return (c :: run, stop)
  | '\\' :: e :: rest =>
    if isBreak e then some ([], .escapedBreak, e :: rest)
    else do
      let c ← escape? e
      let (run, stop) ← doubleRun? rest
      return (c :: run, stop)
  | c :: rest =>
    if c = '"' then some ([], .closed, rest)
    else if isBlank c || isBreak c then some ([], .gap, c :: rest)
    else (doubleRun? rest).map fun (run, stop) => (c :: run, stop)

/-- The rest of a quoted scalar whose opening quote was read. -/
def quotedFrom? (run? : List Char → Option (List Char × RunEnd × List Char)) :
    Nat → Cursor → Option (List Char × Cursor)
  | 0, _ => none
  | fuel + 1, cursor =>
    if cursor.atDocumentMark then none
    else do
      let (run, stop, rest) ← run? cursor.rest
      let next := cursor.moveTo rest
      match stop with
      | .closed => return (run, next)
      | .gap =>
        let s ← next.stretch? 0 false
        let (more, last) ← quotedFrom? run? fuel s.after
        return (run ++ s.text ++ more, last)
      | .escapedBreak =>
        let s ← next.next.stretch? 0 true
        let (more, last) ← quotedFrom? run? fuel s.after
        return (run ++ s.breaks ++ more, last)

/-- The scalar between quotes at a cursor, which stands on the opening quote. -/
def quoted? (cursor : Cursor) : Option (List Char × Cursor) :=
  match cursor.rest with
  | '"' :: rest => quotedFrom? doubleRun? (rest.length + 1) (cursor.moveTo rest)
  | '\'' :: rest => quotedFrom? singleRun? (rest.length + 1) (cursor.moveTo rest)
  | _ => none

end Cursor
end Yaml
end EmbeddedGraphQL
