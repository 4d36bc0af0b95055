import EmbeddedGraphQL.Yaml.BlockScalar
import EmbeddedGraphQL.Yaml.Directive

/-!
# Tokens of YAML

A text is read as tokens. In block style the columns of keys and entries say where mappings and
sequences start and end, so the scanner keeps the columns of the open ones. A scalar or a flow
collection may turn out to be a key when a colon follows it on the same line; until then its place
among the tokens is remembered.

* `Token`: the tokens.
* `Scan`: the state of the scanner.
* `Token.scan?`: the tokens of a text.
-/

namespace EmbeddedGraphQL
namespace Yaml

/-- How a scalar is written. -/
inductive ScalarStyle where
  /-- Without marks. -/
  | plain
  /-- Between quotes. -/
  | quoted
  /-- As a block whose line ends stay. -/
  | literal
  /-- As a block whose lines are joined. -/
  | folded
deriving DecidableEq

/-- A token. -/
inductive Token where
  /-- A directive. -/
  | directive (directive : Directive)
  /-- The start of a document, `---`. -/
  | documentStart
  /-- The end of a document, `...`. -/
  | documentEnd
  /-- A sequence in block style starts. -/
  | sequenceStart
  /-- A mapping in block style starts. -/
  | mappingStart
  /-- A sequence or mapping in block style ends. -/
  | blockEnd
  /-- An entry of a sequence in block style, `-`. -/
  | entry
  /-- A key follows. -/
  | key
  /-- A value follows. -/
  | value
  /-- A sequence in flow style starts. -/
  | flowSequenceStart
  /-- A sequence in flow style ends. -/
  | flowSequenceEnd
  /-- A mapping in flow style starts. -/
  | flowMappingStart
  /-- A mapping in flow style ends. -/
  | flowMappingEnd
  /-- The comma of the flow style. -/
  | flowEntry
  /-- An anchor, `&`. -/
  | anchor (name : String)
  /-- A reference to an anchor, `*`. -/
  | reference (name : String)
  /-- A tag, `!`. -/
  | tag (name : Property.TagName)
  /-- A scalar. -/
  | scalar (text : String) (style : ScalarStyle)
deriving DecidableEq

/-- A token that is a key if a colon follows. -/
structure PendingKey where
  /-- Where it starts. -/
  start : Mark
  /-- Its number among the tokens. -/
  number : Nat
  /-- Whether only a key may stand there. -/
  required : Bool
deriving DecidableEq

/-- The state of the scanner. -/
structure Scan where
  /-- Where the scanner stands. -/
  cursor : Cursor
  /-- The columns of the open block collections, innermost first. -/
  indents : List Nat
  /-- The pending key of the innermost flow collection or, outside all of them, of the block. -/
  pending : Option PendingKey
  /-- The pending keys around each open flow collection, innermost first. -/
  outer : List (Option PendingKey)
  /-- Whether a key may start here. -/
  keyAllowed : Bool
  /-- The tokens so far. -/
  tokens : List Token

namespace Scan

/-- The scanner at the start of a text. -/
def start (text : List Char) : Scan := ⟨Cursor.ofText text, [], none, [], true, []⟩

/-- Whether the scanner is inside a flow collection. -/
def inFlow (s : Scan) : Bool := !s.outer.isEmpty

/-- The scanner after a token. -/
def push (s : Scan) (t : Token) : Scan := { s with tokens := s.tokens ++ [t] }

/-- The scanner after the character it stands on. -/
def advance (s : Scan) (n : Nat) : Scan :=
  { s with cursor := s.cursor.moveTo (s.cursor.rest.drop n) }

/-- Whether a column lies further in than the innermost block collection. -/
def isDeeper (s : Scan) (column : Nat) : Bool := s.indents.head?.all (· < column)

/-- The most bytes a key may have before its colon. -/
def maxKeyLength : Nat := 1024

/-- A pending key at a place: none when it is no longer on the same line or too far back, which is
an error if only a key may stand there. -/
def refresh? (cursor : Cursor) : Option PendingKey → Option (Option PendingKey)
  | none => some none
  | some k =>
    if k.start.line < cursor.line || k.start.bytes + maxKeyLength < cursor.bytes then
      if k.required then none else some none
    else some (some k)

/-- The scanner at the next token, without the pending keys that can no longer be keys. -/
def settle? (s : Scan) : Option Scan := do
  let (cursor, keyAllowed) := s.cursor.skipGap s.inFlow s.keyAllowed
  let pending ← refresh? cursor s.pending
  let outer ← s.outer.mapM (refresh? cursor)
  return { s with cursor, keyAllowed, pending, outer }

/-- The scanner without its pending key, unless only a key may stand there. -/
def dropPending? (s : Scan) : Option Scan :=
  match s.pending with
  | some k => if k.required then none else some { s with pending := none }
  | none => some s

/-- The scanner before a token that may turn out to be a key. -/
def savePending? (s : Scan) : Option Scan :=
  if s.keyAllowed then
    let required := !s.inFlow && s.indents.head? == some s.cursor.column
    (dropPending? s).map fun s =>
      { s with pending := some ⟨s.cursor.toMark, s.tokens.length, required⟩ }
  else some s

/-- The scanner after the block collections further in than a column have ended; with none, after
all of them. -/
def unroll (s : Scan) (column : Option Nat) : Scan :=
  if s.inFlow then s
  else
    let isInside (c : Nat) : Bool := column.all (· < c)
    let closed := s.indents.takeWhile isInside
    { s with
      indents := s.indents.dropWhile isInside
      tokens := s.tokens ++ closed.map fun _ => .blockEnd }

/-- The scanner after a block collection opened at the current column, if that lies further in. -/
def roll (s : Scan) (t : Token) : Scan :=
  if !s.inFlow && s.isDeeper s.cursor.column then
    { s with indents := s.cursor.column :: s.indents, tokens := s.tokens ++ [t] }
  else s

/-- After the mark that opens a flow collection. -/
def openFlow? (s : Scan) (t : Token) : Option Scan :=
  (savePending? s).map fun s =>
    { (s.push t).advance 1 with pending := none, outer := s.pending :: s.outer, keyAllowed := true }

/-- After the mark that closes a flow collection. -/
def closeFlow? (s : Scan) (t : Token) : Option Scan :=
  (dropPending? s).map fun s =>
    { (s.push t).advance 1 with
      pending := s.outer.head?.getD none
      outer := s.outer.tail
      keyAllowed := false }

/-- After the comma of the flow style. -/
def flowEntry? (s : Scan) : Option Scan :=
  (dropPending? s).map fun s => { (s.push .flowEntry).advance 1 with keyAllowed := true }

/-- After the mark of an entry or a key in block style, which opens a collection `t` where it stands
further in. -/
def indicator? (s : Scan) (t mark : Token) : Option Scan :=
  if !s.inFlow && !s.keyAllowed then none
  else
    (dropPending? (s.roll t)).map fun s =>
      { (s.push mark).advance 1 with keyAllowed := mark = .entry || !s.inFlow }

/-- After the colon before a value. A pending key becomes a key, and opens a mapping where it
stands further in. -/
def value? (s : Scan) : Option Scan :=
  match s.pending with
  | some k =>
    let opens := !s.inFlow && s.isDeeper k.start.column
    let marks := if opens then [Token.mappingStart, .key] else [.key]
    let tokens := s.tokens.take k.number ++ marks ++ s.tokens.drop k.number ++ [.value]
    some { s.advance 1 with
      indents := if opens then k.start.column :: s.indents else s.indents
      tokens
      pending := none
      keyAllowed := false }
  | none =>
    if !s.inFlow && !s.keyAllowed then none
    else some { ((s.roll .mappingStart).push .value).advance 1 with keyAllowed := !s.inFlow }

/-- After the mark that starts or ends a document. -/
def document? (s : Scan) (t : Token) : Option Scan :=
  (dropPending? (s.unroll none)).map fun s => { (s.push t).advance 3 with keyAllowed := false }

/-- After a directive, with the rest of its line. -/
def directive? (s : Scan) : Option Scan := do
  let s ← dropPending? (s.unroll none)
  let (directive, rest) ← Directive.read? (s.cursor.rest.drop 1)
  let lineEnd ← (s.cursor.moveTo rest).endOfLine?
  return { s.push (.directive directive) with cursor := lineEnd.next, keyAllowed := false }

/-- After a token that may turn out to be a key, made of what `read?` finds at the start of the
text. -/
def property? {α : Type} (s : Scan) (read? : List Char → Option (α × List Char)) (token : α → Token)
    (skipped : Nat) : Option Scan := do
  let s ← savePending? s
  let (found, rest) ← read? (s.cursor.rest.drop skipped)
  return { s.push (token found) with cursor := s.cursor.moveTo rest, keyAllowed := false }

/-- After a quoted scalar. -/
def quoted? (s : Scan) : Option Scan := do
  let s ← savePending? s
  let (text, cursor) ← s.cursor.quoted?
  return { s.push (.scalar (String.ofList text) .quoted) with cursor, keyAllowed := false }

/-- After a plain scalar. -/
def plain? (s : Scan) : Option Scan := do
  let s ← savePending? s
  let indent := (s.indents.head?.map (· + 1)).getD 0
  let (text, cursor, broken) ← s.cursor.plain? s.inFlow indent
  return { s.push (.scalar (String.ofList text) .plain) with cursor, keyAllowed := broken }

/-- After a block scalar. -/
def block? (s : Scan) (style : ScalarStyle) : Option Scan := do
  let s ← dropPending? s
  let (text, cursor) ← s.cursor.next.blockScalar? (style = .folded) s.indents.head?
  return { s.push (.scalar (String.ofList text) style) with cursor, keyAllowed := true }

/-- The characters that start no plain scalar. -/
def isIndicator (c : Char) : Bool :=
  c ∈ ['-', '?', ':', ',', '[', ']', '\x7b', '\x7d', '#', '&', '*', '!', '|', '>', '\'', '"', '%',
    '@', '\x60']

/-- Whether a plain scalar starts with this character before this text. -/
def startsPlain (inFlow : Bool) (c : Char) (rest : List Char) : Bool :=
  !(isBlank c || isBreak c || isIndicator c) || (c = '-' && !endsWord rest) ||
    (!inFlow && (c = '?' || c = ':') && !endsWord rest)

/-- After the token that starts with this character before this text. -/
def token? (s : Scan) (c : Char) (rest : List Char) : Option Scan :=
  if s.cursor.column = 0 && c = '%' then s.directive?
  else if s.cursor.atMark '-' then s.document? .documentStart
  else if s.cursor.atMark '.' then s.document? .documentEnd
  else if c = '[' then s.openFlow? .flowSequenceStart
  else if c = '\x7b' then s.openFlow? .flowMappingStart
  else if c = ']' then s.closeFlow? .flowSequenceEnd
  else if c = '\x7d' then s.closeFlow? .flowMappingEnd
  else if c = ',' then s.flowEntry?
  else if c = '-' && endsWord rest then s.indicator? .sequenceStart .entry
  else if c = '?' && (s.inFlow || endsWord rest) then s.indicator? .mappingStart .key
  else if c = ':' && (s.inFlow || endsWord rest) then s.value?
  else if c = '*' then s.property? Property.anchor? .reference 1
  else if c = '&' then s.property? Property.anchor? .anchor 1
  else if c = '!' then s.property? (Property.tag? s.inFlow) .tag 0
  else if c = '|' && !s.inFlow then s.block? .literal
  else if c = '>' && !s.inFlow then s.block? .folded
  else if c = '\'' || c = '"' then s.quoted?
  else if startsPlain s.inFlow c rest then s.plain?
  else none

/-- The tokens of the text from here on, at most `fuel` steps further. -/
def run? : Nat → Scan → Option (List Token)
  | 0, _ => none
  | fuel + 1, s => do
    let s ← s.settle?
    match s.cursor.rest with
    | [] => return (← dropPending? (s.unroll none)).tokens
    | c :: rest => run? fuel (← (s.unroll (some s.cursor.column)).token? c rest)

end Scan

/-- The tokens of a text. -/
def Token.scan? (text : List Char) : Option (List Token) :=
  if text.all isPrintable then Scan.run? (text.length + 2) (Scan.start text) else none

end Yaml
end EmbeddedGraphQL
