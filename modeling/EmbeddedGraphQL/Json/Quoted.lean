import EmbeddedGraphQL.Text.CodePoint

/-!
# Quoted texts of JSON

Between its quotes a text has characters and escapes. An escape names a character, or a code unit
by four hexadecimal digits; two code units may form a character together.

* `Quoted.pieces?`: what stands before the closing quote.
* `Quoted.text?`: the text that pieces stand for.
* `Quoted.write`: a text between quotes.
-/

namespace EmbeddedGraphQL
namespace Json
namespace Quoted

/-- A piece of a quoted text. -/
inductive Piece where
  /-- A character. -/
  | char (c : Char)
  /-- A code unit. -/
  | unit (code : Nat)
deriving DecidableEq

/-- The character a backslash and this character stand for. -/
def escape? : Char → Option Char
  | '"' => some '"'
  | '\\' => some '\\'
  | '/' => some '/'
  | 'b' => some '\x08'
  | 'f' => some '\x0c'
  | 'n' => some '\n'
  | 'r' => some '\r'
  | 't' => some '\t'
  | _ => none

/-- The pieces before the closing quote, and the text after it. Control characters have to be
escaped. -/
def pieces? : List Char → Option (List Piece × List Char)
  | [] => none
  | '"' :: rest => some ([], rest)
  | '\\' :: 'u' :: a :: b :: c :: d :: rest => do
    let code ← Text.hexValue? [a, b, c, d]
    let (more, rest) ← pieces? rest
    return (.unit code :: more, rest)
  | '\\' :: e :: rest => do
    let c ← escape? e
    let (more, rest) ← pieces? rest
    return (.char c :: more, rest)
  | c :: rest =>
    if c.toNat < 0x20 then none
    else (pieces? rest).map fun (more, rest) => (.char c :: more, rest)

/-- The text that pieces stand for, if no half of a surrogate pair stands alone. -/
def text? : List Piece → Option (List Char)
  | [] => some []
  | .char c :: rest => (text? rest).map (c :: ·)
  | .unit code :: rest =>
    if Text.isHighSurrogate code then
      match rest with
      | .unit low :: rest => do
        let c ← Text.surrogatePair? code low
        (text? rest).map (c :: ·)
      | _ => none
    else do
      let c ← Text.scalar? code
      (text? rest).map (c :: ·)

/-- A hexadecimal digit, in lower case. -/
def hexDigit (n : Nat) : Char :=
  if n < 10 then Char.ofNat ('0'.toNat + n) else Char.ofNat ('a'.toNat + (n - 10))

/-- How a character is written between quotes. -/
def writeChar (c : Char) : List Char :=
  if c = '"' then ['\\', '"']
  else if c = '\\' then ['\\', '\\']
  else if c = '\x08' then ['\\', 'b']
  else if c = '\x0c' then ['\\', 'f']
  else if c = '\n' then ['\\', 'n']
  else if c = '\r' then ['\\', 'r']
  else if c = '\t' then ['\\', 't']
  else if c.toNat < 0x20 then
    ['\\', 'u', '0', '0', hexDigit (c.toNat / 16), hexDigit (c.toNat % 16)]
  else [c]

/-- A text between quotes. -/
def write (text : List Char) : List Char := '"' :: (text.flatMap writeChar ++ ['"'])

end Quoted
end Json
end EmbeddedGraphQL
