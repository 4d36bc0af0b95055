import EmbeddedGraphQL.Document.Value
import EmbeddedGraphQL.Text.CodePoint
import EmbeddedGraphQL.Text.Lines
import EmbeddedGraphQL.Text.Measure

/-!
# Tokens

The text of a document is read as tokens. Blanks, line ends, commas, byte order marks and comments
stand between tokens and are ignored; any other character that starts no token makes the text
unreadable. A token remembers whether a comma stands in front of it, since a comma ends what may be
read in one go.

* `Lexeme`: what a token says; `Token` adds where it stands.
* `Lexeme.number?`, `Lexeme.quoted?`, `Lexeme.block?`: the tokens that take more than a look.
* `Token.scan?`: the tokens of a text.
-/

namespace EmbeddedGraphQL

/-- What a token says. -/
inductive Lexeme where
  /-- A punctuation mark of one character. -/
  | mark (c : Char)
  /-- Three dots. -/
  | dots
  /-- A name. -/
  | name (text : String)
  /-- A whole number, as written. -/
  | int (digits : String)
  /-- A number with a fraction or an exponent, as written. -/
  | float (digits : String)
  /-- A quoted text, with its escapes resolved. -/
  | string (text : String)
deriving DecidableEq

/-- A token and where it stands. -/
structure Token where
  /-- What the token says. -/
  lexeme : Lexeme
  /-- Where it stands. -/
  span : Span
  /-- Whether a comma stands between it and the token before it. -/
  afterComma : Bool
deriving DecidableEq

namespace Lexeme

/-- What the scanner found at the start of a text. -/
structure Found where
  /-- The token. -/
  lexeme : Lexeme
  /-- Its size in bytes. -/
  size : Nat
  /-- The text after it. -/
  rest : List Char

/-- The punctuation marks of one character. -/
def isMark (c : Char) : Bool :=
  c ∈ ['!', '$', '&', '(', ')', ':', '=', '@', '[', ']', '\x7b', '|', '\x7d']

/-- Whether a character may stand between tokens. -/
def isIgnored (c : Char) : Bool := c ∈ [' ', '\t', '\n', '\r', ',', '\uFEFF']

/-- Whether a character ends a comment. -/
def isLineEnd (c : Char) : Bool := c == '\n' || c == '\r'

/-! ## Numbers -/

/-- Whether digits have a zero in front of further digits. -/
def hasLeadingZero : List Char → Bool
  | '0' :: _ :: _ => true
  | _ => false

/-- A dot and digits at the start of a text, if it starts with a dot: the characters taken and the
rest. -/
def fraction? : List Char → Option (List Char × List Char)
  | '.' :: text =>
    let digits := text.takeWhile Char.isDigit
    if digits.isEmpty then none else some ('.' :: digits, text.dropWhile Char.isDigit)
  | text => some ([], text)

/-- The sign at the start of an exponent, if there is one. -/
def sign : List Char → List Char × List Char
  | '+' :: text => (['+'], text)
  | '-' :: text => (['-'], text)
  | text => ([], text)

/-- The exponent at the start of a text, if it starts with the letter of one. -/
def exponent? : List Char → Option (List Char × List Char)
  | [] => some ([], [])
  | c :: text =>
    if c = 'e' || c = 'E' then
      let (signs, text) := sign text
      let digits := text.takeWhile Char.isDigit
      if digits.isEmpty then none else some (c :: (signs ++ digits), text.dropWhile Char.isDigit)
    else some ([], c :: text)

/-- Whether a text goes on in a way that cannot follow a number. -/
def continuesNumber (isFloat : Bool) : List Char → Bool
  | [] => false
  | c :: _ => isNameStart c || (isFloat && c == '.')

/-- The number at the start of a text. -/
def number? (text : List Char) : Option Found := do
  let (minus, text) := match text with
    | '-' :: text => (['-'], text)
    | _ => ([], text)
  let digits := text.takeWhile Char.isDigit
  if digits.isEmpty || hasLeadingZero digits then none
  let (fraction, text) ← fraction? (text.dropWhile Char.isDigit)
  let (exponent, text) ← exponent? text
  let isFloat := !(fraction.isEmpty && exponent.isEmpty)
  if continuesNumber isFloat text then none
  let written := minus ++ digits ++ fraction ++ exponent
  let literal := String.ofList written
  return ⟨if isFloat then .float literal else .int literal, written.length, text⟩

/-! ## Quoted texts -/

/-- The part of a text before its closing quote, and the rest after the quote. A backslash takes
the next character with it; a line end makes the text unreadable. -/
def untilQuote? : List Char → Option (List Char × List Char)
  | [] => none
  | '"' :: rest => some ([], rest)
  | '\\' :: c :: rest =>
    if isLineEnd c then none
    else (untilQuote? rest).map fun (inner, rest) => ('\\' :: c :: inner, rest)
  | c :: rest =>
    if isLineEnd c then none else (untilQuote? rest).map fun (inner, rest) => (c :: inner, rest)

/-- The character a backslash and this character stand for. -/
def simpleEscape? : Char → Option Char
  | '"' => some '"'
  | '\\' => some '\\'
  | '/' => some '/'
  | 'b' => some '\x08'
  | 'f' => some '\x0c'
  | 'n' => some '\n'
  | 'r' => some '\r'
  | 't' => some '\t'
  | _ => none

/-- The character an escape by code point stands for, read after its `u`, and the rest. Two escapes
of four digits may form a surrogate pair. -/
def codeEscape? : List Char → Option (Char × List Char)
  | '\x7b' :: text => do
    let digits := text.takeWhile (· != '\x7d')
    if digits.isEmpty then none
    let c ← Text.hexValue? digits >>= Text.scalar?
    match text.dropWhile (· != '\x7d') with
    | '\x7d' :: rest => some (c, rest)
    | _ => none
  | a :: b :: c :: d :: rest => do
    let code ← Text.hexValue? [a, b, c, d]
    if Text.isHighSurrogate code then
      match rest with
      | '\\' :: 'u' :: e :: f :: g :: h :: rest => do
        let low ← Text.hexValue? [e, f, g, h]
        (Text.surrogatePair? code low).map (·, rest)
      | _ => none
    -- a low surrogate without a high one in front of it is no scalar value
    else (Text.scalar? code).map (·, rest)
  | _ => none

/-- A text with its escapes resolved; `fuel` bounds the number of characters. -/
def unescapeUpTo : Nat → List Char → Option (List Char)
  | 0, text => if text.isEmpty then some [] else none
  | _ + 1, [] => some []
  | fuel + 1, '\\' :: 'u' :: text => do
    let (c, rest) ← codeEscape? text
    (unescapeUpTo fuel rest).map (c :: ·)
  | fuel + 1, '\\' :: e :: text => do
    let c ← simpleEscape? e
    (unescapeUpTo fuel text).map (c :: ·)
  | fuel + 1, c :: text => (unescapeUpTo fuel text).map (c :: ·)

/-- A text with its escapes resolved. -/
def unescape? (text : List Char) : Option (List Char) := unescapeUpTo text.length text

/-- The line end right at the start of a text, if there is one, and the rest. -/
def leadingLineEnd : List Char → List Char × List Char
  | [] => ([], [])
  | c :: rest => if isLineEnd c then ([c], rest) else ([], c :: rest)

/-- The rest of a quoted text whose opening quote was read. Right after the opening quote, and only
there, a line end is a character like any other. -/
def quoted? (text : List Char) : Option Found := do
  let (lead, text) := leadingLineEnd text
  let (inner, rest) ← untilQuote? text
  let value ← unescape? inner
  return ⟨.string (String.ofList (lead ++ value)), Text.byteLength (lead ++ inner) + 2, rest⟩

/-! ## Block texts -/

/-- The part of a block text before its closing quotes, and the rest after them. -/
def untilQuotes? : List Char → Option (List Char × List Char)
  | [] => none
  | '\\' :: '"' :: '"' :: '"' :: rest =>
    (untilQuotes? rest).map fun (inner, rest) => ('\\' :: '"' :: '"' :: '"' :: inner, rest)
  | '"' :: '"' :: '"' :: rest => some ([], rest)
  | c :: rest => (untilQuotes? rest).map fun (inner, rest) => (c :: inner, rest)

/-- A block text with its escaped quotes resolved. -/
def unescapeQuotes : List Char → List Char
  | [] => []
  | '\\' :: '"' :: '"' :: '"' :: rest => '"' :: '"' :: '"' :: unescapeQuotes rest
  | c :: rest => c :: unescapeQuotes rest

/-- A text in which every line ends with a line feed alone. -/
def plainLineEnds : List Char → List Char
  | [] => []
  | '\r' :: '\n' :: rest => '\n' :: plainLineEnds rest
  | '\r' :: rest => '\n' :: plainLineEnds rest
  | c :: rest => c :: plainLineEnds rest

/-- Whether a character counts as indentation. -/
def isIndent (c : Char) : Bool := c == ' ' || c == '\t'

/-- Whether a line holds nothing but indentation. -/
def isBlankLine (line : List Char) : Bool := line.all isIndent

/-- The least indentation of the lines that are not blank. -/
def commonIndent (lines : List (List Char)) : Option Nat :=
  ((lines.filter (!isBlankLine ·)).map fun line => (line.takeWhile isIndent).length).min?

/-- The value of a block text: the indentation common to all lines but the first goes, and so do
blank lines at both ends. -/
def blockValue (inner : List Char) : List Char :=
  let lines := Text.pieces (plainLineEnds (unescapeQuotes inner))
  let shifted : List (List Char) := match lines with
    | [] => []
    | first :: rest => first :: rest.map (List.drop ((commonIndent rest).getD 0))
  let kept := ((shifted.dropWhile isBlankLine).reverse.dropWhile isBlankLine).reverse
  Text.joinLines kept

/-- The rest of a block text whose opening quotes were read. -/
def block? (text : List Char) : Option Found := do
  let (inner, rest) ← untilQuotes? text
  return ⟨.string (String.ofList (blockValue inner)), Text.byteLength inner + 6, rest⟩

/-! ## Tokens of a text -/

/-- The token at the start of a text. -/
def first? : List Char → Option Found
  | [] => none
  | '.' :: '.' :: '.' :: rest => some ⟨.dots, 3, rest⟩
  -- three quotes always open a block text, so this comes before the empty quoted text
  | '"' :: '"' :: '"' :: rest => block? rest
  | '"' :: rest => quoted? rest
  | c :: text =>
    if isMark c then some ⟨.mark c, 1, text⟩
    else if isNameStart c then
      let name := c :: text.takeWhile isNameContinue
      some ⟨.name (String.ofList name), name.length, text.dropWhile isNameContinue⟩
    else number? (c :: text)

end Lexeme

namespace Token

/-- The tokens of a text that starts at byte offset `offset`, where `comma` tells whether a comma
was met since the last token; `fuel` bounds the number of characters. -/
def scanUpTo : Nat → Nat → Bool → List Char → Option (List Token)
  | _, _, _, [] => some []
  | 0, _, _, _ :: _ => none
  | fuel + 1, offset, comma, c :: text =>
    if Lexeme.isIgnored c then scanUpTo fuel (offset + c.utf8Size) (comma || c == ',') text
    else if c = '#' then
      let comment := text.takeWhile (!Lexeme.isLineEnd ·)
      let stop := offset + 1 + Text.byteLength comment
      -- the line end is left to the characters between tokens, and a comma in front of the comment
      -- still counts
      scanUpTo fuel stop comma (text.dropWhile (!Lexeme.isLineEnd ·))
    else
      match Lexeme.first? (c :: text) with
      | none => none
      | some found =>
        let stop := offset + found.size
        (scanUpTo fuel stop false found.rest).map (⟨found.lexeme, ⟨offset, stop⟩, comma⟩ :: ·)

/-- The tokens of a text. -/
def scan? (text : List Char) : Option (List Token) := scanUpTo text.length 0 false text

end Token
end EmbeddedGraphQL
