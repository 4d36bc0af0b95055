/-!
# Patterns of names

A pattern of a name has characters that stand for themselves, `?` for any character, `*` for any
characters, and sets of characters in square brackets, which a `!` turns into their opposite.

* `NamePattern.parse?`: the pattern a text stands for.
* `NamePattern.matches`: whether a name fits a pattern.
* `PathPattern.parse?`: a pattern of paths, name by name; `**` stands for any number of
  directories.
-/

namespace EmbeddedGraphQL

/-- A part of a set of characters. -/
inductive CharSpec where
  /-- One character. -/
  | single (c : Char)
  /-- All characters from one to another. -/
  | range (first last : Char)
deriving DecidableEq

/-- Whether a part of a set holds a character. -/
def CharSpec.holds (c : Char) : CharSpec → Bool
  | .single d => c = d
  | .range first last => first ≤ c && c ≤ last

/-- The set of characters that the text between brackets stands for. -/
def CharSpec.ofText : List Char → List CharSpec
  | first :: '-' :: last :: rest => .range first last :: ofText rest
  | c :: rest => .single c :: ofText rest
  | [] => []

/-- A part of a pattern of a name. -/
inductive NamePart where
  /-- This character. -/
  | char (c : Char)
  /-- Any character. -/
  | anyChar
  /-- Any characters, or none. -/
  | anyChars
  /-- A character of a set. -/
  | within (set : List CharSpec)
  /-- A character that is not in a set. -/
  | except (set : List CharSpec)
deriving DecidableEq

/-- The character that a part stands for, if it stands for one alone. -/
def NamePart.char? : NamePart → Option Char
  | .char c => some c
  | _ => none

/-- A pattern of a name. -/
abbrev NamePattern := List NamePart

namespace NamePattern

/-- The text before the closing bracket and the text after it, where the first character is taken
even if it is a bracket. -/
def brackets? : List Char → Option (List Char × List Char)
  | [] => none
  | first :: rest =>
    match rest.dropWhile (· != ']') with
    | [] => none
    | _ :: after => some (first :: rest.takeWhile (· != ']'), after)

/-- The set that stands after an opening bracket, and the text after it. -/
def set? : List Char → Option (NamePart × List Char)
  | '!' :: text => (brackets? text).map fun (inner, rest) => (.except (CharSpec.ofText inner), rest)
  | text => (brackets? text).map fun (inner, rest) => (.within (CharSpec.ofText inner), rest)

/-- The pattern that a text of at most `fuel` characters stands for. Stars do not stand next to one
another. -/
def parseUpTo : Nat → List Char → Option NamePattern
  | _, [] => some []
  | 0, _ :: _ => none
  | fuel + 1, '[' :: text => do
    let (part, rest) ← set? text
    (parseUpTo fuel rest).map (part :: ·)
  | fuel + 1, c :: text =>
    if c = '*' then
      if text.head? = some '*' then none else (parseUpTo fuel text).map (.anyChars :: ·)
    else if c = '?' then (parseUpTo fuel text).map (.anyChar :: ·)
    else (parseUpTo fuel text).map (.char c :: ·)

/-- The pattern that a text stands for. -/
def parse? (text : List Char) : Option NamePattern := parseUpTo text.length text

/-- Whether some end of a text, the whole of it included, passes a test. -/
def someSuffix (test : List Char → Bool) : List Char → Bool
  | [] => test []
  | c :: text => test (c :: text) || someSuffix test text

/-- Whether a name fits a pattern. -/
def fits : NamePattern → List Char → Bool
  | [], name => name.isEmpty
  | .anyChars :: rest, name => someSuffix (fits rest) name
  | .char c :: rest, d :: name => c = d && fits rest name
  | .anyChar :: rest, _ :: name => fits rest name
  | .within set :: rest, d :: name => set.any (·.holds d) && fits rest name
  | .except set :: rest, d :: name => !set.any (·.holds d) && fits rest name
  | _ :: _, [] => false

/-- The only name that fits a pattern all of whose parts are characters. -/
def literal? (pattern : NamePattern) : Option String :=
  (pattern.mapM NamePart.char?).map String.ofList

end NamePattern

/-- A part of a pattern of paths, between separators. -/
inductive PathPart where
  /-- This name. -/
  | literal (name : String)
  /-- Any name that fits a pattern. -/
  | wild (pattern : NamePattern)
  /-- Any number of directories. -/
  | anyDepth
deriving DecidableEq

/-- A pattern of paths. -/
structure PathPattern where
  /-- Whether paths start at the root. -/
  fromRoot : Bool
  /-- The parts. No two in a row stand for directories of any number. -/
  parts : List PathPart
  /-- Whether only directories are meant. -/
  directoriesOnly : Bool
deriving DecidableEq

namespace PathPattern

/-- The part that a text between separators stands for. -/
def part? (text : List Char) : Option PathPart :=
  if text = ['*', '*'] then some .anyDepth
  else
    (NamePattern.parse? text).map fun pattern =>
      match pattern.literal? with
      | some name => .literal name
      | none => .wild pattern

/-- The parts with only one of several in a row that stand for any number of directories. -/
def collapse : List PathPart → List PathPart
  | [] => []
  | part :: rest =>
    if part = .anyDepth && rest.head? = some .anyDepth then collapse rest else part :: collapse rest

/-- The pieces of a text between separators, without an empty one at the end. -/
def pieces (text : List Char) : List (List Char) :=
  let all := text.splitOn '/'
  if all.getLast? = some [] then all.dropLast else all

/-- The pattern that a text stands for. -/
def parse? (text : String) : Option PathPattern := do
  let chars := text.toList
  let fromRoot := chars.head? = some '/'
  let own := if fromRoot then chars.drop 1 else chars
  let parts ← (if own.isEmpty then [[]] else pieces own).mapM part?
  return ⟨fromRoot, collapse parts, chars.getLast? = some '/'⟩

end PathPattern
end EmbeddedGraphQL
