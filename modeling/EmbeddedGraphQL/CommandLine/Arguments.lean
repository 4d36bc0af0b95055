import EmbeddedGraphQL.CommandLine.Command
import EmbeddedGraphQL.Json.Basic

/-!
# Arguments

The words after the name of the program. Options have long names after two hyphens and may have a
letter after one; several letters may share a hyphen. A value stands in the next word, or in the
same word behind an equals sign or right behind a letter. Two hyphens alone end the options. No
option is given twice.

* `Flag`: the options.
* `Arguments.read?`: options and other words of a command.
* `Request.parse?`: what the program is asked to do.
-/

namespace EmbeddedGraphQL

/-- The options. -/
inductive Flag where
  /-- The configuration file. -/
  | config
  /-- Tell more. -/
  | verbose
  /-- Show the version. -/
  | version
  /-- How results are shown. -/
  | format
  /-- A line. -/
  | line
  /-- A character of the line. -/
  | character
  /-- A record path. -/
  | record
  /-- Write the file. -/
  | write
  /-- The name of a field. -/
  | field
  /-- The first line of a range. -/
  | startLine
  /-- The last line of a range. -/
  | endLine
  /-- The name of a fragment. -/
  | name
deriving DecidableEq

namespace Flag

/-- The long name of an option. -/
def long : Flag → String
  | .config => "config"
  | .verbose => "verbose"
  | .version => "version"
  | .format => "format"
  | .line => "line"
  | .character => "character"
  | .record => "record"
  | .write => "write"
  | .field => "field"
  | .startLine => "start-line"
  | .endLine => "end-line"
  | .name => "name"

/-- The letter of an option. -/
def letter? : Flag → Option Char
  | .config => some 'c'
  | .verbose => some 'v'
  | .version => some 'V'
  | .format => some 'f'
  | .line => some 'l'
  | .record => some 'r'
  | .write => some 'w'
  | .name => some 'n'
  | .character | .field | .startLine | .endLine => none

/-- Whether an option has a value. -/
def hasValue : Flag → Bool
  | .verbose | .version | .write => false
  | _ => true

end Flag

/-- Options with their values; one without a value has the empty text. -/
abbrev GivenFlags := List (Flag × String)

/-- Options and other words. -/
structure Arguments where
  /-- The options, in order. -/
  flags : GivenFlags
  /-- The other words, in order. -/
  words : List String

namespace Arguments

/-- Whether a word is taken for options: it starts with a hyphen and goes on. -/
def looksLikeFlag (word : String) : Bool :=
  match word.toList with
  | '-' :: _ :: _ => true
  | _ => false

/-- The value in the next word, and the words after it. -/
def nextValue? : List String → Option (String × List String)
  | [] => none
  | word :: rest => if looksLikeFlag word then none else some (word, rest)

/-- The option with a long name, its value, and the words after it. -/
def long? (known : List Flag) (text : List Char) (rest : List String) :
    Option (GivenFlags × List String) := do
  let name := String.ofList (text.takeWhile (· != '='))
  let flag ← known.find? (·.long = name)
  match text.dropWhile (· != '=') with
  | _ :: value => if flag.hasValue then some ([(flag, String.ofList value)], rest) else none
  | [] =>
    if flag.hasValue then
      let (value, rest) ← nextValue? rest
      return ([(flag, value)], rest)
    else return ([(flag, "")], rest)

/-- The text without the equals sign it starts with. -/
def dropEquals : List Char → List Char
  | '=' :: text => text
  | text => text

/-- The options with letters, the value of the last one, and the words after it. The option that
shows the version ends the word, whatever follows it. -/
def letters? (known : List Flag) : List Char → List String → Option (GivenFlags × List String)
  | [], rest => some ([], rest)
  | c :: text, rest => do
    let flag ← known.find? (·.letter? = some c)
    if flag.hasValue then
      if text.isEmpty then
        let (value, rest) ← nextValue? rest
        return ([(flag, value)], rest)
      else return ([(flag, String.ofList (dropEquals text))], rest)
    else if flag = .version then return ([(flag, "")], rest)
    else
      let (more, rest) ← letters? known text rest
      return ((flag, "") :: more, rest)

/-- The options in a word that is taken for them, and the words after it. -/
def flags? (known : List Flag) (word : String) (rest : List String) :
    Option (GivenFlags × List String) :=
  match word.toList with
  | '-' :: '-' :: text => long? known text rest
  | '-' :: text => letters? known text rest
  | _ => none

/-- The options and other words among at most `fuel` words. -/
def readUpTo (known : List Flag) : Nat → List String → Option Arguments
  | _, [] => some ⟨[], []⟩
  | 0, _ :: _ => none
  | fuel + 1, word :: rest =>
    if word = "--" then some ⟨[], rest⟩
    else if looksLikeFlag word then do
      let (given, rest) ← flags? known word rest
      let more ← readUpTo known fuel rest
      return ⟨given ++ more.flags, more.words⟩
    else do
      let more ← readUpTo known fuel rest
      return { more with words := word :: more.words }

/-- Whether no option is given twice. -/
def areDistinct (given : GivenFlags) : Bool := (given.map (·.1)).eraseDups.length = given.length

/-- The options and other words of a command. -/
def read? (known : List Flag) (words : List String) : Option Arguments := do
  let arguments ← readUpTo known words.length words
  if areDistinct arguments.flags then some arguments else none

end Arguments

namespace GivenFlags

/-- The value of an option. -/
def value? (given : GivenFlags) (flag : Flag) : Option String :=
  (given.find? (·.1 = flag)).map (·.2)

/-- Whether an option is given. -/
def has (given : GivenFlags) (flag : Flag) : Bool := (value? given flag).isSome

/-- A value as a natural number that fits a machine word, behind an optional plus. -/
def natural? (text : String) : Option Nat :=
  match text.toList with
  | '+' :: digits => Json.word? digits
  | digits => Json.word? digits

/-- The number that has to be given with an option. -/
def number? (given : GivenFlags) (flag : Flag) : Option Nat := value? given flag >>= natural?

/-- The position: its line has to be given. -/
def position? (given : GivenFlags) : Option Position := do
  let line ← number? given .line
  let character ← match value? given .character with
    | none => some 0
    | some text => natural? text
  return ⟨line, character⟩

/-- How results are shown; for people unless told otherwise. -/
def style? (given : GivenFlags) : Option OutputStyle :=
  match value? given .format with
  | none => some .human
  | some "human" => some .human
  | some "json" => some .json
  | some _ => none

/-- The configuration file, which must not be empty; none of its own if it is not given. -/
def config? (given : GivenFlags) : Option (Option String) :=
  match value? given .config with
  | none => some none
  | some "" => none
  | some path => some (some path)

end GivenFlags

/-- The options that every command has. -/
def commonFlags : List Flag := [.config, .verbose]

/-- The options of the command with a name. -/
def commandFlags? : String → Option (List Flag)
  | "extract" => some [.format]
  | "context" => some [.line, .character, .record, .format]
  | "hover" => some [.line, .character, .format]
  | "format" => some [.write]
  | "add-field" => some [.line, .character, .record, .field]
  | "extract-fragment" => some [.line, .character, .startLine, .endLine, .name]
  | "paginate" => some [.line, .character, .record]
  | _ => none

/-- The command with a name, options and a file. -/
def Command.ofFlags? (name : String) (given : GivenFlags) (file : String) : Option Command :=
  match name with
  | "extract" => do return .extract file (← given.style?)
  | "context" => do
    return .context file (← given.position?) (← given.value? .record) (← given.style?)
  | "hover" => do return .hover file (← given.position?) (← given.style?)
  | "format" => some (.format file (given.has .write))
  | "add-field" => do
    return .addField file (← given.position?) (← given.value? .record) (← given.value? .field)
  | "extract-fragment" => do
    let lines : LineRange := ⟨← given.number? .startLine, ← given.number? .endLine⟩
    return .extractFragment file (← given.position?) lines (← given.value? .name)
  | "paginate" => do return .paginate file (← given.position?) (← given.value? .record)
  | _ => none

namespace Request

/-- The request with the name of a command and the words after it. A configuration file given there
counts for more than one given before. -/
def ofCommand? (before : Option String) (name : String) (words : List String) : Option Request := do
  let flags ← commandFlags? name
  let arguments ← Arguments.read? (commonFlags ++ flags) words
  let config ← arguments.flags.config?
  match arguments.words with
  | [file] =>
    if file.isEmpty then none
    else return .run (config.or before) (← Command.ofFlags? name arguments.flags file)
  | _ => none

/-- The request of at most `fuel` words, where some options were given before. The version is shown
as soon as it is asked for, if nothing is wrong up to there. -/
def parseUpTo : Nat → GivenFlags → List String → Option Request
  | _, _, [] => none
  | 0, _, _ :: _ => none
  | fuel + 1, given, word :: rest =>
    if word = "--" then none
    else if Arguments.looksLikeFlag word then do
      let (more, rest) ← Arguments.flags? (.version :: commonFlags) word rest
      let given := given ++ more
      let _ ← given.config?
      if !Arguments.areDistinct given then none
      else if given.has .version then some .version
      else parseUpTo fuel given rest
    else do
      let config ← given.config?
      ofCommand? config word rest

/-- What the program is asked to do. -/
def parse? (words : List String) : Option Request := parseUpTo words.length [] words

end Request
end EmbeddedGraphQL
