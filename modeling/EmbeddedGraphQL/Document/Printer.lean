import EmbeddedGraphQL.Address
import EmbeddedGraphQL.Document.Basic
import EmbeddedGraphQL.Document.Token

/-!
# Printer

The written form of a document in two layouts: on one line, or over several lines with two blanks
of indentation per level. Values of arguments, variables and directives are always written on one
line; where line breaks are allowed, lists and objects take a line per item, and descriptions and
texts of several lines are written as block texts.

* `Layout`: on one line, or over lines at a level of indentation.
* `Printer.value`, `Printer.selection`, `Printer.definition`: the parts of a document.
* `Document.pretty`, `Document.compact`: the two written forms of a document.
-/

namespace EmbeddedGraphQL

/-- How the parts of a document are laid out. -/
inductive Layout where
  /-- All on one line. -/
  | oneLine
  /-- Over several lines, indented by a number of levels. -/
  | lines (level : Nat)
deriving DecidableEq

namespace Layout

/-- What separates two parts: a blank, or a line feed and the indentation. -/
def gap : Layout → String
  | .oneLine => " "
  | .lines level => "\n" ++ String.ofList (List.replicate (2 * level) ' ')

/-- The layout of the parts inside brackets. -/
def inner : Layout → Layout
  | .oneLine => .oneLine
  | .lines level => .lines (level + 1)

/-- Whether parts may stand on lines of their own. -/
def breaks : Layout → Bool
  | .oneLine => false
  | .lines _ => true

/-- Parts between braces, with gaps between them. -/
def braces (layout : Layout) (parts : List String) : String :=
  if parts.isEmpty then "\x7b\x7d"
  else "\x7b" ++ layout.inner.gap ++ layout.inner.gap.intercalate parts ++ layout.gap ++ "\x7d"

/-- Parts between brackets: separated by commas on one line, or one per line with a comma after
each. -/
def commas (layout : Layout) (opening close : String) (parts : List String) : String :=
  if parts.isEmpty then opening ++ close
  else if layout.breaks then
    let written := parts.map fun part => layout.inner.gap ++ part ++ ","
    opening ++ String.join written ++ layout.gap ++ close
  else opening ++ ", ".intercalate parts ++ close

end Layout

namespace Printer

/-! ## Texts -/

/-- A hexadecimal digit, in upper case. -/
def upperHexDigit (n : Nat) : Char :=
  if n < 10 then Char.ofNat ('0'.toNat + n) else Char.ofNat ('A'.toNat + (n - 10))

/-- How a character is written between quotes. -/
def escapeChar (c : Char) : List Char :=
  if c = '"' then ['\\', '"']
  else if c = '\\' then ['\\', '\\']
  -- a tab may stand between quotes as it is; it has an escape but is not given one
  else if c = '\t' then ['\t']
  else if c = '\x08' then ['\\', 'b']
  else if c = '\n' then ['\\', 'n']
  else if c = '\x0c' then ['\\', 'f']
  else if c = '\r' then ['\\', 'r']
  else if c.toNat < 0x20 then
    ['\\', 'u', '0', '0', upperHexDigit (c.toNat / 16), upperHexDigit (c.toNat % 16)]
  else [c]

/-- A text between quotes. -/
def quoted (text : String) : String :=
  "\"" ++ String.ofList (text.toList.flatMap escapeChar) ++ "\""

/-- Whether a text is the value of the block text that is written for it: it has no carriage
return, its first and last line are not blank, and not all of its lines are indented. -/
def fitsBlock (text : List Char) : Bool :=
  let lines := Text.pieces text
  !text.contains '\r' &&
    !((lines.head?.map Lexeme.isBlankLine).getD true) &&
    !((lines.getLast?.map Lexeme.isBlankLine).getD true) &&
    Lexeme.commonIndent lines == some 0

/-- A text in which three quotes in a row are escaped. -/
def escapeQuotes : List Char → List Char
  | [] => []
  | '"' :: '"' :: '"' :: rest => '\\' :: '"' :: '"' :: '"' :: escapeQuotes rest
  | c :: rest => c :: escapeQuotes rest

/-- The longest text, in bytes, that a block text holds on one line. -/
def maxOneLineBlock : Nat := 70

/-- Whether a block text needs lines of its own. -/
def needsLines (text : List Char) : Bool :=
  text.contains '\n' || maxOneLineBlock < Text.byteLength text ||
    text.getLast? == some '"' || text.getLast? == some '\\'

/-- A text between three quotes, in a layout that breaks. -/
def blockText (layout : Layout) (text : List Char) : String :=
  let quotes := "\"\"\""
  if needsLines text then
    -- an empty line stays so: blank lines do not count when the indentation is taken away again
    let line (piece : List Char) : String :=
      if piece.isEmpty then "\n" else layout.gap ++ String.ofList (escapeQuotes piece)
    quotes ++ String.join ((Text.pieces text).map line) ++ layout.gap ++ quotes
  else quotes ++ String.ofList (escapeQuotes text) ++ quotes

/-- A text, as a block if it is one by preference and can be. -/
def text (layout : Layout) (preferBlock : Bool) (s : String) : String :=
  let chars := s.toList
  if layout.breaks && (preferBlock || chars.contains '\n') && fitsBlock chars then
    blockText layout chars
  else quoted s

/-- A description in front of a definition, with the gap after it. -/
def description (layout : Layout) : Option String → String
  | none => ""
  | some s => text layout true s ++ layout.gap

/-! ## Values and directives -/

mutual

/-- A value. -/
def value (layout : Layout) : Value → String
  | .null => "null"
  | .boolean true => "true"
  | .boolean false => "false"
  | .enum name => name
  | .int digits => digits
  | .float digits => digits
  | .string s => text layout false s
  | .var name _ => "$" ++ name
  | .list items => layout.commas "[" "]" (values layout.inner items)
  | .object fields => layout.commas "\x7b" "\x7d" (objectFields layout.inner fields)

/-- The items of a list. -/
def values (layout : Layout) : List Value → List String
  | [] => []
  | v :: rest => value layout v :: values layout rest

/-- The fields of an object. -/
def objectFields (layout : Layout) : List (String × Value) → List String
  | [] => []
  | (name, v) :: rest => (name ++ ": " ++ value layout v) :: objectFields layout rest

end

/-- Arguments between parentheses, on one line; nothing if there are none. -/
def arguments (args : List Argument) : String :=
  if args.isEmpty then ""
  else Layout.oneLine.commas "(" ")" (args.map fun a => a.name ++ ": " ++ value .oneLine a.value)

/-- A directive. -/
def directive (d : Directive) : String := "@" ++ d.name ++ arguments d.arguments

/-- Directives, each behind a blank. -/
def directives (ds : List Directive) : String := String.join (ds.map fun d => " " ++ directive d)

/-! ## Selections -/

/-- A field without the selections under it. -/
def fieldHead (f : Field) : String :=
  let shown := match f.aliasName with
    | some shown => shown ++ ": "
    | none => ""
  shown ++ f.name ++ arguments f.arguments ++ directives f.directives

/-- An inline fragment without the selections under it. -/
def inlineHead (f : InlineFragment) : String :=
  let condition := match f.typeCondition with
    | some condition => " on " ++ condition
    | none => ""
  "..." ++ condition ++ directives f.directives

/-- A spread. -/
def spread (s : FragmentSpread) : String := "..." ++ s.name ++ directives s.directives

mutual

/-- A selection. -/
def selection (layout : Layout) : Selection → String
  | .field f [] => fieldHead f
  | .field f (s :: rest) =>
    fieldHead f ++ " " ++ layout.braces (selection layout.inner s :: selections layout.inner rest)
  | .inline f set => inlineHead f ++ " " ++ layout.braces (selections layout.inner set)
  | .spread s => spread s

/-- The entries of a selection set. -/
def selections (layout : Layout) : List Selection → List String
  | [] => []
  | s :: rest => selection layout s :: selections layout rest

end

/-- A selection set between braces. -/
def selectionSet (layout : Layout) (set : List Selection) : String :=
  layout.braces (selections layout.inner set)

/-! ## Definitions -/

/-- The value a variable or input takes if none is given. -/
def default (layout : Layout) : Option Value → String
  | none => ""
  | some v => " = " ++ value layout v

/-- A variable definition. -/
def variableDefinition (v : VariableDefinition) : String :=
  "$" ++ v.name ++ ": " ++ v.type.text ++ default .oneLine v.default ++ directives v.directives

/-- An operation. As the first thing written, a query with nothing but selections needs no
keyword. -/
def operation (layout : Layout) (isFirst : Bool) (o : Operation) : String :=
  let bare :=
    isFirst && o.kind = .query && o.name.isNone && o.variableDefinitions.isEmpty &&
      o.directives.isEmpty
  if bare then selectionSet layout o.selections
  else
    let name := match o.name with
      | some name => " " ++ name
      | none => ""
    let definitions :=
      if o.variableDefinitions.isEmpty then ""
      else Layout.oneLine.commas "(" ")" (o.variableDefinitions.map variableDefinition)
    o.kind.keyword ++ name ++ definitions ++ directives o.directives ++ " " ++
      selectionSet layout o.selections

/-- A fragment definition. -/
def fragment (layout : Layout) (f : Fragment) : String :=
  "fragment " ++ f.name ++ " on " ++ f.typeCondition ++ directives f.directives ++ " " ++
    selectionSet layout f.selections

/-- The declaration of an argument or input field. -/
def inputDeclaration (layout : Layout) (d : InputDeclaration) : String :=
  description layout d.description ++ d.name ++ ": " ++ d.type.text ++ default layout d.default ++
    directives d.directives

/-- The declarations of arguments; over several lines if one has a description or directive. -/
def argumentDeclarations (layout : Layout) (ds : List InputDeclaration) : String :=
  if ds.isEmpty then ""
  else
    -- the choice also holds for the values inside: on one line there are no block texts
    let layout :=
      if ds.any fun d => d.description.isSome || !d.directives.isEmpty then layout else .oneLine
    layout.commas "(" ")" (ds.map (inputDeclaration layout.inner))

/-- The declaration of a field. -/
def fieldDeclaration (layout : Layout) (d : FieldDeclaration) : String :=
  description layout d.description ++ d.name ++ argumentDeclarations layout d.arguments ++ ": " ++
    d.type.text ++ directives d.directives

/-- The declaration of an enum value. -/
def enumDeclaration (layout : Layout) (d : EnumDeclaration) : String :=
  description layout d.description ++ d.name ++ directives d.directives

/-- Parts between braces behind a blank; nothing if there are none. -/
def body (layout : Layout) (parts : List String) : String :=
  if parts.isEmpty then "" else " " ++ layout.braces parts

/-- The interfaces a type implements. -/
def interfaces (names : List String) : String :=
  if names.isEmpty then "" else " implements " ++ " & ".intercalate names

/-- The definition of a type, or what an extension adds to it. -/
def typeDeclaration (layout : Layout) (t : TypeDeclaration) : String :=
  let annotations := directives t.directives
  match t.body with
  | .scalar => "scalar " ++ t.name ++ annotations
  | .object names fields =>
    "type " ++ t.name ++ interfaces names ++ annotations ++
      body layout (fields.map (fieldDeclaration layout.inner))
  | .interface names fields =>
    "interface " ++ t.name ++ interfaces names ++ annotations ++
      body layout (fields.map (fieldDeclaration layout.inner))
  | .union members =>
    "union " ++ t.name ++ annotations ++
      (if members.isEmpty then "" else " = " ++ " | ".intercalate members)
  | .enum values =>
    "enum " ++ t.name ++ annotations ++ body layout (values.map (enumDeclaration layout.inner))
  | .inputObject fields =>
    "input " ++ t.name ++ annotations ++ body layout (fields.map (inputDeclaration layout.inner))

/-- The definition of a directive. -/
def directiveDeclaration (layout : Layout) (d : DirectiveDeclaration) : String :=
  "directive @" ++ d.name ++ argumentDeclarations layout d.arguments ++
    (if d.repeatable then " repeatable" else "") ++ " on " ++ " | ".intercalate d.locations

/-- The root types of a schema. -/
def rootTypes (roots : List (OperationKind × String)) : List String :=
  roots.map fun (kind, name) => kind.keyword ++ ": " ++ name

/-- A definition, which may be the first thing written. -/
def definition (layout : Layout) (isFirst : Bool) : Definition → String
  | .operation o => operation layout isFirst o
  | .fragment f => fragment layout f
  | .directive d directive _ => description layout d ++ directiveDeclaration layout directive
  | .schema d schema _ =>
    description layout d ++ "schema" ++ directives schema.directives ++ " " ++
      layout.braces (rootTypes schema.roots)
  | .schemaExtension schema _ =>
    "extend schema" ++ directives schema.directives ++ body layout (rootTypes schema.roots)
  | .type d type _ => description layout d ++ typeDeclaration layout type
  | .typeExtension type _ => "extend " ++ typeDeclaration layout type

/-- The definitions of a document, the first of them as the first thing written. -/
def definitions (layout : Layout) : List Definition → List String
  | [] => []
  | first :: rest => definition layout true first :: rest.map (definition layout false)

end Printer

namespace Document

/-- The document over several lines, with an empty line between definitions and a line feed at the
end. -/
def pretty (d : Document) : String :=
  "\n\n".intercalate (Printer.definitions (.lines 0) d.definitions) ++ "\n"

/-- The document on one line. -/
def compact (d : Document) : String :=
  " ".intercalate (Printer.definitions .oneLine d.definitions)

end Document

namespace Selection

/-- The selection on one line. -/
def compact (s : Selection) : String := Printer.selection .oneLine s

end Selection

namespace Node

/-- The node on one line. -/
def compact : Node → String
  | .operation o => Printer.operation .oneLine true o
  | .fragment f => Printer.fragment .oneLine f
  | .field f set => Printer.selection .oneLine (.field f set)
  | .inline f set => Printer.selection .oneLine (.inline f set)

end Node
end EmbeddedGraphQL
