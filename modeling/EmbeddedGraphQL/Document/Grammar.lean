import EmbeddedGraphQL.Document.Basic
import EmbeddedGraphQL.Document.Token

/-!
# Grammar

Documents are read from their tokens by recursive descent. A reader takes tokens from the front of
what is left and either gives a result or fails; a text has one reading at most.

Nesting is bounded: every selection set, every item of a list value, every field of an object value
and every list type takes one from an allowance, and there is none to take when it is used up. The
allowance is also what the recursion descends on.

* `Reader`: a way to read something from the tokens that are left.
* `Grammar.value`, `Grammar.typeRef`, `Grammar.selectionSet`: the nested parts.
* `Document.parse?`: the document a text stands for.
-/

namespace EmbeddedGraphQL

/-- The tokens that are left, and where the last one taken ends. -/
structure Cursor where
  /-- The tokens that are left. -/
  tokens : List Token
  /-- The byte offset after the last token taken. -/
  last : Nat

/-- A way to read something from the tokens that are left. -/
abbrev Reader (α : Type) : Type := StateT Cursor Option α

namespace Reader

/-- The next token, which stays. -/
def peek : Reader (Option Lexeme) := fun cursor =>
  some (cursor.tokens.head?.map (·.lexeme), cursor)

/-- The token after the next one, which stays. There is none if a comma stands between the two. -/
def peekSecond : Reader (Option Lexeme) := fun cursor =>
  let second := ((cursor.tokens.drop 1).head?.filter (!·.afterComma)).map (·.lexeme)
  some (second, cursor)

/-- The next token, which is taken. -/
def take : Reader Lexeme := fun cursor =>
  match cursor.tokens with
  | [] => none
  | token :: rest => some (token.lexeme, ⟨rest, token.span.stop⟩)

/-- Where the next token starts. -/
def start : Reader Nat := fun cursor =>
  some ((cursor.tokens.head?.map (·.span.start)).getD cursor.last, cursor)

/-- Where the last token taken ends. -/
def stop : Reader Nat := fun cursor => some (cursor.last, cursor)

/-- How many tokens are left. -/
def remaining : Reader Nat := fun cursor => some (cursor.tokens.length, cursor)

/-- Takes the next token if it is the given one, and tells whether it did. -/
def accept (lexeme : Lexeme) : Reader Bool := do
  if (← peek) = some lexeme then
    let _ ← take
    return true
  else return false

/-- Takes the next token, which must be the given one. -/
def expect (lexeme : Lexeme) : Reader Unit := do
  if ← accept lexeme then return () else failure

/-- Takes the next token, which must be the given mark. -/
def expectMark (c : Char) : Reader Unit := expect (.mark c)

/-- Takes the next token if it is the given mark. -/
def acceptMark (c : Char) : Reader Bool := accept (.mark c)

/-- Takes the next token if it is the given word. -/
def acceptWord (word : String) : Reader Bool := accept (.name word)

/-- Takes the next token, which must be a name. -/
def name : Reader String := do
  match ← take with
  | .name text => return text
  | _ => failure

/-- Items up to a closing mark; `fuel` bounds their number. -/
def untilMarkUpTo {α : Type} (close : Char) (item : Reader α) : Nat → Reader (List α)
  | 0 => failure
  | fuel + 1 => do
    if ← acceptMark close then return []
    let first ← item
    let rest ← untilMarkUpTo close item fuel
    return first :: rest

/-- Items up to a closing mark. -/
def untilMark {α : Type} (close : Char) (item : Reader α) : Reader (List α) := do
  untilMarkUpTo close item (← remaining)

/-- At least one item between two marks. -/
def between {α : Type} (opening close : Char) (item : Reader α) : Reader (List α) := do
  expectMark opening
  let first ← item
  let rest ← untilMark close item
  return first :: rest

/-- At least one item between two marks, or nothing if the opening mark does not come next. -/
def betweenIfAny {α : Type} (opening close : Char) (item : Reader α) : Reader (List α) := do
  if (← peek) = some (.mark opening) then between opening close item else return []

/-- Items as long as the given token comes next; `fuel` bounds their number. -/
def whileNextUpTo {α : Type} (next : Lexeme) (item : Reader α) : Nat → Reader (List α)
  | 0 => return []
  | fuel + 1 => do
    if (← peek) = some next then
      let first ← item
      let rest ← whileNextUpTo next item fuel
      return first :: rest
    else return []

/-- Items as long as the given token comes next. -/
def whileNext {α : Type} (next : Lexeme) (item : Reader α) : Reader (List α) := do
  whileNextUpTo next item (← remaining)

/-- At least one item, each two with the mark between them, which may also stand in front. -/
def separated {α : Type} (mark : Char) (item : Reader α) : Reader (List α) := do
  let _ ← acceptMark mark
  let first ← item
  let rest ← whileNext (.mark mark) (do expectMark mark; item)
  return first :: rest

end Reader

namespace Grammar

open Reader

/-- How deep a document may be nested. -/
def maxDepth : Nat := 500

/-! ## Values and types -/

/-- A name and a value behind a colon. Without a colon there is no value and the name counts for
nothing. -/
def namedValue (value : Reader Value) : Reader (Option (String × Value)) := do
  let name ← Reader.name
  if ← acceptMark ':' then
    let v ← value
    return some (name, v)
  else return none

/-- A variable. -/
def variableRef : Reader Value := do
  let start ← Reader.start
  expectMark '$'
  let name ← Reader.name
  let stop ← Reader.stop
  return .var name (some ⟨start, stop⟩)

/-- What a name stands for as a value. -/
def nameValue : String → Value
  | "true" => .boolean true
  | "false" => .boolean false
  | "null" => .null
  | name => .enum name

/-- A value, given how to read a value inside it. A constant value has no variables. -/
def valueWith (const : Bool) (inner : Reader Value) : Reader Value := do
  match ← peek with
  | some (.mark '$') => if const then failure else variableRef
  | some (.mark '[') =>
    expectMark '['
    let items ← untilMark ']' inner
    return .list items
  | some (.mark '\x7b') =>
    expectMark '\x7b'
    let fields ← untilMark '\x7d' (namedValue inner)
    return .object (fields.filterMap id)
  | _ =>
    match ← take with
    | .name text => return nameValue text
    | .int digits => return .int digits
    | .float digits => return .float digits
    | .string text => return .string text
    | _ => failure

/-- A value, nested no deeper than the allowance. -/
def value (const : Bool) : Nat → Reader Value
  | 0 => valueWith const failure
  | depth + 1 => valueWith const (value const depth)

/-- A type reference, given how to read the item type of a list. -/
def typeRefWith (inner : Reader TypeRef) : Reader TypeRef := do
  if ← acceptMark '[' then
    let item ← inner
    expectMark ']'
    return .list item (← acceptMark '!')
  else
    let name ← Reader.name
    return .named name (← acceptMark '!')

/-- A type reference, nested no deeper than the allowance. -/
def typeRef : Nat → Reader TypeRef
  | 0 => typeRefWith failure
  | depth + 1 => typeRefWith (typeRef depth)

/-- Arguments between parentheses, or none. -/
def arguments (const : Bool) (depth : Nat) : Reader (List Argument) := do
  let items ← betweenIfAny '(' ')' (namedValue (value const depth))
  return (items.filterMap id).map fun (name, value) => ⟨name, value⟩

/-- A directive. -/
def directive (const : Bool) (depth : Nat) : Reader Directive := do
  expectMark '@'
  let name ← Reader.name
  let arguments ← arguments const depth
  return ⟨name, arguments⟩

/-- Directives, or none. -/
def directives (const : Bool) (depth : Nat) : Reader (List Directive) :=
  whileNext (.mark '@') (directive const depth)

/-! ## Selections -/

/-- The name of a field whose first word was read: with an alias it stands behind a colon. -/
def fieldName (aliased : Bool) (first : String) : Reader String := do
  if aliased then
    expectMark ':'
    Reader.name
  else return first

/-- The selection set under a field, or none. -/
def setIfAny (set : Reader (List Selection)) : Reader (List Selection) := do
  if (← peek) = some (.mark '\x7b') then set else return []

/-- A field, given how to read the selection set under it. -/
def fieldWith (depth : Nat) (set : Reader (List Selection)) : Reader Selection := do
  let start ← Reader.start
  -- behind a comma a colon makes no alias, and as nothing else takes it the text is refused
  let aliased := (← peekSecond) == some (.mark ':')
  let first ← Reader.name
  let name ← fieldName aliased first
  let arguments ← arguments false depth
  let directives ← directives false depth
  let selections ← setIfAny set
  let stop ← Reader.stop
  return .field
    { aliasName := if aliased then some first else none
      name := name
      arguments := arguments
      directives := directives
      span := some ⟨start, stop⟩ }
    selections

/-- The type condition of an inline fragment, or none. -/
def typeCondition : Reader (Option String) := do
  if ← acceptWord "on" then some <$> Reader.name else return none

/-- An inline fragment whose dots were read at byte offset `start`. -/
def inlineWith (depth start : Nat) (set : Reader (List Selection)) : Reader Selection := do
  let condition ← typeCondition
  let directives ← directives false depth
  let selections ← set
  let stop ← Reader.stop
  return .inline ⟨condition, directives, some ⟨start, stop⟩⟩ selections

/-- A spread whose dots were read at byte offset `start`. -/
def spreadAfterDots (depth start : Nat) : Reader Selection := do
  let name ← Reader.name
  let directives ← directives false depth
  let stop ← Reader.stop
  return .spread ⟨name, directives, some ⟨start, stop⟩⟩

/-- A selection, given how to read a selection set under it. What the dots introduce has to follow
them without a comma. -/
def selectionWith (depth : Nat) (set : Reader (List Selection)) : Reader Selection := do
  let start ← Reader.start
  let second ← peekSecond
  if ← accept .dots then
    match second with
    | some (.name text) =>
      if text = "on" then inlineWith depth start set else spreadAfterDots depth start
    | some _ => inlineWith depth start set
    | none => failure
  else fieldWith depth set

/-- A selection set, nested no deeper than the allowance. -/
def selectionSet : Nat → Reader (List Selection)
  | 0 => failure
  | depth + 1 => between '\x7b' '\x7d' (selectionWith depth (selectionSet depth))

/-! ## Operations and fragments -/

/-- The value behind an equals sign, or none. -/
def defaultValue : Reader (Option Value) := do
  if ← acceptMark '=' then some <$> value true maxDepth else return none

/-- A variable definition. -/
def variableDefinition : Reader VariableDefinition := do
  expectMark '$'
  let name ← Reader.name
  expectMark ':'
  let type ← typeRef maxDepth
  let default ← defaultValue
  let directives ← directives true maxDepth
  return ⟨name, type, default, directives⟩

/-- The keyword of an operation. -/
def operationKind : Reader OperationKind := do
  match OperationKind.ofKeyword? (← Reader.name) with
  | some kind => return kind
  | none => failure

/-- The name of an operation, or none. -/
def operationName : Reader (Option String) := do
  match ← peek with
  | some (.name _) => some <$> Reader.name
  | _ => return none

/-- An operation that starts with its keyword. -/
def namedOperation (start : Nat) : Reader Definition := do
  let kind ← operationKind
  let name ← operationName
  let definitions ← betweenIfAny '(' ')' variableDefinition
  let directives ← directives false maxDepth
  let selections ← selectionSet maxDepth
  let stop ← Reader.stop
  return .operation ⟨kind, name, definitions, directives, selections, some ⟨start, stop⟩⟩

/-- A query that is nothing but a selection set. -/
def bareQuery (start : Nat) : Reader Definition := do
  let selections ← selectionSet maxDepth
  let stop ← Reader.stop
  return .operation ⟨.query, none, [], [], selections, some ⟨start, stop⟩⟩

/-- A fragment definition. Its first token, which is the keyword or a description in front of it,
counts for nothing, and the second one names the fragment. -/
def fragmentDefinition (start : Nat) : Reader Definition := do
  let _ ← take
  let name ← Reader.name
  guard (name ≠ "on")
  expect (.name "on")
  let condition ← Reader.name
  let directives ← directives false maxDepth
  let selections ← selectionSet maxDepth
  let stop ← Reader.stop
  return .fragment ⟨name, condition, directives, selections, some ⟨start, stop⟩⟩

/-! ## Types, directives and schemas -/

/-- The description in front of a definition, or none. -/
def description : Reader (Option String) := do
  match ← peek with
  | some (.string text) =>
    let _ ← take
    return some text
  | _ => return none

/-- The declaration of an argument or input field. -/
def inputDeclaration : Reader InputDeclaration := do
  let description ← description
  let name ← Reader.name
  expectMark ':'
  let type ← typeRef maxDepth
  let default ← defaultValue
  let directives ← directives true maxDepth
  return ⟨description, name, type, default, directives⟩

/-- The declaration of a field. -/
def fieldDeclaration : Reader FieldDeclaration := do
  let description ← description
  let name ← Reader.name
  let arguments ← betweenIfAny '(' ')' inputDeclaration
  expectMark ':'
  let type ← typeRef maxDepth
  let directives ← directives true maxDepth
  return ⟨description, name, arguments, type, directives⟩

/-- The declaration of an enum value. -/
def enumDeclaration : Reader EnumDeclaration := do
  let description ← description
  let name ← Reader.name
  guard (name ∉ ["true", "false", "null"])
  let directives ← directives true maxDepth
  return ⟨description, name, directives⟩

/-- The interfaces a type implements, or none. -/
def interfaces : Reader (List String) := do
  if ← acceptWord "implements" then separated '&' Reader.name else return []

/-- The members of a union, or none. -/
def unionMembers : Reader (List String) := do
  if ← acceptMark '=' then separated '|' Reader.name else return []

/-- The fields of an object or interface type, or none. -/
def fieldDeclarations : Reader (List FieldDeclaration) :=
  betweenIfAny '\x7b' '\x7d' fieldDeclaration

/-- The definition of a type or what an extension adds to it, whose keyword was read. -/
def typeDeclaration : String → Reader TypeDeclaration
  | "scalar" => do
    let name ← Reader.name
    let directives ← directives true maxDepth
    return ⟨name, directives, .scalar⟩
  | "type" => do
    let name ← Reader.name
    let interfaces ← interfaces
    let directives ← directives true maxDepth
    let fields ← fieldDeclarations
    return ⟨name, directives, .object interfaces fields⟩
  | "interface" => do
    let name ← Reader.name
    let interfaces ← interfaces
    let directives ← directives true maxDepth
    let fields ← fieldDeclarations
    return ⟨name, directives, .interface interfaces fields⟩
  | "union" => do
    let name ← Reader.name
    let directives ← directives true maxDepth
    let members ← unionMembers
    return ⟨name, directives, .union members⟩
  | "enum" => do
    let name ← Reader.name
    let directives ← directives true maxDepth
    let values ← betweenIfAny '\x7b' '\x7d' enumDeclaration
    return ⟨name, directives, .enum values⟩
  | "input" => do
    let name ← Reader.name
    let directives ← directives true maxDepth
    let fields ← betweenIfAny '\x7b' '\x7d' inputDeclaration
    return ⟨name, directives, .inputObject fields⟩
  | _ => failure

/-- Whether a type declaration says anything about the type. -/
def isNonEmpty (type : TypeDeclaration) : Bool :=
  !type.directives.isEmpty ||
    match type.body with
    | .scalar => false
    | .object interfaces fields => !(interfaces.isEmpty && fields.isEmpty)
    | .interface interfaces fields => !(interfaces.isEmpty && fields.isEmpty)
    | .union members => !members.isEmpty
    | .enum values => !values.isEmpty
    | .inputObject fields => !fields.isEmpty

/-- A root type of a schema. Without a name behind the colon there is no root type. -/
def rootType : Reader (Option (OperationKind × String)) := do
  let kind ← operationKind
  expectMark ':'
  match ← peek with
  | some (.name text) =>
    let _ ← take
    return some (kind, text)
  | _ => return none

/-- The definition of a schema, whose keyword was read. Braces hold at least one root type. -/
def schemaDeclaration : Reader SchemaDeclaration := do
  let directives ← directives true maxDepth
  let roots ← betweenIfAny '\x7b' '\x7d' rootType
  return ⟨directives, roots.filterMap id⟩

/-- The root types that an extension adds; braces may be empty. -/
def addedRoots : Reader (List (Option (OperationKind × String))) := do
  if ← acceptMark '\x7b' then untilMark '\x7d' rootType else return []

/-- What an extension adds to a schema, whose keyword was read: directives, root types or both.
Braces behind a directive may be empty. -/
def schemaAddition : Reader SchemaDeclaration := do
  let directives ← directives true maxDepth
  let roots ← addedRoots
  guard (!(directives.isEmpty && roots.isEmpty))
  return ⟨directives, roots.filterMap id⟩

/-- The places where a directive may stand. -/
def directiveLocations : List String :=
  ["QUERY", "MUTATION", "SUBSCRIPTION", "FIELD", "FRAGMENT_DEFINITION", "FRAGMENT_SPREAD",
    "INLINE_FRAGMENT", "VARIABLE_DEFINITION", "SCHEMA", "SCALAR", "OBJECT", "FIELD_DEFINITION",
    "ARGUMENT_DEFINITION", "INTERFACE", "UNION", "ENUM", "ENUM_VALUE", "INPUT_OBJECT",
    "INPUT_FIELD_DEFINITION"]

/-- A place where a directive may stand. -/
def directiveLocation : Reader String := do
  let name ← Reader.name
  if name ∈ directiveLocations then return name else failure

/-- The definition of a directive, whose keyword was read. -/
def directiveDeclaration : Reader DirectiveDeclaration := do
  expectMark '@'
  let name ← Reader.name
  let arguments ← betweenIfAny '(' ')' inputDeclaration
  let repeatable ← acceptWord "repeatable"
  expect (.name "on")
  let locations ← separated '|' directiveLocation
  return ⟨name, arguments, repeatable, locations⟩

/-- A definition of the type system, whose description was read. -/
def systemDefinition (start : Nat) (description : Option String) : Reader Definition := do
  match ← Reader.name with
  | "schema" =>
    let schema ← schemaDeclaration
    return .schema description schema (some ⟨start, ← Reader.stop⟩)
  | "directive" =>
    let directive ← directiveDeclaration
    return .directive description directive (some ⟨start, ← Reader.stop⟩)
  | keyword =>
    let type ← typeDeclaration keyword
    return .type description type (some ⟨start, ← Reader.stop⟩)

/-- An extension of the type system, which must say something. The keyword of what is extended has
to follow without a comma. -/
def extension (start : Nat) : Reader Definition := do
  let second ← peekSecond
  expect (.name "extend")
  guard second.isSome
  match ← Reader.name with
  | "schema" =>
    let schema ← schemaAddition
    return .schemaExtension schema (some ⟨start, ← Reader.stop⟩)
  | keyword =>
    let type ← typeDeclaration keyword
    if isNonEmpty type then return .typeExtension type (some ⟨start, ← Reader.stop⟩) else failure

/-- A definition that starts with a description, which has to be followed by a keyword without a
comma. -/
def describedDefinition (start : Nat) : Reader Definition := do
  match ← peekSecond with
  | none => failure
  -- the description is still to come: the fragment takes it in the place of its keyword
  | some (.name "fragment") => fragmentDefinition start
  | some _ =>
    let text ← description
    systemDefinition start text

/-- A definition. -/
def definition : Reader Definition := do
  let start ← Reader.start
  match ← peek with
  | some (.mark '\x7b') => bareQuery start
  | some (.string _) => describedDefinition start
  | some (.name "fragment") => fragmentDefinition start
  | some (.name "extend") => extension start
  | some (.name word) =>
    -- any other word, known or not, is left to the definitions of the type system
    if (OperationKind.ofKeyword? word).isSome then namedOperation start
    else systemDefinition start none
  | _ => failure

/-- Definitions up to the end; `fuel` bounds their number. -/
def definitionsUpTo : Nat → Reader (List Definition)
  | 0 => return []
  | fuel + 1 => do
    if (← peek).isNone then return []
    let first ← definition
    let rest ← definitionsUpTo fuel
    return first :: rest

end Grammar

namespace Document

/-- The document a list of tokens stands for. It has at least one definition. -/
def ofTokens? (tokens : List Token) : Option Document :=
  match (Grammar.definitionsUpTo tokens.length).run ⟨tokens, 0⟩ with
  | some (first :: rest, _) => some ⟨first :: rest⟩
  | _ => none

/-- The document a text stands for, if it is one. -/
def parse? (text : String) : Option Document := (Token.scan? text.toList).bind ofTokens?

end Document
end EmbeddedGraphQL
