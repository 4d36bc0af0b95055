import EmbeddedGraphQL.Json.Basic
import EmbeddedGraphQL.Yaml.Node
import EmbeddedGraphQL.Yaml.Scalar

/-!
# Records in data formats

A record has fields in a fixed order. In a data format it is written with the names of its fields
or, where the format allows it, as a list of their values in order, of which the last ones may be
left out.

* `Record.admits`, `Record.field?`: reading a record.
* `DataFormat`: what reading a configuration asks of a data format.
* `Json.format`, `Yaml.Node.format`: the two data formats.
-/

namespace EmbeddedGraphQL

/-- A record as it is written. -/
inductive WrittenRecord (α : Type) where
  /-- With the names of its fields. -/
  | named (fields : List (String × α))
  /-- As a list of values. -/
  | positional (values : List α)

namespace WrittenRecord

/-- Whether this may be a record with fields of the given names: none is given twice and the list
is not too long. Other names do no harm. -/
def admits {α : Type} (names : List String) : WrittenRecord α → Bool
  | .named fields => names.all fun name => (fields.filter (·.1 = name)).length ≤ 1
  | .positional values => values.length ≤ names.length

/-- The value of a field. -/
def field? {α : Type} (names : List String) (name : String) : WrittenRecord α → Option α
  | .named fields => (fields.find? (·.1 = name)).map (·.2)
  | .positional values => values[names.idxOf name]?

end WrittenRecord

/-- What reading a configuration asks of a data format. Where a text or a list is asked for, a
format may accept more than what is one by itself. -/
structure DataFormat (α : Type) where
  /-- Whether a value is null. -/
  isNull : α → Bool
  /-- The text a value is by itself. -/
  ownText? : α → Option String
  /-- The list a value is by itself. -/
  ownItems? : α → Option (List α)
  /-- The text a value stands for where one is asked for. -/
  text? : α → Option String
  /-- The list a value stands for where one is asked for. -/
  items? : α → Option (List α)
  /-- The natural number a value stands for, if it fits a machine word. -/
  natural? : α → Option Nat
  /-- The record a value stands for. -/
  record? : α → Option (WrittenRecord α)

namespace Json

/-- The record an object or a list stands for. -/
def record? : Json → Option (WrittenRecord Json)
  | .object members => some (.named members)
  | .array items => some (.positional items)
  | _ => none

/-- In JSON every value says by itself what it is. -/
def format : DataFormat Json where
  isNull := isNull
  ownText? := text?
  ownItems? := items?
  text? := text?
  items? := items?
  natural? := natural?
  record? := record?

end Json

namespace Yaml
namespace Node

/-- The tags of nodes that are no text, whatever is written there. -/
def plainTags : List String :=
  ["null", "bool", "int", "float"].map ("tag:yaml.org,2002:" ++ ·)

/-- The tag of the null value. -/
def nullTag : String := "tag:yaml.org,2002:null"

/-- The tag of whole numbers. -/
def intTag : String := "tag:yaml.org,2002:int"

/-- Whether a tag has a meaning for some programs alone. -/
def isLocalTag (tag : String) : Bool := tag.toList.head? = some '!'

/-- Whether a node is null. -/
def isNull : Node → Bool
  | .scalar ⟨none, _⟩ .plain text => Scalar.isNull text
  | .scalar ⟨some tag, _⟩ .plain text => tag = nullTag && Scalar.isNull text && !text.isEmpty
  | _ => false

/-- The text a scalar is by itself. A tag says whether it is one; without a tag a plain scalar may
be something else. -/
def ownText? : Node → Option String
  | .scalar ⟨some tag, _⟩ _ text => if isLocalTag tag || tag ∈ plainTags then none else some text
  | .scalar ⟨none, _⟩ .plain text => if Scalar.isText text then some text else none
  | .scalar ⟨none, _⟩ _ text => some text
  | _ => none

/-- The items of a sequence, unless its tag gives it another meaning. -/
def ownItems? : Node → Option (List Node)
  | .sequence ⟨tag, _⟩ items => if tag.any isLocalTag then none else some items
  | _ => none

/-- The text of a scalar of any kind. -/
def text? : Node → Option String
  | .scalar _ _ text => some text
  | _ => none

/-- The items of a sequence; a missing node is an empty one. -/
def items? : Node → Option (List Node)
  | .sequence _ items => some items
  | .scalar _ .plain "" => some []
  | _ => none

/-- The natural number a plain scalar stands for, or a literal one with the tag of whole numbers. -/
def natural? : Node → Option Nat
  | .scalar ⟨tag, _⟩ style text =>
    if style = .plain || (style = .literal && tag = some intTag) then
      (Scalar.natural? text).filter (· < Json.wordBound)
    else none
  | _ => none

/-- The record a mapping stands for in the tree `root`; a missing node is one without fields. -/
def record? (root : Node) : Node → Option (WrittenRecord Node)
  | .mapping _ entries =>
    (entries.mapM fun (entry : Node × Node) =>
      (text? (root.follow entry.1)).map (·, entry.2)).map .named
  | .scalar _ .plain "" => some (.named [])
  | _ => none

/-- In YAML a plain scalar is a text where one is asked for, whatever it is by itself. References in
the tree `root` are followed. -/
def format (root : Node) : DataFormat Node where
  isNull node := isNull (root.follow node)
  ownText? node := ownText? (root.follow node)
  ownItems? node := ownItems? (root.follow node)
  text? node := text? (root.follow node)
  items? node := items? (root.follow node)
  natural? node := natural? (root.follow node)
  record? node := record? root (root.follow node)

end Node
end Yaml
end EmbeddedGraphQL
