import EmbeddedGraphQL.Yaml.Token

/-!
# Documents of YAML

A document is a tree of scalars, sequences and mappings, in block or flow style. Where a key, a
value or an entry is missing, an empty plain scalar stands in its place. A node may have a tag, and
an anchor by which references stand for it.

Anchors are numbered by how many different names were used for anchors before them. A reference
stands for the last node whose anchor has the number that its name has at that place.

* `Node`: the tree.
* `Node.ofTokens?`: the tree of the only document among tokens.
* `Node.parse?`: the tree of the only document of a text.
* `Node.follow`: the node that a reference stands for.
-/

namespace EmbeddedGraphQL
namespace Yaml

/-- What stands in front of a node. -/
structure Properties where
  /-- Its tag. -/
  tag : Option String
  /-- The number of its anchor. -/
  anchor : Option Nat
deriving DecidableEq

/-- A node without tag and anchor. -/
def Properties.none : Properties := ⟨.none, .none⟩

/-- A node of a document. -/
inductive Node where
  /-- A scalar. -/
  | scalar (properties : Properties) (style : ScalarStyle) (text : String)
  /-- A sequence. -/
  | sequence (properties : Properties) (items : List Node)
  /-- A mapping, with its entries in order. -/
  | mapping (properties : Properties) (entries : List (Node × Node))
  /-- A reference to the anchor with a number. -/
  | reference (number : Nat)

/-- The tokens that are left of a document, and what names and handles stand for there. -/
structure Remaining where
  /-- The tokens that are left. -/
  tokens : List Token
  /-- The number that each name of an anchor has. -/
  anchors : List (String × Nat)
  /-- What handles of tags stand for. -/
  handles : List (String × String)

namespace Remaining

/-- What is left after the first token. -/
def skip (left : Remaining) : Remaining := { left with tokens := left.tokens.tail }

/-- Whether the tokens that are left start with one of the given ones. -/
def startsWith (left : Remaining) (options : List Token) : Bool :=
  left.tokens.head?.any (· ∈ options)

/-- The anchor at the start, if there is one. -/
def anchor (left : Remaining) : Option Nat × Remaining :=
  match left.tokens with
  | .anchor name :: rest =>
    let number := left.anchors.length
    let others := left.anchors.filter (·.1 ≠ name)
    (some number, { left with tokens := rest, anchors := (name, number) :: others })
  | _ => (none, left)

/-- The tag that a name stands for; its handle has to be known. -/
def tagOf? (left : Remaining) (name : Property.TagName) : Option String :=
  if name.handle.isEmpty then some name.suffix
  else (left.handles.find? (·.1 = name.handle)).map (·.2 ++ name.suffix)

/-- The tag at the start, if there is one. -/
def tag? (left : Remaining) : Option (Option String × Remaining) :=
  match left.tokens with
  | .tag name :: _ => (left.tagOf? name).map (some ·, left.skip)
  | _ => some (none, left)

/-- The anchor and the tag at the start, in either order. -/
def properties? (left : Remaining) : Option (Properties × Remaining) := do
  let (before, left) := left.anchor
  let (tag, left) ← left.tag?
  let (after, left) := if before.isNone && tag.isSome then left.anchor else (none, left)
  return (⟨tag, before.or after⟩, left)

end Remaining

namespace Node

/-- What stands for a missing node. -/
def missing : Node := .scalar .none .plain ""

/-! ## Reading -/

/-- Reads something from the tokens that are left. -/
abbrev Read (α : Type) := Remaining → Option (α × Remaining)

mutual

/-- The node at the start of what is left. Block collections are read only where `block` says so,
and entries of a sequence that opens no column of its own only where `indentless` says so. -/
def read : Nat → Bool → Bool → Read Node
  | 0, _, _, _ => none
  | fuel + 1, block, indentless, left =>
    match left.tokens with
    | .reference name :: _ => do
      let (_, number) ← left.anchors.find? (·.1 = name)
      return (.reference number, left.skip)
    | _ => do
      let (properties, left) ← left.properties?
      readContent fuel block indentless properties left

/-- The node at the start of what is left, without its properties, which were read. Where there is
none but properties, an empty scalar has them. -/
def readContent : Nat → Bool → Bool → Properties → Read Node
  | 0, _, _, _, _ => none
  | fuel + 1, block, indentless, properties, left =>
    match left.tokens, block, indentless with
    | .scalar text style :: _, _, _ => some (.scalar properties style text, left.skip)
    | .entry :: _, _, true =>
      (readIndentless fuel left).map fun (items, left) => (.sequence properties items, left)
    | .flowSequenceStart :: _, _, _ =>
      (readFlowItems fuel true left.skip).map fun (items, left) =>
        (.sequence properties items, left)
    | .flowMappingStart :: _, _, _ =>
      (readFlowEntries fuel true left.skip).map fun (entries, left) =>
        (.mapping properties entries, left)
    | .sequenceStart :: _, true, _ =>
      (readItems fuel left.skip).map fun (items, left) => (.sequence properties items, left)
    | .mappingStart :: _, true, _ =>
      (readEntries fuel left.skip).map fun (entries, left) => (.mapping properties entries, left)
    | _, _, _ =>
      if properties = .none then none else some (.scalar properties .plain "", left)

/-- The node at the start of what is left, missing where that starts with one of `stops`. -/
def readUnless (stops : List Token) : Nat → Bool → Bool → Read Node
  | 0, _, _, _ => none
  | fuel + 1, block, indentless, left =>
    if left.startsWith stops then some (missing, left) else read fuel block indentless left

/-- The rest of a sequence in block style. -/
def readItems : Nat → Read (List Node)
  | 0, _ => none
  | fuel + 1, left =>
    match left.tokens with
    | .entry :: _ => do
      let (item, left) ← readUnless [.entry, .blockEnd] fuel true false left.skip
      let (items, left) ← readItems fuel left
      return (item :: items, left)
    | .blockEnd :: _ => some ([], left.skip)
    | _ => none

/-- The rest of a sequence in block style that opens no column of its own. -/
def readIndentless : Nat → Read (List Node)
  | 0, _ => none
  | fuel + 1, left =>
    match left.tokens with
    | .entry :: _ => do
      let (item, left) ← readUnless [.entry, .key, .value, .blockEnd] fuel true false left.skip
      let (items, left) ← readIndentless fuel left
      return (item :: items, left)
    | _ => some ([], left)

/-- The rest of a mapping in block style. -/
def readEntries : Nat → Read (List (Node × Node))
  | 0, _ => none
  | fuel + 1, left =>
    match left.tokens with
    | .key :: _ => do
      let (key, left) ← readUnless [.key, .value, .blockEnd] fuel true true left.skip
      let (value, left) ← readValue [.key, .value, .blockEnd] fuel true left
      let (entries, left) ← readEntries fuel left
      return ((key, value) :: entries, left)
    | .blockEnd :: _ => some ([], left.skip)
    | _ => none

/-- The value after a key, missing where no colon follows or what is left starts with one of
`stops`. -/
def readValue (stops : List Token) : Nat → Bool → Read Node
  | 0, _, _ => none
  | fuel + 1, block, left =>
    match left.tokens with
    | .value :: _ => readUnless stops fuel block block left.skip
    | _ => some (missing, left)

/-- The key of an item of a sequence in flow style that is a mapping of one entry. Where it is
missing, the token that stands in its place is lost. -/
def readItemKey : Nat → Read Node
  | 0, _ => none
  | fuel + 1, left =>
    if left.startsWith [.value, .flowEntry, .flowSequenceEnd] then some (missing, left.skip)
    else read fuel false false left

/-- The rest of a sequence in flow style, before its first item or before a comma. A key makes an
item a mapping of one entry. -/
def readFlowItems : Nat → Bool → Read (List Node)
  | 0, _, _ => none
  | fuel + 1, first, left =>
    if left.startsWith [.flowSequenceEnd] then some ([], left.skip)
    else do
      if !(first || left.startsWith [.flowEntry]) then none
      let left := if first then left else left.skip
      match left.tokens with
      | .flowSequenceEnd :: _ => return ([], left.skip)
      | .key :: _ =>
        let (key, left) ← readItemKey fuel left.skip
        let (value, left) ← readValue [.flowEntry, .flowSequenceEnd] fuel false left
        let (items, left) ← readFlowItems fuel false left
        return (.mapping .none [(key, value)] :: items, left)
      | _ =>
        let (item, left) ← read fuel false false left
        let (items, left) ← readFlowItems fuel false left
        return (item :: items, left)

/-- The rest of a mapping in flow style, before its first entry or before a comma. -/
def readFlowEntries : Nat → Bool → Read (List (Node × Node))
  | 0, _, _ => none
  | fuel + 1, first, left =>
    if left.startsWith [.flowMappingEnd] then some ([], left.skip)
    else do
      if !(first || left.startsWith [.flowEntry]) then none
      let left := if first then left else left.skip
      match left.tokens with
      | .flowMappingEnd :: _ => return ([], left.skip)
      | .key :: _ =>
        let (key, left) ←
          readUnless [.value, .flowEntry, .flowMappingEnd] fuel false false left.skip
        let (value, left) ← readValue [.flowEntry, .flowMappingEnd] fuel false left
        let (entries, left) ← readFlowEntries fuel false left
        return ((key, value) :: entries, left)
      | _ =>
        let (key, left) ← read fuel false false left
        let (entries, left) ← readFlowEntries fuel false left
        return ((key, missing) :: entries, left)

end

/-! ## Documents -/

/-- The directives at the start of tokens, and the tokens after them. -/
def directives : List Token → List Directive × List Token
  | .directive d :: rest => let (more, rest) := directives rest; (d :: more, rest)
  | tokens => ([], tokens)

/-- Whether a token stands outside of documents. -/
def isBoundary : Token → Bool
  | .directive _ | .documentStart | .documentEnd => true
  | _ => false

/-- The root of a document at the start of tokens, and the tokens after it. Directives ask for the
mark that starts a document, and after that mark the root may be missing. -/
def readRoot (tokens : List Token) : Option (Node × List Token) := do
  let (given, rest) := directives tokens
  let handles ← Directive.handles? given
  let fuel := 4 * tokens.length + 4
  match rest with
  | .documentStart :: rest =>
    if rest.head?.all isBoundary then return (missing, rest)
    let (root, left) ← read fuel true false ⟨rest, [], handles⟩
    return (root, left.tokens)
  | [] => none
  | _ =>
    if !given.isEmpty then none
    let (root, left) ← read fuel true false ⟨rest, [], handles⟩
    return (root, left.tokens)

/-- The tree of the only document among tokens. -/
def ofTokens? (tokens : List Token) : Option Node := do
  let (node, rest) ← readRoot tokens
  if rest.all (· = .documentEnd) then some node else none

/-- The tree of the only document of a text. -/
def parse? (text : String) : Option Node := Token.scan? text.toList >>= ofTokens?

/-! ## References -/

/-- A node under the number of its anchor, if it has one. -/
def underAnchor (node : Node) (properties : Properties) : List (Nat × Node) :=
  properties.anchor.toList.map (·, node)

mutual

/-- The nodes with an anchor, in the order in which they start. -/
def anchored : Node → List (Nat × Node)
  | .scalar properties style text => underAnchor (.scalar properties style text) properties
  | .sequence properties items =>
    underAnchor (.sequence properties items) properties ++ anchoredItems items
  | .mapping properties entries =>
    underAnchor (.mapping properties entries) properties ++ anchoredEntries entries
  | .reference _ => []

/-- The nodes with an anchor in some nodes. -/
def anchoredItems : List Node → List (Nat × Node)
  | [] => []
  | item :: items => anchored item ++ anchoredItems items

/-- The nodes with an anchor in some entries. -/
def anchoredEntries : List (Node × Node) → List (Nat × Node)
  | [] => []
  | (key, value) :: entries => anchored key ++ anchored value ++ anchoredEntries entries

end

/-- The node that a node of the tree `root` stands for: the one a reference refers to, or itself. -/
def follow (root : Node) : Node → Node
  | .reference number =>
    ((root.anchored.reverse.find? (·.1 = number)).map (·.2)).getD (.reference number)
  | node => node

end Node
end Yaml
end EmbeddedGraphQL
