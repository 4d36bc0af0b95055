import EmbeddedGraphQL.Text.Word

/-!
# Hover text

The text shown for a value in the host language names the generated record type of the value in a
fenced block: backticks, `rescript`, a line feed, a module, a dot, the name of an operation or
fragment followed by `_graphql.Types.`, a record path and a line feed. Blocks are looked for from
left to right, each behind the one before, and the last one counts.

* `HoverRecord.greedy?`, `HoverRecord.literal?`: the parts that the pattern of a block is made of.
* `HoverRecord.here?`: the record named by a block at the very start of a text.
* `HoverRecord.recordsFrom`: the records named by the blocks of a text.
* `HoverRecord.find?`: the record named by the last block of a text.
-/

namespace EmbeddedGraphQL

/-- A generated record type. -/
structure HoverRecord where
  /-- The operation or fragment the type was generated for. -/
  definition : String
  /-- The joined record path inside that definition. -/
  record : String
deriving DecidableEq

namespace HoverRecord

variable {α : Type}

/-- The longest run of characters of a kind at the start of a text, one character at least, behind
which the rest of the pattern matches, and what the rest of the pattern gives. -/
def greedy? (p : Char → Bool) (behind : List Char → Option α) :
    List Char → Option (List Char × α)
  | [] => none
  | c :: text =>
    if p c then
      ((greedy? p behind text).map fun found => (c :: found.1, found.2)).or
        ((behind text).map fun found => ([c], found))
    else none

/-- A given text, and what the rest of the pattern gives behind it. -/
def literal? (word : List Char) (behind : List Char → Option α) (text : List Char) : Option α :=
  (word.isPrefixOf? text).bind behind

/-- The record named by a block at the very start of a text, and the text behind the block. -/
def here? (text : List Char) : Option (HoverRecord × List Char) :=
  let block := greedy? (· == '`') (literal? "rescript\n".toList
    (greedy? Text.isWord (literal? ".".toList
      (greedy? Text.isWord (literal? "_graphql.Types.".toList
        (greedy? Text.isWord (literal? "\n".toList some)))))))
  (block text).map fun (_, _, definition, record, rest) =>
    (⟨String.ofList definition, String.ofList record⟩, rest)

/-- The records named by the blocks of a text, of which the first characters are skipped. -/
def recordsFrom : Nat → List Char → List HoverRecord
  | _, [] => []
  | skip + 1, _ :: text => recordsFrom skip text
  | 0, c :: text =>
    match here? (c :: text) with
    -- this step passes over `c`, so only the rest of the block is left to skip
    | some (record, rest) => record :: recordsFrom (text.length - rest.length) text
    | none => recordsFrom 0 text

/-- The record named by the last block of a text. -/
def find? (text : String) : Option HoverRecord := (recordsFrom 0 text.toList).getLast?

end HoverRecord
end EmbeddedGraphQL
