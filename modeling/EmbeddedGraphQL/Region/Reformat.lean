import EmbeddedGraphQL.Document.Printer
import EmbeddedGraphQL.Document.Grammar
import EmbeddedGraphQL.Indentation
import EmbeddedGraphQL.Region.Basic
import EmbeddedGraphQL.Text.Measure

/-!
# Reformatting regions

Every region of a host text that is a document is replaced by the printed document, with the
indentation of the region. Regions are replaced from the last to the first, so that the offsets of
those before stay right.

* `Region.replacement?`: what a region is replaced by.
* `Text.splice`: a text with a part of it replaced.
* `Region.reformat`: a host text with its regions replaced.
-/

namespace EmbeddedGraphQL

/-- `text` with the bytes from `start` to `stop` replaced. -/
def Text.splice (text : List Char) (start stop : Nat) (new : List Char) : List Char :=
  Text.takeBytes start text ++ new ++ Text.dropBytes stop text

namespace Region

/-- A document printed in place of a region. -/
def printed (r : Region) (d : Document) : String := Indentation.restoreString r.content d.pretty

/-- What a region is replaced by, if it is a document. -/
def replacement? (r : Region) : Option String := (Document.parse? r.content).map r.printed

/-- A host text with one region replaced. -/
def replaceIn (text : List Char) (r : Region) : List Char :=
  match r.replacement? with
  | none => text
  | some new => Text.splice text r.offset r.stop new.toList

/-- A host text with its regions replaced. -/
def reformat (regions : List Region) (text : String) : String :=
  String.ofList (regions.reverse.foldl replaceIn text.toList)

/-- How many regions stay as they are because they are no documents. -/
def unreadable (regions : List Region) : Nat := (regions.filter (·.replacement?.isNone)).length

end Region
end EmbeddedGraphQL
