/-!
# Places in a text

A `Position` is a line and a column, counted from zero, the column in UTF-16 code units. A `Span`
is a pair of byte offsets. A `Range` is a pair of positions and a `LineRange` a pair of lines, both
ends included.
-/

namespace EmbeddedGraphQL

/-- A line and a column in UTF-16 code units, both counted from zero. -/
structure Position where
  /-- The line. -/
  line : Nat
  /-- The column, in UTF-16 code units. -/
  character : Nat
deriving DecidableEq

/-- The first position of a text. -/
def Position.origin : Position := ⟨0, 0⟩

/-- The byte offsets at which a piece of text starts and ends. -/
structure Span where
  /-- The offset of the first byte. -/
  start : Nat
  /-- The offset after the last byte. -/
  stop : Nat
deriving DecidableEq

/-- The positions at which a piece of text starts and ends. -/
structure Range where
  /-- Where the piece starts. -/
  start : Position
  /-- Where the piece ends. -/
  stop : Position
deriving DecidableEq

/-- Whether a line is one of those the range touches. -/
def Range.containsLine (r : Range) (line : Nat) : Bool :=
  r.start.line ≤ line && line ≤ r.stop.line

/-- A range of lines, both ends included. -/
structure LineRange where
  /-- The first line. -/
  first : Nat
  /-- The last line. -/
  last : Nat
deriving DecidableEq

/-- Whether every line from the first to the last of `inner` lies in `outer`. -/
def LineRange.contains (outer inner : LineRange) : Bool :=
  outer.first ≤ inner.first && inner.last ≤ outer.last

end EmbeddedGraphQL
