import Mathlib.Data.Nat.PSub
import EmbeddedGraphQL.Proofs.LineIndex.Reached
import EmbeddedGraphQL.Proofs.Text.Pieces

/-!
# Cuts that fail inside a character

A text is cut at byte offsets, and such a cut makes sense only between two characters. Here a cut
anywhere else fails, where `Text.takeBytes` and `Text.dropBytes` would take whole characters.

* `Text.cut?`: the two parts of a text at a byte offset.
* `Text.slice?`: the text between two byte offsets, if both lie between characters.
* `Text.slice?_append`: a slice between characters does not fail.
-/

namespace EmbeddedGraphQL
namespace Text

/-- The text before a byte offset, and the text from there on. It fails if the offset lies inside a
character or behind the end. -/
def cut? : Nat → List Char → Option (List Char × List Char)
  | 0, text => some ([], text)
  | _ + 1, [] => none
  | n + 1, c :: text =>
    if c.utf8Size ≤ n + 1 then
      (cut? (n + 1 - c.utf8Size) text).map fun (before, after) => (c :: before, after)
    else none

/-- The text between two byte offsets. It fails if one of them does not lie between two characters,
or the second one lies before the first. -/
def slice? (start stop : Nat) (text : List Char) : Option (List Char) := do
  let (_, rest) ← cut? start text
  let length ← stop.psub start
  let (part, _) ← cut? length rest
  return part

/-- A text is cut between two texts. -/
theorem cut?_append (before after : List Char) :
    cut? (byteLength before) (before ++ after) = some (before, after) := by
  induction before with
  | nil => simp [cut?]
  | cons c before ih =>
    obtain ⟨n, hn, hle, hrest⟩ := exists_byteLength_cons c before
    rw [hn, List.cons_append, cut?, if_pos hle, hrest, ih]
    rfl

/-- What is cut is cut between two texts. -/
theorem of_cut?_eq_some {n : Nat} {text before after : List Char}
    (h : cut? n text = some (before, after)) : text = before ++ after ∧ byteLength before = n := by
  fun_induction cut? n text generalizing before with
  | case1 text =>
    cases h
    exact ⟨rfl, rfl⟩
  | case2 => cases h
  | case3 n c text hle ih =>
    obtain ⟨⟨inner, _⟩, hinner, h⟩ := Option.map_eq_some_iff.mp h
    cases h
    obtain ⟨rfl, hsize⟩ := ih hinner
    refine ⟨rfl, ?_⟩
    rw [byteLength_cons, hsize]
    omega
  | case4 => cases h

/-- What stands between two texts is cut out. -/
theorem slice?_append (before part after : List Char) :
    slice? (byteLength before) (byteLength before + byteLength part) (before ++ part ++ after) =
      some part := by
  have hlength : (byteLength before + byteLength part).psub (byteLength before) =
      some (byteLength part) := by
    rw [Nat.psub_eq_sub (Nat.le_add_right _ _), Nat.add_sub_cancel_left]
  rw [slice?, List.append_assoc, cut?_append]
  simp only [Option.bind_eq_bind, Option.bind_some, hlength, cut?_append]
  rfl

end Text
end EmbeddedGraphQL
