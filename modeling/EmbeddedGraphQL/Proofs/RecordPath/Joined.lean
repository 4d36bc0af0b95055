import Mathlib.Data.List.Basic
import EmbeddedGraphQL.RecordPath

/-!
# Joined record paths

The joined path is written segment by segment behind the root, and a name is compared with it by
taking the same segments off the name. Segments are arbitrary: they may be empty, and may hold the
underscore that stands between them.

* `RecordPath.joined`: segments, each behind an underscore.
* `RecordPath.toList_display`, `RecordPath.display_eq_intercalate`: the joined path.
* `RecordPath.agreesWith_iff`: the comparison without joining compares with the joined path.
-/

namespace EmbeddedGraphQL
namespace RecordPath

/-- Some segments, each behind an underscore. -/
def joined (segments : List String) : List Char :=
  segments.flatMap fun segment => '_' :: segment.toList

/-- No segments are joined to nothing. -/
theorem joined_nil : joined [] = [] := rfl

/-- Each segment is joined behind an underscore. -/
theorem joined_cons (segment : String) (segments : List String) :
    joined (segment :: segments) = '_' :: (segment.toList ++ joined segments) := by
  simp [joined]

/-- A path is displayed as its root and its joined segments. -/
theorem toList_display (p : RecordPath) :
    p.display.toList = recordRoot.toList ++ joined p.segments := by
  have hfold : ∀ (segments : List String) (text : String),
      (segments.foldl (fun text segment => text ++ "_" ++ segment) text).toList =
        text.toList ++ joined segments := by
    intro segments
    induction segments with
    | nil => simp [joined]
    | cons segment segments ih =>
      intro text
      rw [List.foldl_cons, ih, joined_cons]
      simp
  exact hfold p.segments recordRoot

/-- Joined paths are the same exactly if the joined segments are. -/
theorem display_eq_iff {p q : RecordPath} :
    p.display = q.display ↔ joined p.segments = joined q.segments := by
  rw [← String.toList_inj, toList_display, toList_display, List.append_cancel_left_eq]

/-- Segments behind a first word are joined with underscores. -/
theorem intercalate_eq_joined (word : String) (segments : List String) :
    ("_".intercalate (word :: segments)).toList = word.toList ++ joined segments := by
  induction segments generalizing word with
  | nil => simp [joined_nil]
  | cons segment segments ih =>
    rw [String.intercalate_cons_cons, String.toList_append, String.toList_append, ih, joined_cons,
      List.append_assoc]
    rfl

/-- The joined path is the root and the segments, with an underscore between any two of them. -/
theorem display_eq_intercalate (p : RecordPath) :
    p.display = "_".intercalate (recordRoot :: p.segments) := by
  rw [← String.toList_inj, toList_display, intercalate_eq_joined]

/-- Segments agree with a text exactly if they are joined to it. -/
theorem agreesFrom_iff {segments : List String} {rest : List Char} :
    agreesFrom segments rest = true ↔ rest = joined segments := by
  induction segments generalizing rest with
  | nil => simp [agreesFrom, joined_nil]
  | cons segment segments ih =>
    rw [agreesFrom, joined_cons]
    constructor
    · intro h
      split at h
      · cases h
      · rename_i remaining hremaining
        -- An underscore and the segment are taken off, and the others are compared with what is
        -- left.
        obtain ⟨mid, hmid, hsegment⟩ := Option.bind_eq_some_iff.mp hremaining
        rw [← List.isPrefixOf?_eq_some_iff_append_eq.mp hmid,
          ← List.isPrefixOf?_eq_some_iff_append_eq.mp hsegment, ih.mp h]
        rfl
    · rintro rfl
      have hmid : "_".toList.isPrefixOf? ('_' :: (segment.toList ++ joined segments)) =
          some (segment.toList ++ joined segments) := List.isPrefixOf?_eq_some_iff_append_eq.mpr rfl
      have hsegment : segment.toList.isPrefixOf? (segment.toList ++ joined segments) =
          some (joined segments) := List.isPrefixOf?_eq_some_iff_append_eq.mpr rfl
      rw [hmid, Option.bind_some, hsegment]
      exact ih.mpr rfl

/-- A name agrees with a path exactly if it is the joined path. -/
theorem agreesWith_iff {p : RecordPath} {record : String} :
    p.agreesWith record = true ↔ p.display = record := by
  rw [← String.toList_inj, toList_display, agreesWith]
  split
  · rename_i hnone
    refine iff_of_false Bool.false_ne_true fun h => ?_
    rw [List.isPrefixOf?_eq_some_iff_append_eq.mpr h] at hnone
    cases hnone
  · rename_i rest hrest
    rw [← List.isPrefixOf?_eq_some_iff_append_eq.mp hrest, agreesFrom_iff, List.append_cancel_left_eq,
      eq_comm]

end RecordPath
end EmbeddedGraphQL
