import EmbeddedGraphQL.Proofs.Region.Scanning
import EmbeddedGraphQL.Region.Defining

/-!
# Selection by position

A position selects among the regions that touch its line, and of these the last one in the list.
The regions of a host text are listed as they stand in it, so that the last one is the one that
starts furthest on. Lines go up with offsets, and therefore a position inside a region can only
select another one if that one starts behind the region, on the same line.

* `Region.Touches`: the lines of a region.
* `Extractor.extract_ordered`: the regions of a host text come one behind the other.
* `Region.selectAt_eq_some_iff`: of ordered regions the one that starts furthest on is selected.
* `Extractor.selectAt_extract`: what the positions of a host text select.
-/

namespace EmbeddedGraphQL

/-- The marker in front of a place takes up something. -/
theorem Opening.MarksAt.lt {tags : List (List Char)} {text : List Char} {start stop : Nat}
    (h : MarksAt tags text start stop) : start < stop := by
  obtain ⟨before, marker, after, -, hmarker, rfl, rfl⟩ := h
  have hpos : Text.byteLength marker ≠ 0 := fun hzero =>
    hmarker.ne_nil (Text.eq_nil_of_byteLength hzero)
  omega

namespace Region

/-- Whether a line is one of those from the start of a region to its end. -/
def Touches (r : Region) (line : Nat) : Prop :=
  r.range.start.line ≤ line ∧ line ≤ r.range.stop.line

variable {regions : List Region} {text : String} {p : Position} {q r : Region}

/-- A range contains a line exactly if its region touches it. -/
theorem touches_iff {line : Nat} : r.range.containsLine line = true ↔ r.Touches line := by
  simp [Range.containsLine, Touches]

/-! ## The last of some regions -/

/-- Of regions that come one behind the other the last one is behind all others. -/
theorem eq_or_lt_of_getLast? (hordered : regions.Pairwise fun q r => q.stop < r.offset)
    (hlast : regions.getLast? = some r) (hq : q ∈ regions) : q = r ∨ q.stop < r.offset := by
  obtain ⟨front, rfl⟩ := List.getLast?_eq_some_iff.mp hlast
  obtain ⟨-, -, hbehind⟩ := List.pairwise_append.mp hordered
  rcases List.mem_append.mp hq with hq | hq
  · exact .inr (hbehind q hq r (List.mem_singleton_self r))
  · exact .inl (List.mem_singleton.mp hq)

/-- Unless a region is the whole text, only lines count. -/
theorem selectAt_eq_getLast? (hwhole : ∀ r ∈ regions, r.isWhole text = false) (p : Position) :
    selectAt regions text p = (regions.filter (·.range.containsLine p.line)).getLast? := by
  unfold selectAt
  split
  · rename_i only
    rw [if_neg]
    simpa using hwhole only (List.mem_singleton_self only)
  · rfl

/-- What is selected touches the line, and what else touches the line is in front of it. -/
theorem behind_of_selectAt (hwhole : ∀ r ∈ regions, r.isWhole text = false)
    (hordered : regions.Pairwise fun q r => q.stop < r.offset)
    (h : selectAt regions text p = some r) :
    (r ∈ regions ∧ r.Touches p.line) ∧
      ∀ q ∈ regions, q.Touches p.line → q = r ∨ q.stop < r.offset := by
  rw [selectAt_eq_getLast? hwhole] at h
  obtain ⟨hr, htouches⟩ := List.mem_filter.mp (List.mem_of_getLast? h)
  refine ⟨⟨hr, touches_iff.mp htouches⟩, fun q hq hline => ?_⟩
  apply eq_or_lt_of_getLast? (hordered.filter _) h
  exact List.mem_filter.mpr ⟨hq, touches_iff.mpr hline⟩

/-- Something is selected exactly if a region touches the line. -/
theorem isSome_selectAt_iff (hwhole : ∀ r ∈ regions, r.isWhole text = false) (p : Position) :
    (selectAt regions text p).isSome = true ↔ ∃ r ∈ regions, r.Touches p.line := by
  rw [selectAt_eq_getLast? hwhole, Option.isSome_iff_ne_none, Ne, List.getLast?_eq_none_iff,
    List.filter_eq_nil_iff]
  simp only [touches_iff, Classical.not_forall, Classical.not_not, exists_prop]

/-- The region that starts furthest on among those that touch the line is selected. -/
theorem selectAt_eq_some_iff (hwhole : ∀ r ∈ regions, r.isWhole text = false)
    (hordered : regions.Pairwise fun q r => q.stop < r.offset) :
    selectAt regions text p = some r ↔
      (r ∈ regions ∧ r.Touches p.line) ∧
        ∀ q ∈ regions, q.Touches p.line → q.offset ≤ r.offset := by
  have hstop : ∀ q : Region, q.offset ≤ q.stop := fun q => Nat.le_add_right q.offset q.length
  constructor
  · intro h
    obtain ⟨hr, hbehind⟩ := behind_of_selectAt hwhole hordered h
    refine ⟨hr, fun q hq hline => ?_⟩
    rcases hbehind q hq hline with rfl | hlt
    · exact Nat.le_refl _
    · exact Nat.le_trans (hstop q) (Nat.le_of_lt hlt)
  · rintro ⟨⟨hr, hline⟩, hgreatest⟩
    obtain ⟨g, hg⟩ :=
      Option.isSome_iff_exists.mp ((isSome_selectAt_iff hwhole p).mpr ⟨r, hr, hline⟩)
    obtain ⟨⟨hmem, htouches⟩, hbehind⟩ := behind_of_selectAt hwhole hordered hg
    -- The selected region is not behind `r`, and regions at different places differ in offset.
    rcases hbehind r hr hline with rfl | hlt
    · exact hg
    · have hle := hgreatest g hmem htouches
      exact absurd (Nat.lt_of_le_of_lt (hstop r) hlt) (Nat.not_lt.mpr hle)

end Region

namespace Extractor

open Region

/-- The regions of a host text come one behind the other, each behind a marker and between the
positions of its offsets. -/
theorem extract_ordered (tags : List String) (text : String) :
    ((⟨.reScript, tags⟩ : Extractor).extract text).Pairwise (fun q r => q.stop < r.offset) ∧
      ∀ r ∈ (⟨.reScript, tags⟩ : Extractor).extract text,
        0 < r.offset ∧ r.range = (LineIndex.ofString text).range ⟨r.offset, r.stop⟩ := by
  obtain ⟨placed, hplaced, htagged, hordered⟩ :=
    exists_placed (e := ⟨.reScript, tags⟩) rfl text
  rw [hplaced]
  constructor
  · rw [List.pairwise_map]
    -- The next region is behind its marker, and the marker is behind this region.
    refine hordered.imp_of_mem fun {p q} _ hq hlt => ?_
    exact Nat.lt_trans hlt (htagged q hq).marked.lt
  · intro r hr
    obtain ⟨q, hq, rfl⟩ := List.mem_map.mp hr
    exact ⟨Nat.zero_lt_of_lt (htagged q hq).marked.lt, (htagged q hq).range⟩

/-- What the positions of a text select. In a host text no region counts as the whole text. A
position selects something exactly if a region touches its line, and then the one of these regions
that starts furthest on. The position of an offset in a region, or at one of its ends, selects the
region itself or one behind it that starts on the line of the position. In a text that is GraphQL
throughout every position selects the one region there is. -/
theorem selectAt_extract (tags : List String) (text : String) :
    (∀ r ∈ (⟨.reScript, tags⟩ : Extractor).extract text, r.isWhole text = false) ∧
    (∀ p, (selectAt ((⟨.reScript, tags⟩ : Extractor).extract text) text p).isSome = true ↔
      ∃ r ∈ (⟨.reScript, tags⟩ : Extractor).extract text, r.Touches p.line) ∧
    (∀ p r, selectAt ((⟨.reScript, tags⟩ : Extractor).extract text) text p = some r ↔
      (r ∈ (⟨.reScript, tags⟩ : Extractor).extract text ∧ r.Touches p.line) ∧
        ∀ q ∈ (⟨.reScript, tags⟩ : Extractor).extract text, q.Touches p.line →
          q.offset ≤ r.offset) ∧
    (∀ r ∈ (⟨.reScript, tags⟩ : Extractor).extract text, ∀ offset, r.offset ≤ offset →
      offset ≤ r.stop → ∃ g,
        selectAt ((⟨.reScript, tags⟩ : Extractor).extract text) text
          ((LineIndex.ofString text).position offset) = some g ∧
        (g = r ∨ r.stop < g.offset ∧
          g.range.start.line = ((LineIndex.ofString text).position offset).line)) ∧
    ∀ p, selectAt ((⟨.graphQL, tags⟩ : Extractor).extract text) text p = some (wholeText text) := by
  obtain ⟨hordered, hplaced⟩ := extract_ordered tags text
  have hwhole : ∀ r ∈ (⟨.reScript, tags⟩ : Extractor).extract text, r.isWhole text = false := by
    intro r hr
    have hpos : r.offset ≠ 0 := Nat.pos_iff_ne_zero.mp (hplaced r hr).1
    simp [isWhole, hpos]
  refine ⟨hwhole, isSome_selectAt_iff hwhole, fun p r => selectAt_eq_some_iff hwhole hordered,
    ?_, ?_⟩
  · intro r hr offset hstart hstop
    have htouches : r.Touches ((LineIndex.ofString text).position offset).line := by
      rw [Touches, (hplaced r hr).2]
      exact ⟨LineIndex.line_mono _ hstart, LineIndex.line_mono _ hstop⟩
    obtain ⟨g, hg⟩ :=
      Option.isSome_iff_exists.mp ((isSome_selectAt_iff hwhole _).mpr ⟨r, hr, htouches⟩)
    refine ⟨g, hg, ?_⟩
    obtain ⟨⟨hmem, hline⟩, hbehind⟩ := behind_of_selectAt hwhole hordered hg
    refine (hbehind r hr htouches).imp Eq.symm fun hlt => ⟨hlt, ?_⟩
    -- `g` touches the line and starts behind the offset, so it cannot start on an earlier line.
    apply Nat.le_antisymm hline.1
    rw [(hplaced g hmem).2]
    exact LineIndex.line_mono _ (Nat.le_of_lt (Nat.lt_of_le_of_lt hstop hlt))
  · intro p
    show selectAt [wholeText text] text p = some (wholeText text)
    simp [selectAt, isWhole, wholeText]

/-- Two regions on one line: a position inside the first one selects the second one. -/
example :
    let text := "%r(`a`) %r(`b`)"
    (selectAt ((⟨.reScript, ["r"]⟩ : Extractor).extract text) text ⟨0, 4⟩).map (·.content) =
      some "b" := by
  decide +kernel

end Extractor
end EmbeddedGraphQL
