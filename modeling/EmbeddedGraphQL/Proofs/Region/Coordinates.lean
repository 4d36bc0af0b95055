import EmbeddedGraphQL.Proofs.Region.Scanning

/-!
# Positions inside a region and positions in its host text

A position inside a region and the host position of the same place come from two line indices that
know nothing of each other. They agree since both are reached by reading: reading a text from a
host position leads to the host position of where reading it inside the region leads.

* `Region.toHost_past`: converting to host positions commutes with reading.
* `Region.toLocal?_toHost`, `Region.toHost_toLocal?`: the two conversions undo each other.
* `Extractor.exists_split_of_mem`: where an extracted region stands in its host text.
* `Extractor.coordinates_commute`: offsets, host positions and positions inside a region fit
  together.
-/

namespace EmbeddedGraphQL

namespace Text

/-- The size of a string is the size of its characters. -/
theorem byteLength_toList (s : String) : byteLength s.toList = s.utf8ByteSize := by
  have hofList : ∀ text : List Char, byteLength text = (String.ofList text).utf8ByteSize := by
    intro text
    induction text with
    | nil => rfl
    | cons c text ih =>
      rw [← List.singleton_append, String.ofList_append, String.utf8ByteSize_append, ← ih,
        byteLength_append, ← String.singleton_eq_ofList, String.utf8ByteSize_singleton]
      rfl
  rw [hofList, String.ofList_toList]

end Text

namespace Region

/-! ## Conversion and reading -/

/-- The host position of the start of a region. -/
theorem toHost_origin (r : Region) : r.toHost .origin = r.range.start := rfl

/-- Reading a character commutes with the conversion: a line feed leaves the first line, which is
the only one that is shifted sideways. -/
theorem toHost_advance (r : Region) (p : Position) (c : Char) :
    r.toHost (p.advance c) = (r.toHost p).advance c := by
  by_cases hc : c = '\n'
  · by_cases hline : p.line = 0
    · simp [toHost, Position.advance, hc, hline]
    · simp [toHost, Position.advance, hc, hline, Nat.add_assoc]
  · by_cases hline : p.line = 0
    · simp [toHost, Position.advance, hc, hline, Nat.add_assoc]
    · simp [toHost, Position.advance, hc, hline]

/-- Reading a text commutes with the conversion. -/
theorem toHost_past (r : Region) (p : Position) (text : List Char) :
    r.toHost (p.past text) = (r.toHost p).past text := by
  induction text generalizing p with
  | nil => rfl
  | cons c text ih => rw [Position.past_cons, Position.past_cons, ih, toHost_advance]

/-! ## Back and forth -/

/-- Converting a host position back gives the position inside the region. -/
theorem toLocal?_toHost (r : Region) (p : Position) : r.toLocal? (r.toHost p) = some p := by
  obtain ⟨line, character⟩ := p
  by_cases hline : line = 0
  · simp [toHost, toLocal?, hline]
  · have hbehind : ¬ r.range.start.line + line < r.range.start.line := by omega
    simp [toHost, toLocal?, hline, hbehind]

/-- A host position that has a position inside the region is the host position of that one. -/
theorem toHost_toLocal? {r : Region} {host p : Position} (h : r.toLocal? host = some p) :
    r.toHost p = host := by
  obtain ⟨line, character⟩ := host
  simp only [toLocal?] at h
  -- Only on the first line of the region the columns differ.
  split at h
  · cases h
  · rename_i hbefore
    split at h
    · rename_i hsame
      split at h
      · cases h
      · rename_i hleft
        cases h
        simp only [toHost, if_true, Position.mk.injEq]
        omega
    · rename_i hother
      cases h
      have hline : line - r.range.start.line ≠ 0 := by omega
      simp only [toHost, if_neg hline, Position.mk.injEq, and_true]
      omega

/-- Only host positions before the region have no position inside it. -/
theorem toLocal?_eq_none_iff {r : Region} {host : Position} :
    r.toLocal? host = none ↔ host.Before r.range.start := by
  simp only [toLocal?, Position.Before]
  split
  · rename_i hline
    exact iff_of_true rfl (Or.inl hline)
  · rename_i hline
    split
    · rename_i hsame
      split
      · rename_i hleft
        exact iff_of_true rfl (Or.inr ⟨hsame, hleft⟩)
      · rename_i hleft
        exact iff_of_false (Option.some_ne_none _) (by omega)
    · rename_i hother
      exact iff_of_false (Option.some_ne_none _) (by omega)

end Region

namespace Extractor

/-! ## Extracted regions -/

/-- The content of an extracted region stands in the host text at the offset of the region, and the
region starts at the position of that offset. -/
theorem exists_split_of_mem {e : Extractor} {text : String} {r : Region}
    (h : r ∈ e.extract text) :
    ∃ before after, text.toList = before ++ r.content.toList ++ after ∧
      r.offset = Text.byteLength before ∧ r.length = Text.byteLength r.content.toList ∧
      r.range.start = (LineIndex.ofString text).position r.offset := by
  -- A text of the query language itself is one region; every other text is scanned for tags.
  cases hembedded : e.language.isEmbedded with
  | true =>
    obtain ⟨placed, hplaced, htagged, -⟩ := exists_placed hembedded text
    rw [hplaced] at h
    obtain ⟨q, hq, rfl⟩ := List.mem_map.mp h
    obtain ⟨before, after, hsplit, hoffset, hlength⟩ := (htagged q hq).content
    exact ⟨before, '`' :: after, hsplit, hoffset, hlength, by rw [(htagged q hq).range]; rfl⟩
  | false =>
    rw [extract, hembedded] at h
    obtain rfl := List.mem_singleton.mp h
    refine ⟨[], [], by simp [wholeText], rfl, (Text.byteLength_toList text).symm, ?_⟩
    exact (LineIndex.position_append [] text.toList).symm

/-- At an offset of a region, the position by the line index of the host text is the host position
of the one by the line index of the content. -/
theorem toHost_position {e : Extractor} {text : String} {r : Region} (hr : r ∈ e.extract text)
    {offset : Nat} (hoffset : Text.IsBoundary r.content.toList offset) :
    r.toHost ((LineIndex.ofString r.content).position offset) =
      (LineIndex.ofString text).position (r.offset + offset) := by
  obtain ⟨before, after, hsplit, hstart, -, hrange⟩ := exists_split_of_mem hr
  obtain ⟨read, rest, hread, rfl⟩ := hoffset
  have hlocal : (LineIndex.ofString r.content).position (Text.byteLength read) =
      Position.origin.past read := by
    rw [LineIndex.ofString, hread]
    exact LineIndex.position_append read rest
  -- Both indices are asked for the end of a text that was read: of `read` from the start of the
  -- region, and of `before ++ read` from the start of the host text.
  have hwhole : text.toList = (before ++ read) ++ (rest ++ after) := by
    rw [hsplit, hread]
    simp
  have hregion : r.range.start = Position.origin.past before := by
    rw [hrange, hstart, LineIndex.ofString, hwhole, List.append_assoc before]
    exact LineIndex.position_append before _
  calc r.toHost ((LineIndex.ofString r.content).position (Text.byteLength read))
      = (r.toHost .origin).past read := by rw [hlocal, Region.toHost_past]
    _ = Position.origin.past (before ++ read) := by
        rw [Region.toHost_origin, hregion, Position.past_append]
    _ = (LineIndex.ofString text).position (r.offset + Text.byteLength read) := by
        rw [hstart, ← Text.byteLength_append, LineIndex.ofString, hwhole]
        exact (LineIndex.position_append _ _).symm

/-- Offsets, host positions and positions inside a region fit together: at every offset of a region
the position by its own line index and the one by the line index of the host text convert into
each other. A host position has a position inside the region exactly if it does not come before the
region, and is then the host position of that one. -/
theorem coordinates_commute {e : Extractor} {text : String} {r : Region}
    (hr : r ∈ e.extract text) :
    r.length = Text.byteLength r.content.toList ∧
      (∀ offset, Text.IsBoundary r.content.toList offset →
        r.toHost ((LineIndex.ofString r.content).position offset) =
          (LineIndex.ofString text).position (r.offset + offset) ∧
        r.toLocal? ((LineIndex.ofString text).position (r.offset + offset)) =
          some ((LineIndex.ofString r.content).position offset)) ∧
      (∀ host, r.toLocal? host = none ↔ host.Before r.range.start) ∧
      ∀ host p, r.toLocal? host = some p → r.toHost p = host := by
  obtain ⟨-, -, -, -, hlength, -⟩ := exists_split_of_mem hr
  refine ⟨hlength, ?_, fun _ => Region.toLocal?_eq_none_iff, fun _ _ => Region.toHost_toLocal?⟩
  intro offset hoffset
  have hhost := toHost_position hr hoffset
  refine ⟨hhost, ?_⟩
  rw [← hhost]
  exact Region.toLocal?_toHost r _

/-- A host text with wide characters before the region and inside it. -/
def wideText : String := "ä = %relay(`b\n𝄞 c`)"

/-- Behind the character of four bytes and two code units on the second line. -/
theorem coordinates_commute_wideText :
    ∃ r ∈ (⟨.reScript, ["relay"]⟩ : Extractor).extract wideText,
      r.toHost ⟨1, 2⟩ = (LineIndex.ofString wideText).position 19 ∧
      r.toLocal? ((LineIndex.ofString wideText).position 19) = some ⟨1, 2⟩ := by
  have hextract : (⟨.reScript, ["relay"]⟩ : Extractor).extract wideText =
      [⟨"b\n𝄞 c", none, 13, 8, ⟨⟨0, 12⟩, ⟨1, 4⟩⟩⟩] := by decide +kernel
  have hmem : ⟨"b\n𝄞 c", none, 13, 8, ⟨⟨0, 12⟩, ⟨1, 4⟩⟩⟩ ∈
      (⟨.reScript, ["relay"]⟩ : Extractor).extract wideText := by
    rw [hextract]
    exact List.mem_singleton_self _
  have hboundary : Text.IsBoundary "b\n𝄞 c".toList 6 := ⟨['b', '\n', '𝄞'], [' ', 'c'], rfl, rfl⟩
  obtain ⟨-, hoffsets, -⟩ := coordinates_commute hmem
  exact ⟨_, hmem, hoffsets 6 hboundary⟩

end Extractor
end EmbeddedGraphQL
