import EmbeddedGraphQL.Proofs.Region.Format
import EmbeddedGraphQL.Proofs.Region.Coordinates

/-!
# Formatting touches the regions only

Regions are replaced in a host text from the last to the first, at offsets that were measured
before anything was replaced. Since the regions lie one after the other, this gives what one pass
from left to right gives: the gaps between the regions as they were, and in each region what its
content becomes.

* `Region.gaps`: the pieces of a host text outside its regions.
* `Text.weave`: gaps with other texts between them.
* `Region.LaidOut`: regions that lie one after the other in a text.
* `Extractor.laidOut_extract`: the regions that are extracted do.
* `Region.LaidOut.weave_contents`, `Region.LaidOut.foldr_replaceIn`: the text in one pass, before
  and after the regions are replaced.
* `formatCommand_weaves`: what formatting a file gives.
-/

namespace EmbeddedGraphQL

/-! ## Gaps -/

namespace Text

/-- The characters that start between two byte offsets. -/
def slice (start stop : Nat) (text : List Char) : List Char :=
  takeBytes (stop - start) (dropBytes start text)

/-- Gaps in a row, with one of some other texts behind each of them as long as there are any. -/
def weave : List (List Char) → List (List Char) → List Char
  | gap :: gaps, part :: parts => gap ++ part ++ weave gaps parts
  | gaps, _ => gaps.flatten

/-- What stands between two texts is cut out at their ends. -/
theorem slice_append (a b c : List Char) :
    slice (byteLength a) (byteLength a + byteLength b) (a ++ b ++ c) = b := by
  rw [slice, Nat.add_sub_cancel_left, List.append_assoc, dropBytes_append, takeBytes_append]

end Text

namespace Region

/-- The pieces of a host text outside some regions from a byte offset on: in front of each region,
and behind the last one. -/
def gaps (text : List Char) : Nat → List Region → List (List Char)
  | start, [] => [Text.dropBytes start text]
  | start, r :: regions => Text.slice start r.offset text :: gaps text r.stop regions

/-! ## Regions in a row -/

/-- Whether regions lie one after the other in `rest`, the part of a host text from a byte offset
on, each at its own offset and with the size of its content. -/
inductive LaidOut : Nat → List Char → List Region → Prop where
  /-- There is no region. -/
  | nil {offset : Nat} {rest : List Char} : LaidOut offset rest []
  /-- There is a region behind a gap, and the others lie behind it. -/
  | cons {offset : Nat} {gap after : List Char} {r : Region} {regions : List Region}
      (hoffset : r.offset = offset + Text.byteLength gap)
      (hlength : r.length = Text.byteLength r.content.toList) (h : LaidOut r.stop after regions) :
      LaidOut offset (gap ++ r.content.toList ++ after) (r :: regions)

namespace LaidOut

variable {offset : Nat} {rest : List Char} {regions : List Region}

/-- A text in front belongs to the first gap. -/
theorem prepend {front : List Char} (h : LaidOut (offset + Text.byteLength front) rest regions) :
    LaidOut offset (front ++ rest) regions := by
  cases h with
  | nil => exact .nil
  | @cons _ gap after r regions hoffset hlength h =>
    have hgap : r.offset = offset + Text.byteLength (front ++ gap) := by
      rw [hoffset, Text.byteLength_append, Nat.add_assoc]
    have hcons := cons hgap hlength h
    simpa only [List.append_assoc] using hcons

/-- Where a region ends, counted in the text up to there. -/
theorem stop_eq {before gap : List Char} {r : Region}
    (hoffset : r.offset = Text.byteLength before + Text.byteLength gap)
    (hlength : r.length = Text.byteLength r.content.toList) :
    r.stop = Text.byteLength (before ++ gap ++ r.content.toList) := by
  rw [stop, hoffset, hlength, Text.byteLength_append, Text.byteLength_append]

/-- The gap in front of a region, and those behind it. -/
theorem gaps_cons {before gap after : List Char} {r : Region} {regions : List Region}
    (hoffset : r.offset = Text.byteLength before + Text.byteLength gap) :
    gaps (before ++ (gap ++ r.content.toList ++ after)) (Text.byteLength before) (r :: regions) =
      gap :: gaps (before ++ gap ++ r.content.toList ++ after) r.stop regions := by
  have hslice := Text.slice_append before gap (r.content.toList ++ after)
  rw [← hoffset] at hslice
  simp only [List.append_assoc] at hslice ⊢
  rw [gaps, hslice]

/-- The gaps with the contents between them are the text: nothing is lost and nothing counts
twice. -/
theorem weave_contents {before : List Char} (h : LaidOut (Text.byteLength before) rest regions) :
    Text.weave (gaps (before ++ rest) (Text.byteLength before) regions)
      (regions.map (·.content.toList)) = rest := by
  generalize hstart : Text.byteLength before = start at h
  induction h generalizing before with
  | nil =>
    rw [← hstart, gaps, Text.dropBytes_append]
    simp [Text.weave]
  | @cons _ gap after r regions hoffset hlength _ ih =>
    subst hstart
    rw [gaps_cons hoffset, List.map_cons, Text.weave, ih (stop_eq hoffset hlength).symm]

/-- Replacing the regions from the last to the first gives the gaps with what the contents
become. -/
theorem foldr_replaceIn {before : List Char} (h : LaidOut (Text.byteLength before) rest regions) :
    regions.foldr (fun r text => replaceIn text r) (before ++ rest) =
      before ++ Text.weave (gaps (before ++ rest) (Text.byteLength before) regions)
        (regions.map fun r => (reprint r.content).toList) := by
  generalize hstart : Text.byteLength before = start at h
  induction h generalizing before with
  | nil =>
    rw [← hstart, gaps, Text.dropBytes_append]
    simp [Text.weave]
  | @cons _ gap after r regions hoffset hlength _ ih =>
    subst hstart
    have hwhole : before ++ (gap ++ r.content.toList ++ after) =
        before ++ gap ++ r.content.toList ++ after := by simp only [List.append_assoc]
    -- The regions behind are replaced already. Whatever their new sizes are, this one still stands
    -- at the offset that was measured, because all of them lie behind it.
    have hplace : r.offset = Text.byteLength (before ++ gap) := by
      rw [hoffset, Text.byteLength_append]
    rw [gaps_cons hoffset, hwhole, List.foldr_cons, ih (stop_eq hoffset hlength).symm,
      replaceIn_append _ _ _ String.ofList_toList.symm hplace hlength, List.map_cons, Text.weave,
      String.ofList_toList]
    simp only [List.append_assoc]

end LaidOut

/-- The parts of a scan lie one after the other. -/
theorem Scan.laidOut {tags : List (List Char)} {rest : List Char} {parts : List TaggedPart}
    {last : Option TaggedPart} (h : Scan tags rest parts last) (text : List Char)
    (index : LineIndex) (offset : Nat) :
    LaidOut offset rest ((TaggedPart.placed text index offset parts).map (·.2)) := by
  -- What is scanned last, a region without an end or no region at all, belongs to the last gap.
  induction h generalizing offset with
  | none => exact .nil
  | unclosed => exact .nil
  | @region p rest parts last _ _ _ _ ih =>
    have hcontent : (p.region text index offset).content.toList = p.content :=
      String.toList_ofList
    have hoffset : (p.region text index offset).offset =
        offset + Text.byteLength (p.gap ++ p.marker) := by
      simp only [TaggedPart.region, TaggedPart.start, Text.byteLength_append, Nat.add_assoc]
    -- The backtick that closes the region belongs to the gap behind it.
    have hbehind := ih (offset + Text.byteLength p.opened + 1)
    rw [← TaggedPart.stop_region text index offset p] at hbehind
    have htick : LaidOut (p.region text index offset).stop (['`'] ++ rest) _ := hbehind.prepend
    have hcons := LaidOut.cons hoffset (congrArg Text.byteLength hcontent.symm) htick
    rw [hcontent, TaggedPart.stop_region] at hcons
    rw [TaggedPart.placed, List.map_cons]
    simpa [TaggedPart.opened] using hcons

end Region

/-- The regions of a text lie in it one after the other, whatever the language and the tags
are. -/
theorem Extractor.laidOut_extract (e : Extractor) (text : String) :
    Region.LaidOut 0 text.toList (e.extract text) := by
  rw [extract]
  split
  · obtain ⟨parts, last, hscan, hregions⟩ := Region.exists_scan (e.tags.map String.toList)
      text.toList (LineIndex.ofString text) 0 text.toList
    rw [hregions]
    exact hscan.laidOut _ _ 0
  · have hwhole : Region.LaidOut 0 ([] ++ (wholeText text).content.toList ++ [])
        [wholeText text] := .cons rfl (Text.byteLength_toList text).symm .nil
    simpa [wholeText] using hwhole

/-! ## The command -/

/-- Formatting keeps what stands outside the regions. A text is its gaps with the contents of its
regions between them. With the regions replaced it is the same gaps, with the reprinted documents
between them and with the contents that are no documents as they were. This is the text that
formatting a file gives. -/
theorem formatCommand_weaves (e : Extractor) (text : String) :
    Text.weave (Region.gaps text.toList 0 (e.extract text))
        ((e.extract text).map (·.content.toList)) = text.toList ∧
      (Region.reformat (e.extract text) text).toList =
        Text.weave (Region.gaps text.toList 0 (e.extract text))
          ((e.extract text).map fun r =>
            match Document.parse? r.content with
            | none => r.content.toList
            | some d => (Indentation.restoreString r.content d.pretty).toList) ∧
      ∀ (tree : FileTree) (given : Option String) (path : String) (file : HostFile)
        (settings : ExtractSettings) (write : Bool), HostFile.read tree path = .ok file →
        tree.extractSettingsFor given path = .ok settings → file.text = text →
        file.language = e.language → settings.tags = e.tags →
        ∃ outcome, formatCommand tree given path write = .ok outcome ∧
          outcome.formatted write file = Region.reformat (e.extract text) text := by
  -- All follows from how the regions lie in the text: in order and apart.
  have hlaid : Region.LaidOut (Text.byteLength []) text.toList (e.extract text) :=
    e.laidOut_extract text
  have hreprint : ∀ r : Region, (Region.reprint r.content).toList =
      match Document.parse? r.content with
      | none => r.content.toList
      | some d => (Indentation.restoreString r.content d.pretty).toList := by
    intro r
    unfold Region.reprint
    cases Document.parse? r.content <;> rfl
  refine ⟨hlaid.weave_contents, ?_, ?_⟩
  · -- Replacing from the last region to the first one is a fold from the right.
    have hfold := hlaid.foldr_replaceIn
    simp only [hreprint] at hfold
    rw [Region.reformat, String.toList_ofList, List.foldl_reverse]
    exact hfold
  · intro tree given path file settings write hfile hsettings htext hlanguage htags
    obtain ⟨outcome, houtcome, hformatted⟩ := exists_formatCommand hfile hsettings write
    refine ⟨outcome, houtcome, ?_⟩
    rw [hformatted, hlanguage, htags, htext]

/-- The first region grows, the second one is no document, and what stands around them stays. -/
theorem formatCommand_weaves_indentedQuery :
    ∃ outcome, formatCommand (treeOf indentedQuery) none "a.res" false = .ok outcome ∧
      outcome.formatted false ⟨"a.res", indentedQuery, .reScript⟩ =
        "let q = %relay(`\n  query Q \x7b\n    a(b: \"x\")\n    c\n  \x7d\n`)\n" ++
          "let r = %relay(`\x7b`)\n" := by
  have hsettings : (treeOf indentedQuery).extractSettingsFor none "a.res" = .ok {} := rfl
  obtain ⟨outcome, houtcome, hformatted⟩ :=
    (formatCommand_weaves ⟨.reScript, ["relay"]⟩ indentedQuery).2.2 (treeOf indentedQuery) none
      "a.res" _ {} false (read_treeOf indentedQuery) hsettings rfl rfl rfl
  refine ⟨outcome, houtcome, hformatted.trans ?_⟩
  decide +kernel

end EmbeddedGraphQL
