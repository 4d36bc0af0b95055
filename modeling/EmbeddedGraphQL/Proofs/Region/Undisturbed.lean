import EmbeddedGraphQL.Proofs.Region.Declared
import EmbeddedGraphQL.Proofs.Region.Selected
import EmbeddedGraphQL.Text.Alphanumeric

/-!
# What later text leaves alone

A region is settled by the text up to its closing backtick. An opening marker ends with a backtick,
and tags without one cannot reach over it, so that no search looks behind the backtick that it
finds; and the position of an offset is told by what stands before it. Only the module of a region
asks for more: it is looked for on whole lines, so that the line of the marker has to be the same up
to its end.

* `Opening.Opens.exists_marker`: an opening is found at the same place whatever follows.
* `Region.exists_parts_of_common`: the first regions are read off a common start of two texts.
* `Extractor.moduleOf_common`: the lines that a common start holds as a whole declare the same.
* `Extractor.regions_undisturbed`: the first regions of texts that agree up to a closing backtick.
-/

namespace EmbeddedGraphQL

/-! ## Openings -/

namespace Opening

variable {tags : List (List Char)}

/-- Behind its first character a marker has no `%`, if no tag has one. -/
theorem IsMarker.exists_tail (htags : ∀ tag ∈ tags, '%' ∉ tag) {marker : List Char}
    (h : IsMarker tags marker) : ∃ tail, marker = '%' :: tail ∧ '%' ∉ tail := by
  obtain ⟨tag, htag, blanks, hblanks, rfl⟩ := h
  refine ⟨_, rfl, ?_⟩
  have hblank : '%' ∉ blanks := fun hmem => absurd (hblanks '%' hmem) (by decide)
  simp [htags tag htag, hblank]

/-- A text ends with one marker at most. -/
theorem IsMarker.gap_eq (htags : ∀ tag ∈ tags, '%' ∉ tag) {gap gap' marker marker' : List Char}
    (hmarker : IsMarker tags marker) (hmarker' : IsMarker tags marker')
    (h : gap ++ marker = gap' ++ marker') : gap = gap' := by
  obtain ⟨tail, rfl, htail⟩ := hmarker.exists_tail htags
  obtain ⟨tail', rfl, htail'⟩ := hmarker'.exists_tail htags
  -- Otherwise the `%` of the shorter marker stands somewhere in the longer one.
  rcases List.append_eq_append_iff.mp h with ⟨mid, rfl, hmid⟩ | ⟨mid, rfl, hmid⟩
  · cases mid with
    | nil => rw [List.append_nil]
    | cons c mid =>
      rw [List.cons_append, List.cons.injEq] at hmid
      exact absurd (hmid.2 ▸ List.mem_append_right mid List.mem_cons_self) htail
  · cases mid with
    | nil => rw [List.append_nil]
    | cons c mid =>
      rw [List.cons_append, List.cons.injEq] at hmid
      exact absurd (hmid.2 ▸ List.mem_append_right mid List.mem_cons_self) htail'

/-- The marker at the end of a text that opens a region is found whatever follows. -/
theorem Opens.exists_marker (htags : ∀ tag ∈ tags, '%' ∉ tag) {opened : List Char}
    (h : Opens tags opened) :
    ∃ gap marker, opened = gap ++ marker ∧ IsMarker tags marker ∧ ∀ offset rest,
      find? tags offset (opened ++ rest) =
        some ⟨offset + Text.byteLength gap, offset + Text.byteLength opened, rest⟩ := by
  have hfound : ∀ offset rest, ∃ gap marker, opened = gap ++ marker ∧ IsMarker tags marker ∧
      find? tags offset (opened ++ rest) =
        some ⟨offset + Text.byteLength gap, offset + Text.byteLength opened, rest⟩ := by
    intro offset rest
    obtain ⟨start, hfind⟩ := h offset rest
    obtain ⟨gap, marker, hsplit, hmarker, -, hstart, -⟩ := exists_of_find? hfind
    obtain rfl : start = offset + Text.byteLength gap := hstart
    exact ⟨gap, marker, List.append_cancel_right hsplit, hmarker, hfind⟩
  obtain ⟨gap, marker, hopened, hmarker, -⟩ := hfound 0 []
  refine ⟨gap, marker, hopened, hmarker, fun offset rest => ?_⟩
  obtain ⟨gap', marker', hopened', hmarker', hfind⟩ := hfound offset rest
  rwa [hmarker.gap_eq htags hmarker' (hopened.symm.trans hopened')]

/-- The place behind a marker says where the marker starts. -/
theorem MarksAt.start_eq (htags : ∀ tag ∈ tags, '%' ∉ tag) {text : List Char}
    {start start' stop : Nat} (h : MarksAt tags text start stop)
    (h' : MarksAt tags text start' stop) : start = start' := by
  obtain ⟨before, marker, after, hsplit, hmarker, rfl, hstop⟩ := h
  obtain ⟨before', marker', after', hsplit', hmarker', rfl, hstop'⟩ := h'
  have hopened : before ++ marker = before' ++ marker' := by
    have hsize : Text.byteLength (before ++ marker) = Text.byteLength (before' ++ marker') := by
      rw [Text.byteLength_append, Text.byteLength_append, ← hstop, ← hstop']
    have htake := Text.takeBytes_append (before ++ marker) after
    rw [← hsplit, hsize, hsplit', Text.takeBytes_append] at htake
    exact htake.symm
  rw [hmarker.gap_eq htags hmarker' hopened]

end Opening

/-! ## Parts of a common start -/

namespace TaggedPart

/-- Parts that stand one after the other, each closed by a backtick. -/
def closedParts (parts : List TaggedPart) : List Char := parts.flatMap fun p => p.opened ++ ['`']

@[simp] theorem closedParts_cons (p : TaggedPart) (parts : List TaggedPart) :
    closedParts (p :: parts) = p.opened ++ '`' :: closedParts parts := by
  simp [closedParts]

/-- The regions of parts end behind the place where the parts start. -/
theorem le_stop_of_mem_placed {text : List Char} {index : LineIndex} {offset : Nat}
    {parts : List TaggedPart} {q : Nat × Region} (h : q ∈ placed text index offset parts) :
    offset ≤ q.2.stop := by
  induction parts generalizing offset with
  | nil => cases h
  | cons p parts ih =>
    rcases List.mem_cons.mp h with rfl | h
    · rw [stop_region]
      exact Nat.le_add_right _ _
    · have := ih h
      omega

end TaggedPart

namespace Region

open Opening TaggedPart

variable {tags : List (List Char)}

/-- The first region of a text, with what stands in front of it, whatever follows. -/
theorem exists_part_of_ne_nil (htick : ∀ tag ∈ tags, '`' ∉ tag) (hpercent : ∀ tag ∈ tags, '%' ∉ tag)
    {text : List Char} {index : LineIndex} {offset : Nat} {rest : List Char}
    (h : Extractor.regionsFrom tags text index offset rest ≠ []) :
    ∃ (p : TaggedPart) (after : List Char), rest = p.opened ++ '`' :: after ∧
      IsMarker tags p.marker ∧ ∀ text index offset behind,
        Extractor.regionsFrom tags text index offset (p.opened ++ '`' :: behind) =
          p.region text index offset :: Extractor.regionsFrom tags text index
            (offset + Text.byteLength p.opened + 1) behind := by
  -- Without an opening that is closed there would be no region.
  obtain ⟨o, hfind, hclose⟩ : ∃ o, find? tags offset rest = some o ∧ close? o.rest ≠ none := by
    apply Classical.byContradiction
    intro hnone
    refine h (Extractor.regionsFrom_eq_nil (fun o ho => ?_) text index)
    exact Classical.not_not.mp fun hclose => hnone ⟨o, ho, hclose⟩
  obtain ⟨⟨content, after⟩, hclose⟩ := Option.ne_none_iff_exists'.mp hclose
  obtain ⟨hsealed, hrest⟩ := close?_eq_some_iff.mp hclose
  -- The opening is found the same whatever stands behind its backtick.
  obtain ⟨opened, -, hsplit, hopens⟩ := exists_opens htick hfind
  obtain ⟨gap, marker, rfl, hmarker, hfound⟩ := hopens.exists_marker hpercent
  refine ⟨⟨gap, marker, content⟩, after, ?_, hmarker, fun text index offset behind => ?_⟩
  · rw [hsplit, hrest]
    simp [opened]
  · apply regionsFrom_opened _ hsealed
    have hbehind : opened ⟨gap, marker, content⟩ ++ '`' :: behind =
        (gap ++ marker) ++ (content ++ '`' :: behind) := by simp [opened]
    rw [hbehind, hfound, Text.byteLength_append, ← Nat.add_assoc]
    rfl

/-- The first region of texts with a common start that holds a whole region of one of them. -/
theorem exists_first_of_common (htick : ∀ tag ∈ tags, '`' ∉ tag)
    (hpercent : ∀ tag ∈ tags, '%' ∉ tag) {text : List Char} {index : LineIndex} {offset : Nat}
    {common rest : List Char} {r : Region}
    (hr : r ∈ Extractor.regionsFrom tags text index offset (common ++ rest))
    (hstop : r.stop < offset + Text.byteLength common) :
    ∃ (p : TaggedPart) (more : List Char), common = p.opened ++ '`' :: more ∧
      IsMarker tags p.marker ∧ ∀ text index offset behind,
        Extractor.regionsFrom tags text index offset (common ++ behind) =
          p.region text index offset :: Extractor.regionsFrom tags text index
            (offset + Text.byteLength p.opened + 1) (more ++ behind) := by
  obtain ⟨p, after, hsplit, hmarker, hfirst⟩ :=
    exists_part_of_ne_nil htick hpercent (List.ne_nil_of_mem hr)
  -- The first region ends no later than any other one.
  have hle : offset + Text.byteLength p.opened ≤ r.stop := by
    rw [hsplit, hfirst] at hr
    rcases List.mem_cons.mp hr with rfl | hr
    · exact Nat.le_of_eq (stop_region text index offset p).symm
    · obtain ⟨parts, -, -, hregions⟩ := exists_scan tags text index
        (offset + Text.byteLength p.opened + 1) after
      rw [hregions] at hr
      obtain ⟨q, hq, rfl⟩ := List.mem_map.mp hr
      exact Nat.le_of_succ_le (le_stop_of_mem_placed hq)
  rw [List.append_cons] at hsplit
  have hsize : Text.byteLength (p.opened ++ ['`']) = Text.byteLength p.opened + 1 :=
    Text.byteLength_append _ _
  obtain ⟨more, hcommon, -⟩ := Text.exists_of_append_eq_append hsplit.symm (by omega)
  rw [List.append_assoc, List.singleton_append] at hcommon
  refine ⟨p, more, hcommon, hmarker, fun text index offset behind => ?_⟩
  rw [hcommon, List.append_assoc, List.cons_append, hfirst]

/-- The first regions of texts with a common start that holds them are those of the same parts,
whatever follows the common start. -/
theorem exists_parts_of_common (htick : ∀ tag ∈ tags, '`' ∉ tag)
    (hpercent : ∀ tag ∈ tags, '%' ∉ tag) {text : List Char} {index : LineIndex} {offset k : Nat}
    {common rest : List Char} {r : Region}
    (hr : (Extractor.regionsFrom tags text index offset (common ++ rest))[k]? = some r)
    (hstop : r.stop < offset + Text.byteLength common) :
    ∃ parts more, parts.length = k + 1 ∧ common = closedParts parts ++ more ∧
      (∀ p ∈ parts, IsMarker tags p.marker) ∧ ∀ text index behind, ∃ later,
        Extractor.regionsFrom tags text index offset (common ++ behind) =
          (placed text index offset parts).map (·.2) ++ later := by
  -- By induction over the number of the region, with the common start cut off behind the backtick
  -- of the first one.
  induction k generalizing offset common with
  | zero =>
    obtain ⟨p, more, hcommon, hmarker, hfirst⟩ :=
      exists_first_of_common htick hpercent (List.mem_of_getElem? hr) hstop
    refine ⟨[p], more, rfl, ?_, by simpa using hmarker, fun text index behind =>
      ⟨_, hfirst text index offset behind⟩⟩
    rw [hcommon, closedParts_cons, List.append_assoc]
    rfl
  | succ k ih =>
    obtain ⟨p, more, hcommon, hmarker, hfirst⟩ :=
      exists_first_of_common htick hpercent (List.mem_of_getElem? hr) hstop
    rw [hfirst, List.getElem?_cons_succ] at hr
    have hrest : r.stop < offset + Text.byteLength p.opened + 1 + Text.byteLength more := by
      have hsize := congrArg Text.byteLength hcommon
      have htick : '`'.utf8Size = 1 := rfl
      rw [Text.byteLength_append, Text.byteLength_cons, htick] at hsize
      omega
    obtain ⟨parts, tail, hlength, hmore, hmarkers, hregions⟩ := ih hr hrest
    refine ⟨p :: parts, tail, congrArg Nat.succ hlength, ?_,
      List.forall_mem_cons.mpr ⟨hmarker, hmarkers⟩, fun text index behind => ?_⟩
    · rw [hcommon, hmore, closedParts_cons, List.append_assoc]
      rfl
    · obtain ⟨later, hlater⟩ := hregions text index behind
      exact ⟨later, by rw [hfirst, hlater]; rfl⟩

/-- A region without the name of its module. -/
def unnamed (r : Region) : Region := { r with moduleName := none }

/-- Regions that agree but for their module names agree if these do. -/
theorem eq_of_unnamed {r r' : Region} (h : r.unnamed = r'.unnamed)
    (hname : r.moduleName = r'.moduleName) : r = r' := by
  cases r
  cases r'
  simp_all [unnamed]

end Region

/-! ## Two texts with a common start -/

/-- The position of an offset in a common start is the same in both texts. -/
theorem LineIndex.position_common {common : List Char} {offset : Nat}
    (h : Text.IsBoundary common offset) (rest rest' : List Char) :
    (ofText (common ++ rest)).position offset = (ofText (common ++ rest')).position offset := by
  obtain ⟨before, after, rfl, rfl⟩ := h
  rw [List.append_assoc, List.append_assoc, position_append, position_append]

/-- The lines that end in a common start are the same in both texts. -/
theorem Text.getElem?_pieces_common {common : List Char} {number : Nat}
    (h : number < common.count '\n') (rest rest' : List Char) :
    (pieces (common ++ rest))[number]? = (pieces (common ++ rest'))[number]? := by
  obtain ⟨ls, part, rfl, hls, hpart⟩ := exists_closedLines_append common
  rw [count_closedLines_append hls hpart] at h
  simp only [List.append_assoc, pieces_closedLines_append hls, List.getElem?_append_left h]

/-- What is declared on a line that ends in a common start, or above it, is the same. -/
theorem Extractor.moduleOf_common {common : List Char} {number : Nat}
    (h : number < common.count '\n') (rest rest' : List Char) :
    moduleOf (common ++ rest) (LineIndex.ofText (common ++ rest)) number =
      moduleOf (common ++ rest') (LineIndex.ofText (common ++ rest')) number := by
  have habove : lineAbove? (common ++ rest) number = lineAbove? (common ++ rest') number := by
    cases number with
    | zero => rfl
    | succ number => exact Text.getElem?_pieces_common (Nat.lt_of_succ_lt h) rest rest'
  rw [moduleOf_ofText, moduleOf_ofText, Text.getElem?_pieces_common h rest rest', habove]

namespace TaggedPart

variable {common before more : List Char} {p : TaggedPart} {parts : List TaggedPart}

/-- The byte offset behind a part and its backtick. -/
theorem common_behind (h : common = before ++ (closedParts (p :: parts) ++ more)) :
    common = before ++ p.opened ++ ['`'] ++ (closedParts parts ++ more) := by
  rw [h, closedParts_cons]
  simp

/-- The region of a part of a common start is the same in both texts, but for its module. -/
theorem unnamed_region (h : common = before ++ (p.opened ++ more)) (rest rest' : List Char) :
    (p.region (common ++ rest) (LineIndex.ofText (common ++ rest))
        (Text.byteLength before)).unnamed =
      (p.region (common ++ rest') (LineIndex.ofText (common ++ rest'))
        (Text.byteLength before)).unnamed := by
  rw [opened] at h
  have hstart : Text.IsBoundary common
      (p.start (Text.byteLength before) + Text.byteLength p.marker) := by
    refine ⟨before ++ p.gap ++ p.marker, p.content ++ more, by simp [h], ?_⟩
    rw [Text.byteLength_append, Text.byteLength_append, start]
  have hstop : Text.IsBoundary common
      (p.start (Text.byteLength before) + Text.byteLength p.marker +
        Text.byteLength p.content) := by
    refine ⟨before ++ p.gap ++ p.marker ++ p.content, more, by simp [h], ?_⟩
    rw [Text.byteLength_append, Text.byteLength_append, Text.byteLength_append, start]
  simp only [Region.unnamed, region, LineIndex.range, LineIndex.position_common hstart rest rest',
    LineIndex.position_common hstop rest rest']

/-- The regions of the parts of a common start are the same in both texts, but for their modules. -/
theorem unnamed_placed (h : common = before ++ (closedParts parts ++ more))
    (rest rest' : List Char) :
    (placed (common ++ rest) (LineIndex.ofText (common ++ rest)) (Text.byteLength before)
        parts).map (fun q => (q.1, q.2.unnamed)) =
      (placed (common ++ rest') (LineIndex.ofText (common ++ rest')) (Text.byteLength before)
        parts).map (fun q => (q.1, q.2.unnamed)) := by
  induction parts generalizing before with
  | nil => rfl
  | cons p parts ih =>
    have htail := ih (common_behind h)
    rw [Region.byteLength_opened] at htail
    rw [closedParts_cons, List.append_assoc] at h
    rw [placed, placed, List.map_cons, List.map_cons, unnamed_region h rest rest', htail]

/-- If the common start holds the lines of their markers up to the end, so are the modules. -/
theorem placed_common (h : common = before ++ (closedParts parts ++ more)) (rest rest' : List Char)
    (hlines : ∀ q ∈ placed (common ++ rest) (LineIndex.ofText (common ++ rest))
      (Text.byteLength before) parts,
      ((LineIndex.ofText (common ++ rest)).position q.1).line < common.count '\n') :
    placed (common ++ rest) (LineIndex.ofText (common ++ rest)) (Text.byteLength before) parts =
      placed (common ++ rest') (LineIndex.ofText (common ++ rest')) (Text.byteLength before)
        parts := by
  induction parts generalizing before with
  | nil => rfl
  | cons p parts ih =>
    rw [placed] at hlines
    obtain ⟨hline, hlines⟩ := List.forall_mem_cons.mp hlines
    rw [← Region.byteLength_opened] at hlines
    have htail := ih (common_behind h) hlines
    rw [Region.byteLength_opened] at htail
    rw [closedParts_cons, List.append_assoc] at h
    have hstart : Text.IsBoundary common (p.start (Text.byteLength before)) := by
      refine ⟨before ++ p.gap, p.marker ++ p.content ++ ('`' :: closedParts parts ++ more), ?_, ?_⟩
      · rw [h, opened]
        simp
      · rw [Text.byteLength_append, start]
    -- Only the name of the module is read off the text in front, up to the line of the marker.
    have hname : (p.region (common ++ rest) (LineIndex.ofText (common ++ rest))
        (Text.byteLength before)).moduleName =
          (p.region (common ++ rest') (LineIndex.ofText (common ++ rest'))
            (Text.byteLength before)).moduleName := by
      simp only [region, ← LineIndex.position_common hstart rest rest',
        Extractor.moduleOf_common hline rest rest']
    rw [placed, placed, htail, Region.eq_of_unnamed (unnamed_region h rest rest') hname]

/-- The marker of a part stands in front of the region. -/
theorem marksAt_of_mem_placed {tags : List (List Char)} {text : List Char}
    (h : text = before ++ (closedParts parts ++ more))
    (hmarkers : ∀ p ∈ parts, Opening.IsMarker tags p.marker) (index : LineIndex)
    {q : Nat × Region} (hq : q ∈ placed text index (Text.byteLength before) parts) :
    Opening.MarksAt tags text q.1 q.2.offset := by
  induction parts generalizing before with
  | nil => cases hq
  | cons p parts ih =>
    obtain ⟨hmarker, hmarkers⟩ := List.forall_mem_cons.mp hmarkers
    rcases List.mem_cons.mp hq with rfl | hq
    · refine ⟨before ++ p.gap, p.marker, p.content ++ '`' :: closedParts parts ++ more, ?_,
        hmarker, ?_, ?_⟩
      · rw [h, closedParts_cons, opened]
        simp
      · rw [Text.byteLength_append, start]
      · rw [Text.byteLength_append, region, start]
    · rw [← Region.byteLength_opened] at hq
      exact ih (common_behind h) hmarkers hq

/-- The marker in front of the last region is the one that starts furthest on. -/
theorem start_le_of_marksAt {tags : List (List Char)} (hpercent : ∀ tag ∈ tags, '%' ∉ tag)
    {text : List Char} (h : text = before ++ (closedParts parts ++ more))
    (hmarkers : ∀ p ∈ parts, Opening.IsMarker tags p.marker) {index : LineIndex}
    {last q : Nat × Region}
    (hlast : (placed text index (Text.byteLength before) parts).getLast? = some last) {start : Nat}
    (hmarks : Opening.MarksAt tags text start last.2.offset)
    (hq : q ∈ placed text index (Text.byteLength before) parts) : q.1 ≤ start := by
  have hqMarks := marksAt_of_mem_placed h hmarkers index hq
  have hlastMarks := marksAt_of_mem_placed h hmarkers index (List.mem_of_getLast? hlast)
  rw [hmarks.start_eq hpercent hlastMarks]
  obtain ⟨hordered, -⟩ := Region.placed_ordered text index (Text.byteLength before) parts
  obtain ⟨front, hfront⟩ := List.getLast?_eq_some_iff.mp hlast
  rw [hfront] at hordered hq
  rcases List.mem_append.mp hq with hq | hq
  · have hbehind := (List.pairwise_append.mp hordered).2.2 q hq last (List.mem_singleton_self last)
    have hstop : q.2.offset ≤ q.2.stop := Nat.le_add_right _ _
    exact Nat.le_of_lt (Nat.lt_trans (Nat.lt_of_lt_of_le hqMarks.lt hstop) hbehind)
  · exact Nat.le_of_eq (congrArg Prod.fst (List.mem_singleton.mp hq))

@[simp] theorem length_placed (text : List Char) (index : LineIndex) (offset : Nat)
    (parts : List TaggedPart) : (placed text index offset parts).length = parts.length := by
  induction parts generalizing offset with
  | nil => rfl
  | cons p parts ih => rw [placed, List.length_cons, ih, List.length_cons]

end TaggedPart

namespace Extractor

open Opening Region TaggedPart

/-- Whether a character may stand in the tags of a configuration. -/
def isTagChar (c : Char) : Bool := Text.isAlphanumeric c || c == '_' || c == '.'

/-- A character that may not stand in a tag stands in none. -/
theorem not_mem_of_isTagChar {tags : List String}
    (htags : ∀ tag ∈ tags, ∀ c ∈ tag.toList, isTagChar c = true) {c : Char}
    (hc : isTagChar c = false) : ∀ tag ∈ tags.map String.toList, c ∉ tag := by
  intro tag htag hmem
  obtain ⟨word, hword, rfl⟩ := List.mem_map.mp htag
  rw [htags word hword c hmem] at hc
  cases hc

/-- Texts that agree up to and with the closing backtick of a region have the same regions up to
that one, but for their modules. If they also agree up to the end of the line with the `%` of its
marker, the modules are the same, too. -/
theorem regions_undisturbed {tags : List String}
    (htags : ∀ tag ∈ tags, ∀ c ∈ tag.toList, isTagChar c = true) {text text' : String}
    {common rest rest' : List Char} (htext : text.toList = common ++ rest)
    (htext' : text'.toList = common ++ rest') {k : Nat} {r : Region}
    (hr : ((⟨.reScript, tags⟩ : Extractor).extract text)[k]? = some r)
    (hstop : r.stop + 1 ≤ Text.byteLength common) :
    k < ((⟨.reScript, tags⟩ : Extractor).extract text').length ∧
      (((⟨.reScript, tags⟩ : Extractor).extract text').take (k + 1)).map unnamed =
        (((⟨.reScript, tags⟩ : Extractor).extract text).take (k + 1)).map unnamed ∧
      ∀ start, MarksAt (tags.map String.toList) text.toList start r.offset →
        ((LineIndex.ofString text).position start).line < common.count '\n' →
        ((⟨.reScript, tags⟩ : Extractor).extract text').take (k + 1) =
          ((⟨.reScript, tags⟩ : Extractor).extract text).take (k + 1) := by
  have htick := not_mem_of_isTagChar htags (c := '`') (by decide +kernel)
  have hpercent := not_mem_of_isTagChar htags (c := '%') (by decide +kernel)
  have hextract : ∀ t : String, (⟨.reScript, tags⟩ : Extractor).extract t =
      regionsFrom (tags.map String.toList) t.toList (LineIndex.ofText t.toList) 0 t.toList :=
    fun _ => rfl
  have hfirst := hr
  rw [hextract, htext] at hfirst
  obtain ⟨parts, more, hlength, hcommon, hmarkers, hregions⟩ :=
    exists_parts_of_common htick hpercent hfirst (by omega)
  rw [← List.nil_append (closedParts parts ++ more)] at hcommon
  -- Both texts start with the regions of these parts.
  have htake : ∀ behind, ∃ later, regionsFrom (tags.map String.toList) (common ++ behind)
      (LineIndex.ofText (common ++ behind)) 0 (common ++ behind) =
        (placed (common ++ behind) (LineIndex.ofText (common ++ behind)) 0 parts).map (·.2) ++
          later := fun behind => hregions _ _ behind
  obtain ⟨later, hlater⟩ := htake rest
  obtain ⟨later', hlater'⟩ := htake rest'
  have hsize : ∀ t, ((placed t (LineIndex.ofText t) 0 parts).map (·.2)).length = k + 1 := by
    intro t
    rw [List.length_map, length_placed, hlength]
  rw [hextract, htext, hlater] at hr
  simp only [hextract, htext, htext', hlater, hlater', List.take_left' (hsize _)]
  refine ⟨?_, ?_, fun start hmarks hline => ?_⟩
  · rw [List.length_append, hsize]
    omega
  · have hunnamed := congrArg (List.map Prod.snd) (unnamed_placed hcommon rest' rest)
    simpa only [List.map_map, Function.comp_def, Text.byteLength_nil] using hunnamed
  · -- The marker of the region is that of the last part, and no other one is on a later line.
    congr 1
    refine (placed_common hcommon rest rest' fun q hq => ?_).symm
    rw [List.getElem?_append_left (hsize _ ▸ Nat.lt_succ_self k), List.getElem?_map,
      Option.map_eq_some_iff] at hr
    obtain ⟨last, hlast, rfl⟩ := hr
    have hgetLast : (placed (common ++ rest) (LineIndex.ofText (common ++ rest)) 0
        parts).getLast? = some last := by
      rw [List.getLast?_eq_getElem?, length_placed, hlength]
      exact hlast
    have hsplit : common ++ rest = [] ++ (closedParts parts ++ (more ++ rest)) := by
      rw [hcommon]
      simp
    have hstart := start_le_of_marksAt hpercent hsplit hmarkers hgetLast hmarks hq
    rw [LineIndex.ofString, htext] at hline
    exact Nat.lt_of_le_of_lt (LineIndex.line_mono _ hstart) hline

/-- Two regions on a line, the marker of the second one over two lines, and then something else. -/
def sharedLine (behind : String) : String := "module A = %r(`a`) module B = %r(\n`b`)" ++ behind

/-- What follows the second region may be anything that does not start on its own line. -/
theorem regions_undisturbed_sharedLine :
    ((⟨.reScript, ["r"]⟩ : Extractor).extract (sharedLine "\nmodule C = %r(`")).take 2 =
      ((⟨.reScript, ["r"]⟩ : Extractor).extract (sharedLine " %r(`c`)")).take 2 := by
  have htags : ∀ tag ∈ ["r"], ∀ c ∈ tag.toList, isTagChar c = true :=
    List.forall_mem_singleton.mpr (List.all_eq_true.mp (by decide +kernel))
  have hextract : ((⟨.reScript, ["r"]⟩ : Extractor).extract (sharedLine " %r(`c`)"))[1]? =
      some ⟨"b", some "A", 35, 1, ⟨⟨1, 1⟩, ⟨1, 2⟩⟩⟩ := by decide +kernel
  have htext : ∀ behind : String, (sharedLine behind).toList =
      "module A = %r(`a`) module B = %r(\n`b`".toList ++ (')' :: behind.toList) := by
    intro behind
    have hregions : "module A = %r(`a`) module B = %r(\n`b`)".toList =
        "module A = %r(`a`) module B = %r(\n`b`".toList ++ [')'] := by decide +kernel
    unfold sharedLine
    rw [String.toList_append, hregions, List.append_assoc]
    rfl
  obtain ⟨-, -, hsame⟩ := regions_undisturbed htags (htext " %r(`c`)") (htext "\nmodule C = %r(`")
    hextract (by decide +kernel)
  have hmarker : IsMarker (["r"].map String.toList) "%r(\n`".toList :=
    ⟨['r'], by decide +kernel, ['\n'], List.forall_mem_singleton.mpr (by decide), by decide +kernel⟩
  have hmarks : MarksAt (["r"].map String.toList) (sharedLine " %r(`c`)").toList 30 35 :=
    ⟨"module A = %r(`a`) module B = ".toList, "%r(\n`".toList, "b`) %r(`c`)".toList,
      by decide +kernel, hmarker, by decide +kernel, by decide +kernel⟩
  exact hsame 30 hmarks (by decide +kernel)

end Extractor
end EmbeddedGraphQL
