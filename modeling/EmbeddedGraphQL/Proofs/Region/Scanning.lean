import EmbeddedGraphQL.Proofs.LineIndex.Reached
import EmbeddedGraphQL.Proofs.Region.Splitting

/-!
# How a host text is scanned

Regions are found from left to right: the leftmost opening marker, then the first backtick behind
it that is not escaped, and so on behind that backtick. Whatever the tags are, this finds exactly
the tagged regions. The search also stops at a tag that is never closed; nothing is lost by that,
since a later marker would end with a backtick that closes it.

* `Text.leavesEscape`, `Text.HasFreeTick`: escapes read from left to right, and backticks that no
  backslash escapes.
* `Opening.IsMarker`: the texts that open a region.
* `Region.Scan`: the parts that a text is scanned into.
* `Region.exists_scan`: the regions that are extracted are those of the parts.
* `Region.Covers`, `Region.Scan.complete`: no marker is left out by a scan.
* `Extractor.exists_placed`: the regions of a host text with their markers.
* `Extractor.extract_tagged`: what is extracted is what is tagged.
-/

namespace EmbeddedGraphQL

/-! ## Escapes -/

namespace Text

/-- Whether an escape is left open at the end of a text. It is read from left to right, and a
backslash that is not escaped itself escapes the character after it. -/
def leavesEscape (text : List Char) : Bool :=
  text.foldl (fun escaped c => !escaped && c == '\\') false

/-- Whether a text has a backtick that is not escaped. -/
def HasFreeTick (text : List Char) : Prop :=
  ∃ before after, text = before ++ '`' :: after ∧ leavesEscape before = false

/-- An escape is passed over with the character it escapes. -/
theorem leavesEscape_escape (c : Char) (text : List Char) :
    leavesEscape ('\\' :: c :: text) = leavesEscape text := rfl

/-- A character that is no backslash is passed over alone. -/
theorem leavesEscape_cons {c : Char} (h : c ≠ '\\') (text : List Char) :
    leavesEscape (c :: text) = leavesEscape text := by
  have hc : (c == '\\') = false := beq_eq_false_iff_ne.mpr h
  simp [leavesEscape, hc]

/-- Only a backslash leaves an escape open. -/
theorem leavesEscape_concat {c : Char} (h : c ≠ '\\') (text : List Char) :
    leavesEscape (text ++ [c]) = false := by
  have hc : (c == '\\') = false := beq_eq_false_iff_ne.mpr h
  simp [leavesEscape, hc]

/-- The empty text has no free backtick. -/
theorem not_hasFreeTick_nil : ¬ HasFreeTick [] := by
  rintro ⟨before, after, h, -⟩
  simp at h

/-- A backslash alone is no free backtick. -/
theorem not_hasFreeTick_backslash : ¬ HasFreeTick ['\\'] := by
  rintro ⟨before, after, h, -⟩
  have htick : '`' ∈ ['\\'] := by rw [h]; simp
  exact absurd htick (by decide)

/-- A backtick that comes first is free. -/
theorem hasFreeTick_tick (text : List Char) : HasFreeTick ('`' :: text) := ⟨[], text, rfl, rfl⟩

/-- An escape and the character that it escapes count for nothing. -/
theorem hasFreeTick_escape {c : Char} {text : List Char} :
    HasFreeTick ('\\' :: c :: text) ↔ HasFreeTick text := by
  constructor
  · rintro ⟨before, after, h, hbefore⟩
    cases before with
    | nil => cases h
    | cons d before =>
      rw [List.cons_append, List.cons.injEq] at h
      obtain ⟨rfl, h⟩ := h
      cases before with
      -- The backtick is not the escaped character: the backslash would leave the escape open.
      | nil => cases hbefore
      | cons e before =>
        rw [List.cons_append, List.cons.injEq] at h
        exact ⟨before, after, h.2, hbefore⟩
  · rintro ⟨before, after, rfl, hbefore⟩
    exact ⟨'\\' :: c :: before, after, rfl, hbefore⟩

/-- A plain character in front changes nothing about free backticks. -/
theorem hasFreeTick_cons {c : Char} {text : List Char} (hslash : c ≠ '\\') (htick : c ≠ '`') :
    HasFreeTick (c :: text) ↔ HasFreeTick text := by
  constructor
  · rintro ⟨before, after, h, hbefore⟩
    cases before with
    | nil => exact absurd (List.cons.inj h).1 htick
    | cons d before =>
      rw [List.cons_append, List.cons.injEq] at h
      obtain ⟨rfl, h⟩ := h
      rw [leavesEscape_cons hslash] at hbefore
      exact ⟨before, after, h, hbefore⟩
  · rintro ⟨before, after, rfl, hbefore⟩
    exact ⟨c :: before, after, rfl, by rwa [leavesEscape_cons hslash]⟩

/-- A text is sealed if it has no backtick that is not escaped and leaves no escape open. -/
theorem isSealed_iff {text : List Char} :
    isSealed text = true ↔ ¬ HasFreeTick text ∧ leavesEscape text = false := by
  fun_induction isSealed text with
  | case1 => exact iff_of_true rfl ⟨not_hasFreeTick_nil, rfl⟩
  | case2 => exact iff_of_false Bool.false_ne_true fun h => absurd h.2 (by decide)
  | case3 c rest ih => rw [ih, hasFreeTick_escape, leavesEscape_escape]
  | case4 rest => exact iff_of_false Bool.false_ne_true fun h => h.1 (hasFreeTick_tick rest)
  | case5 c rest hend hescape htick ih =>
    have hslash := ne_backslash hend hescape
    rw [ih, hasFreeTick_cons hslash htick, leavesEscape_cons hslash]

end Text

/-- A region does not close exactly if no backtick follows that is not escaped. -/
theorem close?_eq_none_iff {text : List Char} : close? text = none ↔ ¬ Text.HasFreeTick text := by
  fun_induction close? text with
  | case1 => exact iff_of_true rfl Text.not_hasFreeTick_nil
  | case2 => exact iff_of_true rfl Text.not_hasFreeTick_backslash
  | case3 c rest ih => rw [Option.map_eq_none_iff, ih, Text.hasFreeTick_escape]
  | case4 rest =>
    exact iff_of_false (Option.some_ne_none _) (not_not_intro (Text.hasFreeTick_tick rest))
  | case5 c rest hend hescape htick ih =>
    rw [Option.map_eq_none_iff, ih, Text.hasFreeTick_cons (ne_backslash hend hescape) htick]

/-! ## Opening markers -/

namespace Opening

/-- Whether a text is an opening marker: `%`, one of the tags, `(`, blanks and a backtick. -/
def IsMarker (tags : List (List Char)) (text : List Char) : Prop :=
  ∃ tag ∈ tags, ∃ blanks, (∀ c ∈ blanks, Text.isBlank c = true) ∧
    text = '%' :: (tag ++ '(' :: (blanks ++ ['`']))

/-- Whether a text starts with an opening marker. -/
def StartsMarker (tags : List (List Char)) (text : List Char) : Prop :=
  ∃ marker rest, IsMarker tags marker ∧ text = marker ++ rest

variable {tags : List (List Char)}

/-- A marker is never empty. -/
theorem IsMarker.ne_nil {marker : List Char} (h : IsMarker tags marker) : marker ≠ [] := by
  obtain ⟨tag, -, blanks, -, rfl⟩ := h
  exact List.cons_ne_nil _ _

/-- The backtick of a marker is not escaped by the marker, wherever the marker stands. -/
theorem IsMarker.hasFreeTick {marker : List Char} (h : IsMarker tags marker)
    (before after : List Char) : Text.HasFreeTick (before ++ marker ++ after) := by
  obtain ⟨tag, -, blanks, hblanks, rfl⟩ := h
  -- What stands in front of the backtick is the last blank or, without blanks, the parenthesis.
  obtain ⟨init, c, hc, hinit⟩ : ∃ init c, c ≠ '\\' ∧ '(' :: blanks = init ++ [c] := by
    rcases List.eq_nil_or_concat blanks with rfl | ⟨init, c, rfl⟩
    · exact ⟨[], '(', by decide, rfl⟩
    · refine ⟨'(' :: init, c, ?_, by simp⟩
      rintro rfl
      exact absurd (hblanks '\\' (by simp)) (by decide)
  refine ⟨before ++ '%' :: (tag ++ init) ++ [c], after, ?_, Text.leavesEscape_concat hc _⟩
  have hsplit : tag ++ '(' :: (blanks ++ ['`']) = tag ++ init ++ [c] ++ ['`'] := by
    rw [← List.cons_append, hinit]
    simp
  rw [hsplit]
  simp

/-- What follows a tag in a marker, and what follows the marker. -/
theorem afterTag?_eq_some_iff {text rest : List Char} :
    afterTag? text = some rest ↔
      ∃ blanks, (∀ c ∈ blanks, Text.isBlank c = true) ∧ text = '(' :: (blanks ++ '`' :: rest) := by
  constructor
  · intro h
    unfold afterTag? at h
    split at h
    · rename_i tail
      split at h
      · rename_i r htrim
        cases h
        refine ⟨Text.leadingBlanks tail, List.all_eq_true.mp List.all_takeWhile, ?_⟩
        rw [← htrim, Text.leadingBlanks_append_trimStart]
      · cases h
    · cases h
  · rintro ⟨blanks, hblanks, rfl⟩
    have htrim : Text.trimStart (blanks ++ '`' :: rest) = '`' :: rest := by
      rw [Text.trimStart, List.dropWhile_append_of_pos hblanks]
      rfl
    simp only [afterTag?, htrim]

/-- An opening that is found at the start of a text is a marker. -/
theorem exists_isMarker_of_here? {text rest : List Char} (h : here? tags text = some rest) :
    ∃ marker, IsMarker tags marker ∧ text = marker ++ rest := by
  unfold here? at h
  split at h
  · rename_i tail
    obtain ⟨tag, htag, h⟩ := List.exists_of_findSome?_eq_some h
    obtain ⟨mid, hmid, hrest⟩ := Option.bind_eq_some_iff.mp h
    obtain ⟨blanks, hblanks, rfl⟩ := afterTag?_eq_some_iff.mp hrest
    rw [← List.isPrefixOf?_eq_some_iff_append_eq.mp hmid]
    exact ⟨_, ⟨tag, htag, blanks, hblanks, rfl⟩, by simp⟩
  · cases h

/-- Where no opening is found no marker starts. -/
theorem not_startsMarker_of_here? {text : List Char} (h : here? tags text = none) :
    ¬ StartsMarker tags text := by
  rintro ⟨marker, rest, ⟨tag, htag, blanks, hblanks, rfl⟩, rfl⟩
  have hfits : (tag.isPrefixOf? (tag ++ '(' :: (blanks ++ '`' :: rest))).bind afterTag? =
      some rest := by
    rw [List.isPrefixOf?_eq_some_iff_append_eq.mpr rfl]
    exact afterTag?_eq_some_iff.mpr ⟨blanks, hblanks, rfl⟩
  simp only [List.cons_append, List.append_assoc, List.nil_append, here?] at h
  have hnone := List.findSome?_eq_none_iff.mp h tag htag
  rw [hfits] at hnone
  cases hnone

/-- Whether no marker starts among the first characters of a text. -/
def Skips (tags : List (List Char)) (count : Nat) (text : List Char) : Prop :=
  ∀ before after, text = before ++ after → before.length < count → ¬ StartsMarker tags after

/-- One character more is skipped if no marker starts there. -/
theorem Skips.cons {count : Nat} {c : Char} {text : List Char}
    (hc : ¬ StartsMarker tags (c :: text)) (h : Skips tags count text) :
    Skips tags (count + 1) (c :: text) := by
  intro before after hsplit hlength
  cases before with
  | nil =>
    rw [List.nil_append] at hsplit
    exact hsplit ▸ hc
  | cons d before =>
    rw [List.cons_append, List.cons.injEq] at hsplit
    exact h before after hsplit.2 (Nat.lt_of_succ_lt_succ hlength)

/-- The opening that is found is the leftmost marker. -/
theorem exists_of_find? {offset : Nat} {text : List Char} {o : Opening}
    (h : find? tags offset text = some o) :
    ∃ gap marker, text = gap ++ marker ++ o.rest ∧ IsMarker tags marker ∧
      Skips tags gap.length text ∧ o.start = offset + Text.byteLength gap ∧
      o.stop = offset + Text.byteLength gap + Text.byteLength marker := by
  induction text generalizing offset with
  | nil => cases h
  | cons c text ih =>
    unfold find? at h
    split at h
    · -- A marker starts here, and nothing is skipped.
      rename_i rest hhere
      cases h
      obtain ⟨marker, hmarker, hsplit⟩ := exists_isMarker_of_here? hhere
      refine ⟨[], marker, hsplit, hmarker, fun _ _ _ h => absurd h (Nat.not_lt_zero _), rfl, ?_⟩
      simp only [hsplit, Text.byteLength_append, Text.byteLength_nil, Nat.add_zero,
        Nat.add_sub_cancel]
    · -- No marker starts here: the character goes to the gap.
      rename_i hhere
      obtain ⟨gap, marker, hsplit, hmarker, hskips, hstart, hstop⟩ := ih h
      refine ⟨c :: gap, marker, by rw [hsplit]; rfl, hmarker,
        hskips.cons (not_startsMarker_of_here? hhere), ?_, ?_⟩
      · rw [hstart, Text.byteLength_cons, Nat.add_assoc]
      · rw [hstop, Text.byteLength_cons, Nat.add_assoc offset]

/-- A text without an opening has no marker. -/
theorem skips_of_find? {offset : Nat} {text : List Char} (h : find? tags offset text = none)
    (count : Nat) : Skips tags count text := by
  induction text generalizing offset count with
  | nil =>
    rintro before after hsplit - ⟨marker, rest, hmarker, rfl⟩
    have hnil : marker = [] := by
      have := (List.append_eq_nil_iff.mp hsplit.symm).2
      exact (List.append_eq_nil_iff.mp this).1
    exact hmarker.ne_nil hnil
  | cons c text ih =>
    unfold find? at h
    split at h
    · cases h
    · rename_i hhere
      cases count with
      | zero => exact fun _ _ _ h => absurd h (Nat.not_lt_zero _)
      | succ count => exact (ih h count).cons (not_startsMarker_of_here? hhere)

end Opening

/-! ## Scanned parts -/

/-- A tag of a host text with what stands in front of it and what it opens. -/
structure TaggedPart where
  /-- The text in front of the marker. -/
  gap : List Char
  /-- The opening marker. -/
  marker : List Char
  /-- The text after the marker. -/
  content : List Char

namespace TaggedPart

/-- The text up to the end of the content. -/
def opened (p : TaggedPart) : List Char := p.gap ++ p.marker ++ p.content

/-- The byte offset of the marker, in a text where the part starts at a byte offset. -/
def start (offset : Nat) (p : TaggedPart) : Nat := offset + Text.byteLength p.gap

/-- The region of a part that starts at a byte offset of a host text. -/
def region (text : List Char) (index : LineIndex) (offset : Nat) (p : TaggedPart) : Region :=
  let content := p.start offset + Text.byteLength p.marker
  { content := String.ofList p.content
    moduleName := Extractor.moduleOf text index (index.position (p.start offset)).line
    offset := content
    length := Text.byteLength p.content
    range := index.range ⟨content, content + Text.byteLength p.content⟩ }

/-- The regions of parts that stand one after the other, each closed by a backtick, with the
offsets of their markers. -/
def placed (text : List Char) (index : LineIndex) : Nat → List TaggedPart → List (Nat × Region)
  | _, [] => []
  | offset, p :: parts =>
    (p.start offset, p.region text index offset) ::
      placed text index (offset + Text.byteLength p.opened + 1) parts

/-- A region stops where its content ends. -/
theorem stop_region (text : List Char) (index : LineIndex) (offset : Nat) (p : TaggedPart) :
    (p.region text index offset).stop = offset + Text.byteLength p.opened := by
  simp only [region, Region.stop, opened, start, Text.byteLength_append, Nat.add_assoc]

end TaggedPart

namespace Region

open Opening

/-- The parts that a text is scanned into: regions, and at the end no tag at all or one that is
never closed. -/
inductive Scan (tags : List (List Char)) :
    List Char → List TaggedPart → Option TaggedPart → Prop where
  /-- There is no tag. -/
  | none {text : List Char} (h : ∀ count, Skips tags count text) : Scan tags text [] none
  /-- The leftmost tag is never closed. -/
  | unclosed {p : TaggedPart} (hmarker : IsMarker tags p.marker)
      (hskips : Skips tags p.gap.length p.opened) (hopen : ¬ Text.HasFreeTick p.content) :
      Scan tags p.opened [] (some p)
  /-- The leftmost tag is closed, and the scan goes on behind the backtick that closes it. -/
  | region {p : TaggedPart} {rest : List Char} {parts : List TaggedPart} {last : Option TaggedPart}
      (hmarker : IsMarker tags p.marker)
      (hskips : Skips tags p.gap.length (p.opened ++ '`' :: rest))
      (hsealed : Text.isSealed p.content = true) (h : Scan tags rest parts last) :
      Scan tags (p.opened ++ '`' :: rest) (p :: parts) last

variable {tags : List (List Char)}

/-- Where the marker of a part is found and its content is sealed, its region is the first one. -/
theorem regionsFrom_opened {p : TaggedPart} {offset : Nat} {behind : List Char}
    (hfind : find? tags offset (p.opened ++ '`' :: behind) = some
      ⟨p.start offset, p.start offset + Text.byteLength p.marker, p.content ++ '`' :: behind⟩)
    (hsealed : Text.isSealed p.content = true) (text : List Char) (index : LineIndex) :
    Extractor.regionsFrom tags text index offset (p.opened ++ '`' :: behind) =
      p.region text index offset ::
        Extractor.regionsFrom tags text index (offset + Text.byteLength p.opened + 1) behind := by
  have hnext : p.start offset + Text.byteLength p.marker + Text.byteLength p.content + 1 =
      offset + Text.byteLength p.opened + 1 := by
    simp only [TaggedPart.start, TaggedPart.opened, Text.byteLength_append, Nat.add_assoc]
  rw [Extractor.regionsFrom_cons hfind (close?_eq_some_iff.mpr ⟨hsealed, rfl⟩), hnext]
  rfl

/-- Where the leftmost marker is closed, the text is split into a part with that marker, the
backtick that closes its region, and the rest. -/
theorem exists_part_of_close? {offset : Nat} {rest content after : List Char} {o : Opening}
    (hfind : find? tags offset rest = some o) (hclose : close? o.rest = some (content, after)) :
    ∃ p : TaggedPart, p.content = content ∧ rest = p.opened ++ '`' :: after ∧
      IsMarker tags p.marker ∧ Skips tags p.gap.length rest ∧
      find? tags offset rest = some
        ⟨p.start offset, p.start offset + Text.byteLength p.marker,
          p.content ++ '`' :: after⟩ := by
  obtain ⟨gap, marker, hsplit, hmarker, hskips, hstart, hstop⟩ := exists_of_find? hfind
  obtain ⟨-, hrest⟩ := close?_eq_some_iff.mp hclose
  refine ⟨⟨gap, marker, content⟩, rfl, ?_, hmarker, hskips, ?_⟩
  · rw [hsplit, hrest]
    simp [TaggedPart.opened]
  · rw [hfind, Option.some.injEq]
    cases o
    simp only at hstart hstop hrest
    rw [hstart, hstop, hrest]
    rfl

/-- The regions that are extracted from a text are those of the parts it is scanned into. -/
theorem exists_scan (tags : List (List Char)) (text : List Char) (index : LineIndex)
    (offset : Nat) (rest : List Char) :
    ∃ parts last, Scan tags rest parts last ∧
      Extractor.regionsFrom tags text index offset rest =
        (TaggedPart.placed text index offset parts).map (·.2) := by
  -- By induction on the length of the text: a part that is closed leaves a shorter one.
  cases hfind : find? tags offset rest with
  | none =>
    have hnil := Extractor.regionsFrom_eq_nil
      (fun o ho => nomatch hfind.symm.trans ho) text index
    exact ⟨[], none, .none (skips_of_find? hfind), hnil⟩
  | some o =>
    cases hclose : close? o.rest with
    | none =>
      obtain ⟨gap, marker, hsplit, hmarker, hskips, -, -⟩ := exists_of_find? hfind
      have hnil := Extractor.regionsFrom_eq_nil
        (fun o' ho' => Option.some.inj (hfind.symm.trans ho') ▸ hclose) text index
      obtain rfl : rest = TaggedPart.opened ⟨gap, marker, o.rest⟩ := hsplit
      exact ⟨[], some ⟨gap, marker, o.rest⟩,
        .unclosed hmarker hskips (close?_eq_none_iff.mp hclose), hnil⟩
    | some closed =>
      obtain ⟨content, after⟩ := closed
      obtain ⟨hsealed, -⟩ := close?_eq_some_iff.mp hclose
      obtain ⟨p, rfl, hsplit, hmarker, hskips, hfound⟩ := exists_part_of_close? hfind hclose
      have hshorter : after.length < rest.length := by
        rw [hsplit, List.length_append, List.length_cons]
        omega
      obtain ⟨parts, last, hscan, hregions⟩ := exists_scan tags text index
        (offset + Text.byteLength p.opened + 1) after
      rw [hsplit] at hskips hfound
      refine ⟨p :: parts, last, hsplit ▸ .region hmarker hskips hsealed hscan, ?_⟩
      rw [hsplit, regionsFrom_opened hfound hsealed, hregions]
      rfl
termination_by rest.length

end Region

/-! ## Places in a text -/

namespace Opening

/-- Whether an opening marker stands between two byte offsets of a text. -/
def MarksAt (tags : List (List Char)) (text : List Char) (start stop : Nat) : Prop :=
  ∃ before marker after, text = before ++ marker ++ after ∧ IsMarker tags marker ∧
    start = Text.byteLength before ∧ stop = Text.byteLength before + Text.byteLength marker

end Opening

namespace Region

open Opening

/-- Whether a region of a text is tagged, with its marker at byte offset `start`. -/
structure TaggedAt (tags : List (List Char)) (text : String) (start : Nat) (r : Region) :
    Prop where
  /-- The content stands at its offset, and a backtick follows. -/
  content : ∃ before after, text.toList = before ++ r.content.toList ++ '`' :: after ∧
    r.offset = Text.byteLength before ∧ r.length = Text.byteLength r.content.toList
  /-- A marker stands right in front of the content. -/
  marked : MarksAt tags text.toList start r.offset
  /-- No backtick of the content closes the region. -/
  unbroken : ¬ Text.HasFreeTick r.content.toList
  /-- The backtick after the content is not escaped. -/
  closed : Text.leavesEscape r.content.toList = false
  /-- The region starts and ends at the positions of its offsets. -/
  range : r.range = (LineIndex.ofString text).range ⟨r.offset, r.stop⟩

/-- Whether an offset lies in one of some regions, given with the offsets of their markers: between
the marker and the backtick that closes the region. -/
def Hold (placed : List (Nat × Region)) (offset : Nat) : Prop :=
  ∃ q ∈ placed, q.1 ≤ offset ∧ offset ≤ q.2.stop

/-- Whether a marker between two byte offsets, behind some regions, opens a region that is never
closed. -/
structure LeftOpen (tags : List (List Char)) (text : List Char) (placed : List (Nat × Region))
    (start stop : Nat) : Prop where
  marked : MarksAt tags text start stop
  behind : ∀ q ∈ placed, q.2.stop < start
  unclosed : ¬ Text.HasFreeTick (Text.dropBytes stop text)

variable {tags : List (List Char)}

/-- The byte offset behind a region and the backtick that closes it. -/
theorem byteLength_opened (before : List Char) (p : TaggedPart) :
    Text.byteLength (before ++ p.opened ++ ['`']) =
      Text.byteLength before + Text.byteLength p.opened + 1 := by
  rw [Text.byteLength_append, Text.byteLength_append]
  rfl

/-- The parts of a scan are tagged regions. -/
theorem Scan.tagged {rest : List Char} {parts : List TaggedPart} {last : Option TaggedPart}
    (h : Scan tags rest parts last) {text : String} {before : List Char}
    (htext : text.toList = before ++ rest) :
    ∀ q ∈ TaggedPart.placed text.toList (LineIndex.ofString text) (Text.byteLength before) parts,
      q.2.TaggedAt tags text q.1 := by
  induction h generalizing before with
  | none => simp [TaggedPart.placed]
  | unclosed => simp [TaggedPart.placed]
  | @region p rest parts last hmarker _ hsealed _ ih =>
    obtain ⟨hunbroken, hclosed⟩ := Text.isSealed_iff.mp hsealed
    rw [TaggedPart.placed]
    refine List.forall_mem_cons.mpr ⟨?_, ?_⟩
    · -- The part is split off the text at its own place, and every field is read off that split.
      have hcontent : (p.region text.toList (LineIndex.ofString text)
          (Text.byteLength before)).content.toList = p.content := String.toList_ofList
      constructor
      · refine ⟨before ++ p.gap ++ p.marker, rest, ?_, ?_, congrArg Text.byteLength hcontent.symm⟩
        · rw [hcontent, htext]
          simp [TaggedPart.opened]
        · simp only [TaggedPart.region, TaggedPart.start, Text.byteLength_append]
      · refine ⟨before ++ p.gap, p.marker, p.content ++ '`' :: rest, ?_, hmarker, ?_, ?_⟩
        · rw [htext]
          simp [TaggedPart.opened]
        · simp only [TaggedPart.start, Text.byteLength_append]
        · simp only [TaggedPart.region, TaggedPart.start, Text.byteLength_append]
      · rwa [hcontent]
      · rwa [hcontent]
      · rfl
    · rw [← byteLength_opened]
      exact ih (by rw [htext]; simp)

/-- The regions of parts come in order, behind the place where the parts start. -/
theorem placed_ordered (text : List Char) (index : LineIndex) (offset : Nat)
    (parts : List TaggedPart) :
    (TaggedPart.placed text index offset parts).Pairwise (fun p q => p.2.stop < q.1) ∧
      ∀ q ∈ TaggedPart.placed text index offset parts, offset ≤ q.1 := by
  induction parts generalizing offset with
  | nil => simp [TaggedPart.placed]
  | cons p parts ih =>
    obtain ⟨hordered, hbehind⟩ := ih (offset + Text.byteLength p.opened + 1)
    rw [TaggedPart.placed]
    refine ⟨List.pairwise_cons.mpr ⟨fun q hq => ?_, hordered⟩,
      List.forall_mem_cons.mpr ⟨Nat.le_add_right _ _, fun q hq => ?_⟩⟩
    · have hq := hbehind q hq
      simp only [TaggedPart.stop_region]
      omega
    · have hq := hbehind q hq
      omega

/-- A marker behind some text is a marker of what follows that text. -/
theorem exists_of_marksAt {text before rest : List Char} (htext : text = before ++ rest)
    {start stop : Nat} (h : MarksAt tags text start stop) (hle : Text.byteLength before ≤ start) :
    ∃ mid marker after, IsMarker tags marker ∧ rest = mid ++ (marker ++ after) ∧
      start = Text.byteLength (before ++ mid) := by
  obtain ⟨a, marker, after, hsplit, hmarker, rfl, -⟩ := h
  rw [htext, List.append_assoc a] at hsplit
  obtain ⟨mid, rfl, hmid⟩ := Text.exists_of_append_eq_append hsplit hle
  exact ⟨mid, marker, after, hmarker, hmid, rfl⟩

/-- A marker that stands behind some text does not start in the gap that a search skips there. -/
theorem byteLength_le_of_skips {text before gap rest : List Char}
    (htext : text = before ++ (gap ++ rest)) (hskips : Skips tags gap.length (gap ++ rest))
    {start stop : Nat} (h : MarksAt tags text start stop) (hle : Text.byteLength before ≤ start) :
    Text.byteLength (before ++ gap) ≤ start := by
  obtain ⟨mid, marker, after, hmarker, hmid, rfl⟩ := exists_of_marksAt htext h hle
  rw [Text.byteLength_append, Text.byteLength_append]
  apply Nat.add_le_add_left
  apply Nat.le_of_not_lt
  intro hlt
  -- Otherwise the gap goes on behind the start of the marker, which the search would have found.
  obtain ⟨tail, htail, -⟩ := Text.exists_of_append_eq_append hmid.symm (Nat.le_of_lt hlt)
  have hne : tail ≠ [] := by
    rintro rfl
    rw [htail, List.append_nil] at hlt
    exact Nat.lt_irrefl _ hlt
  have hlength : mid.length < gap.length := by
    rw [htail, List.length_append]
    exact Nat.lt_add_of_pos_right (List.length_pos_iff.mpr hne)
  exact hskips mid _ hmid hlength ⟨marker, after, hmarker, rfl⟩

/-- Behind a marker that is never closed no other one starts: it would end with a backtick that
closes the first one. -/
theorem lt_of_not_hasFreeTick {text before content : List Char} (htext : text = before ++ content)
    (hopen : ¬ Text.HasFreeTick content) {start stop : Nat} (h : MarksAt tags text start stop) :
    start < Text.byteLength before := by
  apply Nat.lt_of_not_le
  intro hle
  obtain ⟨mid, marker, after, hmarker, hmid, -⟩ := exists_of_marksAt htext h hle
  apply hopen
  rw [hmid, ← List.append_assoc]
  exact hmarker.hasFreeTick mid after

/-- A marker in front of the backtick that closes the first part starts in the region of the
part. -/
theorem hold_first {text before rest : List Char} {p : TaggedPart}
    (htext : text = before ++ (p.opened ++ '`' :: rest))
    (hskips : Skips tags p.gap.length (p.opened ++ '`' :: rest)) {start stop : Nat}
    (h : MarksAt tags text start stop) (hle : Text.byteLength before ≤ start)
    (hstop : start ≤ Text.byteLength before + Text.byteLength p.opened) (index : LineIndex)
    (parts : List TaggedPart) :
    Hold (TaggedPart.placed text index (Text.byteLength before) (p :: parts)) start := by
  rw [TaggedPart.opened, List.append_assoc, List.append_assoc] at hskips htext
  have hstart := byteLength_le_of_skips htext hskips h hle
  rw [Text.byteLength_append] at hstart
  refine ⟨_, List.mem_cons_self, hstart, ?_⟩
  rw [TaggedPart.stop_region]
  exact hstop

/-- Whether the markers of a text from a byte offset on start in some regions, or else in a marker
behind them that opens a region that is never closed. -/
def Covers (tags : List (List Char)) (text : List Char) (offset : Nat)
    (placed : List (Nat × Region)) : Prop :=
  (∀ start stop, MarksAt tags text start stop → offset ≤ start → Hold placed start) ∨
    ∃ opening content, offset ≤ opening ∧ LeftOpen tags text placed opening content ∧
      ∀ start stop, MarksAt tags text start stop → offset ≤ start →
        Hold placed start ∨ opening ≤ start ∧ start < content

/-- Where the search finds nothing, there is no marker to be covered. -/
theorem covers_of_skips {text before rest : List Char} (htext : text = before ++ rest)
    (hskips : ∀ count, Skips tags count rest) : Covers tags text (Text.byteLength before) [] := by
  refine Or.inl fun start stop hmarks hle => ?_
  obtain ⟨mid, marker, after, hmarker, hmid, -⟩ := exists_of_marksAt htext hmarks hle
  exact absurd ⟨marker, after, hmarker, rfl⟩
    (hskips (mid.length + 1) mid _ hmid (Nat.lt_succ_self _))

/-- The leftmost marker, if its region is never closed, covers all markers behind it. -/
theorem covers_of_unclosed {text before : List Char} {p : TaggedPart}
    (htext : text = before ++ p.opened) (hmarker : IsMarker tags p.marker)
    (hskips : Skips tags p.gap.length p.opened) (hopen : ¬ Text.HasFreeTick p.content) :
    Covers tags text (Text.byteLength before) [] := by
  rw [TaggedPart.opened, List.append_assoc] at htext hskips
  have hparts : text = before ++ p.gap ++ p.marker ++ p.content := by
    rw [htext]
    simp
  have hleft : LeftOpen tags text [] (Text.byteLength (before ++ p.gap))
      (Text.byteLength (before ++ p.gap ++ p.marker)) := by
    refine ⟨⟨before ++ p.gap, p.marker, p.content, hparts, hmarker, rfl, ?_⟩, by simp, ?_⟩
    · exact Text.byteLength_append _ _
    · rwa [hparts, Text.dropBytes_append]
  have hbehind : Text.byteLength before ≤ Text.byteLength (before ++ p.gap) := by
    rw [Text.byteLength_append]
    exact Nat.le_add_right _ _
  refine Or.inr ⟨_, _, hbehind, hleft, fun start stop hmarks hle => Or.inr ⟨?_, ?_⟩⟩
  · exact byteLength_le_of_skips htext hskips hmarks hle
  · exact lt_of_not_hasFreeTick hparts hopen hmarks

/-- A closed region in front of others covers the markers up to its backtick; behind it the others
cover what they did. -/
theorem Covers.region {text before rest : List Char} {p : TaggedPart}
    (htext : text = before ++ (p.opened ++ '`' :: rest))
    (hskips : Skips tags p.gap.length (p.opened ++ '`' :: rest)) (index : LineIndex)
    {parts : List TaggedPart}
    (h : Covers tags text (Text.byteLength before + Text.byteLength p.opened + 1)
      (TaggedPart.placed text index (Text.byteLength before + Text.byteLength p.opened + 1)
        parts)) :
    Covers tags text (Text.byteLength before)
      (TaggedPart.placed text index (Text.byteLength before) (p :: parts)) := by
  have htail : ∀ {start}, Hold (TaggedPart.placed text index
        (Text.byteLength before + Text.byteLength p.opened + 1) parts) start →
      Hold (TaggedPart.placed text index (Text.byteLength before) (p :: parts)) start := by
    rintro start ⟨q, hq, hstart⟩
    exact ⟨q, List.mem_cons_of_mem _ hq, hstart⟩
  -- Up to the backtick the region covers all markers, and behind it nothing changes.
  rcases h with hall | ⟨opening, content, hbehind, hleft, hall⟩
  · refine Or.inl fun start stop hmarks hle => ?_
    by_cases hstop : start ≤ Text.byteLength before + Text.byteLength p.opened
    · exact hold_first htext hskips hmarks hle hstop index parts
    · exact htail (hall start stop hmarks (by omega))
  · refine Or.inr ⟨opening, content, by omega, ⟨hleft.marked, ?_, hleft.unclosed⟩, ?_⟩
    · refine List.forall_mem_cons.mpr ⟨?_, hleft.behind⟩
      rw [TaggedPart.stop_region]
      exact hbehind
    · intro start stop hmarks hle
      by_cases hstop : start ≤ Text.byteLength before + Text.byteLength p.opened
      · exact Or.inl (hold_first htext hskips hmarks hle hstop index parts)
      · exact (hall start stop hmarks (by omega)).imp_left htail

/-- The regions of a scan cover the markers in the rest of a text. -/
theorem Scan.complete {rest : List Char} {parts : List TaggedPart} {last : Option TaggedPart}
    (h : Scan tags rest parts last) {text before : List Char} (htext : text = before ++ rest)
    (index : LineIndex) :
    Covers tags text (Text.byteLength before)
      (TaggedPart.placed text index (Text.byteLength before) parts) := by
  -- Behind a region the markers of the rest are left, and the offset from which markers are looked
  -- at moves behind the backtick.
  induction h generalizing before with
  | none hskips => exact covers_of_skips htext hskips
  | unclosed hmarker hskips hopen => exact covers_of_unclosed htext hmarker hskips hopen
  | @region p rest parts last _ hskips _ _ ih =>
    have hrest : text = before ++ p.opened ++ ['`'] ++ rest := by
      rw [htext]
      simp
    have hcovers := ih hrest
    rw [byteLength_opened] at hcovers
    exact hcovers.region htext hskips index

end Region

namespace Extractor

open Opening Region

/-- The regions of a host text are tagged, and each stands in front of the marker of the next. -/
theorem exists_placed {e : Extractor} (h : e.language.isEmbedded = true) (text : String) :
    ∃ placed : List (Nat × Region), e.extract text = placed.map (·.2) ∧
      (∀ q ∈ placed, q.2.TaggedAt (e.tags.map String.toList) text q.1) ∧
      placed.Pairwise (fun p q => p.2.stop < q.1) := by
  obtain ⟨parts, last, hscan, hregions⟩ := exists_scan (e.tags.map String.toList) text.toList
    (LineIndex.ofString text) 0 text.toList
  refine ⟨_, ?_, hscan.tagged (List.nil_append text.toList).symm, (placed_ordered _ _ _ _).1⟩
  rw [extract, if_pos h]
  exact hregions

/-- What is extracted is what is tagged: every region stands behind a marker and in front of the
backtick that closes it, the regions with their markers come one after the other, and every marker
of the text starts in one of them, or else in the last marker, which opens a region that is never
closed. -/
theorem extract_tagged (tags : List String) (text : String) :
    ∃ placed : List (Nat × Region),
      (⟨.reScript, tags⟩ : Extractor).extract text = placed.map (·.2) ∧
      (∀ q ∈ placed, q.2.TaggedAt (tags.map String.toList) text q.1) ∧
      placed.Pairwise (fun p q => p.2.stop < q.1) ∧
      ((∀ start stop, MarksAt (tags.map String.toList) text.toList start stop →
          Hold placed start) ∨
        ∃ opening content,
          LeftOpen (tags.map String.toList) text.toList placed opening content ∧
          ∀ start stop, MarksAt (tags.map String.toList) text.toList start stop →
            Hold placed start ∨ opening ≤ start ∧ start < content) := by
  obtain ⟨parts, last, hscan, hregions⟩ := exists_scan (tags.map String.toList) text.toList
    (LineIndex.ofString text) 0 text.toList
  have htext : text.toList = [] ++ text.toList := rfl
  refine ⟨_, hregions, hscan.tagged htext, (placed_ordered _ _ _ _).1, ?_⟩
  rcases hscan.complete htext (LineIndex.ofString text) with
    hall | ⟨opening, content, -, hleft, hall⟩
  · exact Or.inl fun start stop hmarks => hall start stop hmarks (Nat.zero_le _)
  · exact Or.inr ⟨opening, content, hleft, fun start stop hmarks =>
      hall start stop hmarks (Nat.zero_le _)⟩

end Extractor
end EmbeddedGraphQL
