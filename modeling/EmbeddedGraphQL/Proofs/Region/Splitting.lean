import Mathlib.Data.List.Basic
import EmbeddedGraphQL.Proofs.Region.Closing
import EmbeddedGraphQL.Region.File
import EmbeddedGraphQL.Region.Reformat

/-!
# A host text split at its regions

A host text is made of its regions and of what stands around them: for each region the text up to
the opening backtick and the content, then the closing backtick, and at the end a text that holds no
further region. The contents can be exchanged: as long as they are sealed, the text with other
contents splits in the same way.

* `Opening.exists_opens`: an opening does not depend on what follows it.
* `Extractor.regionsFrom_cons`: the first region and those behind it.
* `Region.Splits`: a text and the parts that it is made of.
* `Region.exists_splits`: every text is made of such parts.
* `Region.Splits.contents`: the regions that are extracted are the contents of the parts.
* `Region.Splits.foldl_replaceIn`: replacing the regions reprints the contents.
* `Region.contents_reformat_iff`: the reprinted contents are extracted again if they are sealed.
-/

namespace EmbeddedGraphQL

/-! ## Openings -/

namespace Opening

variable {tags : List (List Char)}

/-- A word without a backtick is found at the start of a text that has one whatever follows. -/
theorem isPrefixOf?_append {word text : List Char} (hword : '`' ∉ word) (htext : '`' ∈ text)
    (rest : List Char) :
    word.isPrefixOf? (text ++ rest) = (word.isPrefixOf? text).map (· ++ rest) := by
  induction word generalizing text with
  | nil => rfl
  | cons w word ih =>
    cases text with
    | nil => simp at htext
    | cons c text =>
      obtain ⟨hw, hword⟩ := not_or.mp (fun h => hword (List.mem_cons.mpr h))
      rw [List.cons_append, List.isPrefixOf?, List.isPrefixOf?]
      split
      · rename_i hwc
        refine ih hword ?_
        rcases List.mem_cons.mp htext with htick | htext
        · exact absurd (htick.trans (beq_iff_eq.mp hwc).symm) hw
        · exact htext
      · rfl

/-- What follows a word without a backtick has a backtick if the text has one. -/
theorem mem_of_isPrefixOf? {word text rest : List Char} (hword : '`' ∉ word) (htext : '`' ∈ text)
    (h : word.isPrefixOf? text = some rest) : '`' ∈ rest := by
  rw [← List.isPrefixOf?_eq_some_iff_append_eq.mp h, List.mem_append] at htext
  exact htext.resolve_left hword

/-- A text with a backtick has something left when its leading blanks go, whatever follows. -/
theorem exists_trimStart_append {text : List Char} (htext : '`' ∈ text) :
    ∃ c tail, ∀ rest, Text.trimStart (text ++ rest) = c :: (tail ++ rest) := by
  induction text with
  | nil => simp at htext
  | cons c text ih =>
    cases hc : Text.isBlank c with
    | false => exact ⟨c, text, fun rest => by simp [Text.trimStart, hc]⟩
    | true =>
      have hne : '`' ≠ c := by
        rintro rfl
        exact absurd hc (by decide)
      obtain ⟨d, tail, htail⟩ := ih ((List.mem_cons.mp htext).resolve_left hne)
      refine ⟨d, tail, fun rest => ?_⟩
      rw [← htail rest]
      simp [Text.trimStart, hc]

/-- The part of an opening after its tag does not depend on what follows. -/
theorem afterTag?_append {text : List Char} (htext : '`' ∈ text) (rest : List Char) :
    afterTag? (text ++ rest) = (afterTag? text).map (· ++ rest) := by
  cases text with
  | nil => simp at htext
  | cons c text =>
    by_cases hc : c = '('
    · subst hc
      have htick : '`' ∈ text := by simpa using htext
      -- The blanks end before the backtick, and with them what follows cannot matter.
      obtain ⟨d, tail, htrim⟩ := exists_trimStart_append htick
      have hnil := htrim []
      rw [List.append_nil, List.append_nil] at hnil
      rw [List.cons_append, afterTag?, afterTag?, htrim rest, hnil]
      by_cases hd : d = '`'
      · subst hd
        rfl
      · simp [hd]
    · -- No parenthesis comes next, on either side.
      have hnone : ∀ t : List Char, afterTag? (c :: t) = none := by
        intro t
        rw [afterTag?]
        exact fun _ h => absurd (List.cons.inj h).1 hc
      rw [List.cons_append, hnone, hnone]
      rfl

/-- An opening at the start of a text with a backtick does not depend on what follows. -/
theorem here?_append {text : List Char} (htags : ∀ tag ∈ tags, '`' ∉ tag) (htext : '`' ∈ text)
    (rest : List Char) : here? tags (text ++ rest) = (here? tags text).map (· ++ rest) := by
  cases text with
  | nil => simp at htext
  | cons c text =>
    by_cases hc : c = '%'
    · subst hc
      have htick : '`' ∈ text := by simpa using htext
      rw [List.cons_append, here?, here?]
      -- A backtick ends what an opening can look at, and the text has one.
      clear htext
      induction tags with
      | nil => rfl
      | cons tag tags ih =>
        obtain ⟨htag, htags⟩ := List.forall_mem_cons.mp htags
        have hfirst : (tag.isPrefixOf? (text ++ rest)).bind afterTag? =
            ((tag.isPrefixOf? text).bind afterTag?).map (· ++ rest) := by
          rw [isPrefixOf?_append htag htick]
          cases hafter : tag.isPrefixOf? text with
          | none => rfl
          | some left => exact afterTag?_append (mem_of_isPrefixOf? htag htick hafter) rest
        rw [List.findSome?_cons, List.findSome?_cons, hfirst, ih htags]
        cases (tag.isPrefixOf? text).bind afterTag? <;> rfl
    · have hnone : ∀ t : List Char, here? tags (c :: t) = none := by
        intro t
        rw [here?]
        exact fun _ h => absurd (List.cons.inj h).1 hc
      rw [List.cons_append, hnone, hnone]
      rfl

/-- What an opening at the start of a text takes ends with a backtick. -/
theorem exists_of_here? {text rest : List Char} (h : here? tags text = some rest) :
    ∃ taken, text = taken ++ '`' :: rest := by
  unfold here? at h
  split at h
  · rename_i text
    obtain ⟨tag, -, htag⟩ := List.exists_of_findSome?_eq_some h
    obtain ⟨mid, hmid, hrest⟩ := Option.bind_eq_some_iff.mp htag
    rw [← List.isPrefixOf?_eq_some_iff_append_eq.mp hmid]
    unfold afterTag? at hrest
    split at hrest
    · rename_i tail
      split at hrest
      · rename_i r hr
        cases hrest
        -- The opening ends with the backtick behind the blanks.
        refine ⟨'%' :: (tag ++ '(' :: Text.leadingBlanks tail), ?_⟩
        have happ := Text.leadingBlanks_append_trimStart tail
        rw [hr] at happ
        simp [happ]
      · cases hrest
    · cases hrest
  · cases h

/-- Whether a text opens a region right at its end, whatever follows. -/
def Opens (tags : List (List Char)) (gap : List Char) : Prop :=
  ∀ offset rest, ∃ start,
    find? tags offset (gap ++ rest) = some ⟨start, offset + Text.byteLength gap, rest⟩

/-- The text up to the leftmost opening opens a region. -/
theorem exists_opens {text : List Char} {offset : Nat} {o : Opening}
    (htags : ∀ tag ∈ tags, '`' ∉ tag) (h : find? tags offset text = some o) :
    ∃ gap, '`' ∈ gap ∧ text = gap ++ o.rest ∧ Opens tags gap := by
  induction text generalizing offset with
  | nil => cases h
  | cons c text ih =>
    unfold find? at h
    split at h
    · rename_i left hhere
      cases h
      obtain ⟨taken, htaken⟩ := exists_of_here? hhere
      have htick : '`' ∈ taken ++ ['`'] := by simp
      have hgap : c :: text = (taken ++ ['`']) ++ left := by simpa using htaken
      obtain ⟨d, gap, hcons⟩ := List.exists_cons_of_ne_nil (List.ne_nil_of_mem htick)
      rw [hcons] at htick hgap
      have hopens : ∀ rest, here? tags (d :: gap ++ rest) = some rest := by
        intro rest
        rw [hgap, here?_append htags htick, Option.map_eq_some_iff] at hhere
        obtain ⟨left', hleft', heq⟩ := hhere
        have hnil : left' = [] := List.append_left_eq_self.mp heq
        rw [here?_append htags htick, hleft', hnil]
        rfl
      refine ⟨d :: gap, htick, hgap, fun offset rest => ⟨offset, ?_⟩⟩
      rw [List.cons_append, find?, ← List.cons_append, hopens rest]
      simp only [Text.byteLength_append, Nat.add_sub_cancel]
    · rename_i hhere
      obtain ⟨gap, htick, hgap, hopens⟩ := ih h
      have htick' : '`' ∈ c :: gap := List.mem_cons_of_mem c htick
      -- The character in front opens nothing, and still does not when the rest is another one.
      have hnone : here? tags (c :: gap) = none := by
        rw [hgap, ← List.cons_append, here?_append htags htick'] at hhere
        exact Option.map_eq_none_iff.mp hhere
      refine ⟨c :: gap, htick', by rw [hgap, List.cons_append], fun offset rest => ?_⟩
      obtain ⟨start, hstart⟩ := hopens (offset + c.utf8Size) rest
      refine ⟨start, ?_⟩
      rw [List.cons_append, find?, ← List.cons_append, here?_append htags htick', hnone]
      simp only [Option.map_none, hstart, Text.byteLength_cons, Nat.add_assoc]

end Opening

/-! ## Replacing a piece -/

namespace Text

/-- What stands between two texts is replaced. -/
theorem splice_append (a old b new : List Char) :
    splice (a ++ old ++ b) (byteLength a) (byteLength a + byteLength old) new = a ++ new ++ b := by
  have htake : takeBytes (byteLength a) (a ++ old ++ b) = a := by
    rw [List.append_assoc, takeBytes_append]
  have hdrop : dropBytes (byteLength a + byteLength old) (a ++ old ++ b) = b := by
    rw [← byteLength_append, dropBytes_append]
  rw [splice, htake, hdrop]

end Text

/-! ## One region after the other -/

namespace Extractor

variable {tags : List (List Char)}

/-- The region of the first opening that closes, and then those behind its closing backtick. -/
theorem regionsFrom_cons {offset : Nat} {rest content after : List Char} {o : Opening}
    (hfind : Opening.find? tags offset rest = some o) (hclose : close? o.rest = some (content, after))
    (text : List Char) (index : LineIndex) :
    regionsFrom tags text index offset rest =
      { content := String.ofList content
        moduleName := moduleOf text index (index.position o.start).line
        offset := o.stop
        length := Text.byteLength content
        range := index.range ⟨o.stop, o.stop + Text.byteLength content⟩ } ::
      regionsFrom tags text index (o.stop + Text.byteLength content + 1) after := by
  obtain ⟨-, hrest⟩ := close?_eq_some_iff.mp hclose
  -- The closing backtick is searched for by bytes, which finds what `close?` finds by characters.
  have hclosing : closing? (Text.utf8 o.rest) = some (Text.byteLength content) := by
    rw [closing?_utf8, hclose, Option.map_some]
  -- The backtick is one byte, so that the search goes on right behind it.
  have hafter : Text.dropBytes (Text.byteLength content + 1) o.rest = after := by
    have htick : Text.byteLength content + 1 = Text.byteLength (content ++ ['`']) := by
      rw [Text.byteLength_append]
      rfl
    rw [htick, hrest, List.append_cons content '`' after, Text.dropBytes_append]
  have htake : Text.takeBytes (Text.byteLength content) o.rest = content := by
    rw [hrest, Text.takeBytes_append]
  rw [regionsFrom]
  split
  · rename_i hnone
    rw [hfind] at hnone
    cases hnone
  · rename_i o' hsome
    obtain rfl : o = o' := Option.some.inj (hfind.symm.trans hsome)
    simp only [hclosing, htake, hafter]

/-- Where nothing that opens closes there is no region. -/
theorem regionsFrom_eq_nil {offset : Nat} {rest : List Char}
    (h : ∀ o, Opening.find? tags offset rest = some o → close? o.rest = none) (text : List Char)
    (index : LineIndex) : regionsFrom tags text index offset rest = [] := by
  rw [regionsFrom]
  split
  · rfl
  · rename_i o hfind
    rw [closing?_utf8, h o hfind]
    rfl

end Extractor

/-! ## Parts of a host text -/

/-- A region of a host text with what stands in front of it. -/
structure HostPart where
  /-- The text up to and with the opening backtick. -/
  gap : List Char
  /-- The content. -/
  content : List Char

/-- The text that a part is, with the closing backtick. -/
def HostPart.text (p : HostPart) : List Char := p.gap ++ p.content ++ ['`']

namespace Region

/-- Whether a host text is made of some parts and a rest in which nothing that opens closes. -/
inductive Splits (tags : List (List Char)) : List Char → List HostPart → List Char → Prop where
  /-- There is no further region. -/
  | last {tail : List Char}
      (h : ∀ offset o, Opening.find? tags offset tail = some o → close? o.rest = none) :
      Splits tags tail [] tail
  /-- There is a region, and then the rest. -/
  | part {p : HostPart} {parts : List HostPart} {rest tail : List Char}
      (hopens : Opening.Opens tags p.gap) (hsealed : Text.isSealed p.content = true)
      (h : Splits tags rest parts tail) : Splits tags (p.text ++ rest) (p :: parts) tail

variable {tags : List (List Char)}

/-- Every host text is made of parts, if no tag holds a backtick. -/
theorem exists_splits (htags : ∀ tag ∈ tags, '`' ∉ tag) (text : List Char) :
    ∃ parts tail, Splits tags text parts tail := by
  by_cases hlast : ∀ offset o, Opening.find? tags offset text = some o → close? o.rest = none
  · exact ⟨[], text, .last hlast⟩
  · obtain ⟨offset, o, hfind, hclose⟩ : ∃ offset o,
        Opening.find? tags offset text = some o ∧ close? o.rest ≠ none := by
      simpa using hlast
    obtain ⟨⟨content, after⟩, hclose⟩ := Option.ne_none_iff_exists'.mp hclose
    obtain ⟨hsealed, hrest⟩ := close?_eq_some_iff.mp hclose
    obtain ⟨gap, -, htext, hopens⟩ := Opening.exists_opens htags hfind
    have hshorter : after.length < text.length := by
      rw [htext, hrest]
      simp only [List.length_append, List.length_cons]
      omega
    obtain ⟨parts, tail, hsplits⟩ := exists_splits htags after
    have hpart : text = HostPart.text ⟨gap, content⟩ ++ after := by
      rw [htext, hrest]
      simp [HostPart.text]
    exact ⟨⟨gap, content⟩ :: parts, tail, hpart ▸ .part hopens hsealed hsplits⟩
termination_by text.length

/-- The first region of a text that starts with a part is the content of the part. -/
theorem regionsFrom_part {p : HostPart} (hopens : Opening.Opens tags p.gap)
    (hsealed : Text.isSealed p.content = true) (text : List Char) (index : LineIndex)
    (offset : Nat) (rest : List Char) :
    ∃ r : Region, r.content = String.ofList p.content ∧
      r.offset = offset + Text.byteLength p.gap ∧ r.length = Text.byteLength p.content ∧
      Extractor.regionsFrom tags text index offset (p.text ++ rest) =
        r :: Extractor.regionsFrom tags text index (offset + Text.byteLength p.text) rest := by
  have htext : p.text ++ rest = p.gap ++ (p.content ++ '`' :: rest) := by simp [HostPart.text]
  obtain ⟨start, hfind⟩ := hopens offset (p.content ++ '`' :: rest)
  have hstop : offset + Text.byteLength p.gap + Text.byteLength p.content + 1 =
      offset + Text.byteLength p.text := by
    simp only [HostPart.text, Text.byteLength_append]
    simp only [Nat.add_assoc]
    rfl
  rw [htext, Extractor.regionsFrom_cons hfind (close?_eq_some_iff.mpr ⟨hsealed, rfl⟩), hstop]
  exact ⟨_, rfl, rfl, rfl, rfl⟩

/-! ## Regions and replacements -/

/-- The regions of a text hold the contents of its parts. -/
theorem Splits.contents {rest tail : List Char} {parts : List HostPart}
    (h : Splits tags rest parts tail) (text : List Char) (index : LineIndex) (offset : Nat) :
    (Extractor.regionsFrom tags text index offset rest).map Region.content =
      parts.map fun p => String.ofList p.content := by
  induction h generalizing offset with
  | last h => rw [Extractor.regionsFrom_eq_nil (h offset), List.map_nil, List.map_nil]
  | part hopens hsealed _ ih =>
    obtain ⟨r, hcontent, -, -, hregions⟩ := regionsFrom_part hopens hsealed text index offset _
    rw [hregions, List.map_cons, List.map_cons, hcontent, ih]

/-- The content of every region is sealed. -/
theorem Splits.isSealed {text tail : List Char} {parts : List HostPart}
    (h : Splits tags text parts tail) : ∀ p ∈ parts, Text.isSealed p.content = true := by
  induction h with
  | last => simp
  | part _ hsealed _ ih => exact List.forall_mem_cons.mpr ⟨hsealed, ih⟩

/-- What the content of a region becomes: the printed document, if it is one. -/
def reprint (content : String) : String :=
  match Document.parse? content with
  | none => content
  | some d => Indentation.restoreString content d.pretty

/-- A part with its content reprinted. -/
def reprintPart (p : HostPart) : HostPart :=
  { p with content := (reprint (String.ofList p.content)).toList }

/-- Replacing a region puts what its content becomes in its place. -/
theorem replaceIn_append (before content after : List Char) {r : Region}
    (hcontent : r.content = String.ofList content) (hoffset : r.offset = Text.byteLength before)
    (hlength : r.length = Text.byteLength content) :
    replaceIn (before ++ content ++ after) r =
      before ++ (reprint (String.ofList content)).toList ++ after := by
  unfold replaceIn replacement? reprint
  rw [hcontent]
  cases Document.parse? (String.ofList content) with
  | none => simp
  | some d =>
    simp only [Option.map_some, printed, hcontent, stop, hoffset, hlength, Text.splice_append]

/-- Replacing the regions from the last to the first reprints the content of every part. -/
theorem Splits.foldl_replaceIn {rest tail : List Char} {parts : List HostPart}
    (h : Splits tags rest parts tail) (text : List Char) (index : LineIndex)
    (before : List Char) :
    (Extractor.regionsFrom tags text index (Text.byteLength before) rest).reverse.foldl replaceIn
        (before ++ rest) =
      before ++ (parts.flatMap fun p => (reprintPart p).text) ++ tail := by
  rw [List.foldl_reverse]
  induction h generalizing before with
  | last h => simp [Extractor.regionsFrom_eq_nil (h _)]
  | @part p parts rest tail hopens hsealed _ ih =>
    obtain ⟨r, hcontent, hoffset, hlength, hregions⟩ :=
      regionsFrom_part hopens hsealed text index (Text.byteLength before) rest
    rw [← Text.byteLength_append] at hregions hoffset
    -- The regions behind are replaced first, with this one still as it was.
    have hrest := ih (before ++ p.text)
    rw [hregions, List.foldr_cons, ← List.append_assoc, hrest]
    have hplace : before ++ p.text ++ (parts.flatMap fun p => (reprintPart p).text) ++ tail =
        (before ++ p.gap) ++ p.content ++
          ('`' :: ((parts.flatMap fun p => (reprintPart p).text) ++ tail)) := by
      simp [HostPart.text]
    rw [hplace, replaceIn_append _ _ _ hcontent hoffset hlength]
    simp [HostPart.text, reprintPart]

/-- A text whose parts are reprinted splits at the same places, if what they become is sealed. -/
theorem Splits.reprint {text tail : List Char} {parts : List HostPart}
    (h : Splits tags text parts tail)
    (hsealed : ∀ p ∈ parts, Text.isSealed (reprintPart p).content = true) :
    Splits tags ((parts.flatMap fun p => (reprintPart p).text) ++ tail) (parts.map reprintPart)
      tail := by
  induction h with
  | last h => exact .last h
  | part hopens _ _ ih =>
    obtain ⟨hfirst, hrest⟩ := List.forall_mem_cons.mp hsealed
    rw [List.flatMap_cons, List.append_assoc]
    exact .part hopens hfirst (ih hrest)

section Extract

variable {e : Extractor} (hlanguage : e.language.isEmbedded = true)
  (htags : ∀ tag ∈ e.tags, '`' ∉ tag.toList) (text : String)

include hlanguage htags

/-- A text splits into parts whose contents are those of its regions. -/
theorem exists_splits_extract : ∃ parts tail,
    Splits (e.tags.map String.toList) text.toList parts tail ∧
      (e.extract text).map Region.content = parts.map fun p => String.ofList p.content := by
  have htags : ∀ tag ∈ e.tags.map String.toList, '`' ∉ tag := by simpa using htags
  obtain ⟨parts, tail, hsplits⟩ := exists_splits htags text.toList
  refine ⟨parts, tail, hsplits, ?_⟩
  rw [Extractor.extract, if_pos hlanguage]
  exact hsplits.contents _ _ _

/-- What is extracted is sealed. -/
theorem isSealed_content : ∀ r ∈ e.extract text, Text.isSealed r.content.toList = true := by
  obtain ⟨parts, tail, hsplits, hcontents⟩ := exists_splits_extract hlanguage htags text
  intro r hr
  have hmem : r.content ∈ parts.map fun p => String.ofList p.content :=
    hcontents ▸ List.mem_map_of_mem hr
  obtain ⟨p, hp, heq⟩ := List.mem_map.mp hmem
  rw [← heq, String.toList_ofList]
  exact hsplits.isSealed p hp

/-- If the reprinted contents are sealed, reformatting gives regions with these contents. -/
theorem contents_reformat
    (h : ∀ r ∈ e.extract text, Text.isSealed (reprint r.content).toList = true) :
    (e.extract (reformat (e.extract text) text)).map Region.content =
      (e.extract text).map (fun r => reprint r.content) := by
  obtain ⟨parts, tail, hsplits, hcontents⟩ := exists_splits_extract hlanguage htags text
  have hsealed : ∀ p ∈ parts, Text.isSealed (reprintPart p).content = true := by
    intro p hp
    have hmem : String.ofList p.content ∈ (e.extract text).map Region.content := by
      rw [hcontents]
      exact List.mem_map_of_mem hp
    obtain ⟨r, hr, hcontent⟩ := List.mem_map.mp hmem
    have hr := h r hr
    rw [hcontent] at hr
    exact hr
  have hextract : ∀ t, e.extract t = Extractor.regionsFrom (e.tags.map String.toList) t.toList
      (LineIndex.ofString t) 0 t.toList := fun t => by rw [Extractor.extract, if_pos hlanguage]
  -- Region by region the text becomes that of the reprinted parts, which splits at the same places.
  have hreformat : (reformat (e.extract text) text).toList =
      (parts.flatMap fun p => (reprintPart p).text) ++ tail := by
    rw [reformat, hextract, String.toList_ofList]
    exact hsplits.foldl_replaceIn text.toList _ []
  have hreprinted : (e.extract text).map (fun r => reprint r.content) =
      parts.map fun p => String.ofList (reprintPart p).content := by
    have hmap := congrArg (List.map reprint) hcontents
    rw [List.map_map, List.map_map] at hmap
    simpa [reprintPart, Function.comp_def] using hmap
  rw [hextract, hreformat, (hsplits.reprint hsealed).contents, List.map_map, hreprinted]
  rfl

/-- Reformatting gives regions with the reprinted contents exactly if these are sealed. -/
theorem contents_reformat_iff :
    (e.extract (reformat (e.extract text) text)).map Region.content =
        (e.extract text).map (fun r => reprint r.content) ↔
      ∀ r ∈ e.extract text, Text.isSealed (reprint r.content).toList = true := by
  refine ⟨fun h r hr => ?_, contents_reformat hlanguage htags text⟩
  -- What is extracted is sealed, whatever text it is extracted from.
  have hmem : reprint r.content ∈
      (e.extract (reformat (e.extract text) text)).map Region.content := by
    rw [h]
    exact List.mem_map_of_mem hr
  obtain ⟨r', hr', hcontent⟩ := List.mem_map.mp hmem
  rw [← hcontent]
  exact isSealed_content hlanguage htags _ r' hr'

end Extract
end Region
end EmbeddedGraphQL
