import Mathlib.Data.List.Basic
import EmbeddedGraphQL.Proofs.LineIndex.Lines
import EmbeddedGraphQL.Proofs.Region.Coordinates
import EmbeddedGraphQL.Proofs.Text.Runs

/-!
# Which module a region belongs to

The pattern of a module declaration takes as many blanks and word characters as it can, and never
gives any of them back. It need not: a blank is no word character, and `=` is neither, so that the
parts of a declaration are whole runs, and a declaration can be read in one way only. Where none
starts the search moves on by one character, whatever has been read, so that `module type S =` or
`module module X =` hide nothing behind them.

The lines are cut out of the text by the index, and only two of them are ever looked at: the one
with the `%` of the marker and the one above it.

* `ModuleName.Declaration`: the parts of a declaration.
* `ModuleName.declaredHere?_eq_some_iff`: the declaration at the start of a text.
* `ModuleName.declared?_eq_some_iff`, `ModuleName.declared?_eq_none_iff`: the leftmost declaration
  of a line.
* `Extractor.moduleOf_ofText`: the module of a line and the line above it.
* `Extractor.moduleName_nearest`: the module of an extracted region.
-/

namespace EmbeddedGraphQL

/-! ## Blanks and word characters -/

/-- Membership changes twice: at the start of the first run of characters in the set, and behind
its end. -/
theorem CharSet.contains_cons_cons {start stop : Nat} {changes : List Nat} (hrun : start ≤ stop)
    (hbehind : ∀ change ∈ changes, stop ≤ change) (c : Char) :
    CharSet.contains ⟨start :: stop :: changes⟩ c = true ↔
      (start ≤ c.toNat ∧ c.toNat < stop) ∨ CharSet.contains ⟨changes⟩ c = true := by
  simp only [contains, List.countP_cons]
  by_cases hstop : stop ≤ c.toNat
  · have hstart : start ≤ c.toNat := Nat.le_trans hrun hstop
    simp only [hstart, hstop, decide_true, if_true, Nat.not_lt.mpr hstop, and_false, false_or,
      beq_iff_eq]
    omega
  · -- The first run is not over, and so no later one has started.
    have hnone : changes.countP (· ≤ c.toNat) = 0 := by
      rw [List.countP_eq_zero]
      intro change hchange
      have := hbehind change hchange
      simp only [decide_eq_true_eq]
      omega
    simp only [hnone, hstop, decide_false, Bool.false_eq_true, if_false, Nat.zero_add,
      decide_eq_true_eq, Nat.lt_of_not_le hstop, and_true, Nat.zero_mod]
    by_cases hstart : start ≤ c.toNat <;> simp [hstart]

/-- The code points of the blanks. -/
def Text.blankCodes : List Nat :=
  List.range' 0x9 5 ++ [0x20, 0x85, 0xA0, 0x1680] ++ List.range' 0x2000 11 ++
    [0x2028, 0x2029, 0x202F, 0x205F, 0x3000]

/-- The code of a blank is in the list of their codes. -/
theorem Text.toNat_mem_blankCodes {c : Char} (h : Text.isBlank c = true) :
    c.toNat ∈ blankCodes := by
  have hempty : CharSet.contains ⟨[]⟩ c = false := rfl
  rw [isBlank, blankSet] at h
  simp (disch := decide) only [CharSet.contains_cons_cons, hempty, Bool.false_eq_true,
    or_false] at h
  simp only [blankCodes, List.mem_append, List.mem_range'_1, List.mem_cons, List.not_mem_nil,
    or_false]
  omega

/-- No blank may stand in a word. -/
theorem Text.isWord_eq_false_of_isBlank {c : Char} (h : Text.isBlank c = true) :
    Text.isWord c = false := by
  have hcodes : ∀ code ∈ blankCodes, isWord (Char.ofNat code) = false := by decide +kernel
  rw [← Char.ofNat_toNat c]
  exact hcodes _ (toNat_mem_blankCodes h)

namespace ModuleName

/-! ## Declarations -/

/-- The declaration of a module: `module`, blanks, the name, which is a word, maybe more blanks, and
`=`. -/
structure Declaration where
  /-- The blanks in front of the name. -/
  gap : List Char
  /-- The name. -/
  name : List Char
  /-- The blanks behind the name. -/
  space : List Char
  gap_ne_nil : gap ≠ []
  isBlank_gap : ∀ c ∈ gap, Text.isBlank c = true
  name_ne_nil : name ≠ []
  isWord_name : ∀ c ∈ name, Text.isWord c = true
  isBlank_space : ∀ c ∈ space, Text.isBlank c = true

namespace Declaration

/-- The text of a declaration. -/
def text (d : Declaration) : List Char :=
  "module".toList ++ (d.gap ++ (d.name ++ (d.space ++ ['='])))

/-- Whether a declaration stands at a column of a line. -/
def StandsAt (d : Declaration) (line : List Char) (column : Nat) : Prop :=
  ∃ before after, line = before ++ (d.text ++ after) ∧ before.length = column

/-- Whether a declaration stands in a line and no other one stands further to the left. -/
def IsLeftmost (d : Declaration) (line : List Char) : Prop :=
  ∃ column, d.StandsAt line column ∧
    ∀ (d' : Declaration) column', d'.StandsAt line column' → column ≤ column'

variable {d : Declaration} {line : List Char}

/-- A declaration stands at the start of a line that begins with its text. -/
theorem standsAt_zero : d.StandsAt line 0 ↔ ∃ after, line = d.text ++ after := by
  constructor
  · rintro ⟨before, after, rfl, hcolumn⟩
    obtain rfl := List.length_eq_zero_iff.mp hcolumn
    exact ⟨after, rfl⟩
  · rintro ⟨after, rfl⟩
    exact ⟨[], after, rfl, rfl⟩

/-- A declaration stands further back by one behind one more character. -/
theorem standsAt_succ {c : Char} {column : Nat} :
    d.StandsAt (c :: line) (column + 1) ↔ d.StandsAt line column := by
  constructor
  · rintro ⟨before, after, hsplit, hcolumn⟩
    cases before with
    | nil => cases hcolumn
    | cons e before =>
      rw [List.cons_append, List.cons.injEq] at hsplit
      exact ⟨before, after, hsplit.2, Nat.succ.inj hcolumn⟩
  · rintro ⟨before, after, rfl, rfl⟩
    exact ⟨c :: before, after, rfl, rfl⟩

/-- No declaration stands on an empty line. -/
theorem not_standsAt_nil (column : Nat) : ¬ d.StandsAt [] column := by
  rintro ⟨before, after, hsplit, -⟩
  have htext := (List.append_eq_nil_iff.mp (List.append_eq_nil_iff.mp hsplit.symm).2).1
  unfold text at htext
  exact absurd (List.append_eq_nil_iff.mp htext).1 (by decide)

end Declaration

/-- Whether a declaration stands anywhere in a line. -/
def Declares (line : List Char) : Prop :=
  ∃ (d : Declaration) (column : Nat), d.StandsAt line column

variable {line : List Char}

/-! ## One place of a line -/

/-- The blanks in front of a name end where it starts. -/
theorem Declaration.isBlank_head?_name (d : Declaration) (after : List Char) :
    ∀ c ∈ (d.name ++ after).head?, Text.isBlank c = false := by
  obtain ⟨c, name, hcons⟩ := List.exists_cons_of_ne_nil d.name_ne_nil
  rw [hcons]
  rintro _ ⟨⟩
  have hword := d.isWord_name c (hcons ▸ List.mem_cons_self)
  rw [Bool.eq_false_iff]
  intro hblank
  rw [Text.isWord_eq_false_of_isBlank hblank] at hword
  cases hword

/-- The name ends at a blank or at the equals sign. -/
theorem Declaration.isWord_head?_space (d : Declaration) (after : List Char) :
    ∀ c ∈ (d.space ++ '=' :: after).head?, Text.isWord c = false := by
  cases hcons : d.space with
  | nil =>
    rintro _ ⟨⟩
    decide
  | cons c space =>
    rintro _ ⟨⟩
    exact Text.isWord_eq_false_of_isBlank (d.isBlank_space c (hcons ▸ List.mem_cons_self))

/-- The text of a declaration is what the pattern finds there: each part of a declaration is a whole
run of its characters. -/
theorem declaredHere?_text (d : Declaration) (after : List Char) :
    declaredHere? (d.text ++ after) = some d.name := by
  have hmodule : "module".toList.isPrefixOf? (d.text ++ after) =
      some (d.gap ++ (d.name ++ (d.space ++ '=' :: after))) := by
    rw [List.isPrefixOf?_eq_some_iff_append_eq]
    unfold Declaration.text
    simp
  have hname := d.isBlank_head?_name (d.space ++ '=' :: after)
  have hspace := d.isWord_head?_space after
  have hequals : ∀ c ∈ ('=' :: after).head?, Text.isBlank c = false := by
    rintro _ ⟨⟩
    decide
  have hleading : (Text.leadingBlanks (d.gap ++ (d.name ++ (d.space ++ '=' :: after)))).isEmpty =
      false := by
    rw [Text.leadingBlanks, Text.takeWhile_append_stop d.isBlank_gap hname,
      List.isEmpty_eq_false_iff]
    exact d.gap_ne_nil
  have hne : d.name.isEmpty = false := List.isEmpty_eq_false_iff.mpr d.name_ne_nil
  -- Run after run is cut off: the blanks, the name, more blanks.
  simp only [declaredHere?, hmodule, hleading, Text.trimStart,
    Text.dropWhile_append_stop d.isBlank_gap hname,
    Text.takeWhile_append_stop d.isWord_name hspace,
    Text.dropWhile_append_stop d.isWord_name hspace,
    Text.dropWhile_append_stop d.isBlank_space hequals, hne, List.head?_cons, Bool.or_self,
    Bool.false_eq_true, if_false, if_true]

/-- What is found at the start of a text is a declaration. -/
theorem exists_of_declaredHere? {name : List Char} (h : declaredHere? line = some name) :
    ∃ (d : Declaration) (after : List Char), line = d.text ++ after ∧ d.name = name := by
  rw [declaredHere?] at h
  split at h
  · cases h
  · rename_i rest hrest
    simp only at h
    split at h
    · cases h
    · rename_i hne
      split at h
      · rename_i hhead
        obtain rfl := Option.some.inj h
        rw [Bool.or_eq_true, List.isEmpty_iff, List.isEmpty_iff, not_or] at hne
        obtain ⟨after, hafter⟩ := List.head?_eq_some_iff.mp hhead
        refine ⟨⟨Text.leadingBlanks rest, (Text.trimStart rest).takeWhile Text.isWord,
          Text.leadingBlanks ((Text.trimStart rest).dropWhile Text.isWord), hne.1,
          fun _ => Text.isBlank_of_mem_leadingBlanks, hne.2,
          List.all_eq_true.mp List.all_takeWhile, fun _ => Text.isBlank_of_mem_leadingBlanks⟩,
          after, ?_, rfl⟩
        -- Put together again, the runs and what stops them are the text.
        have hspace := Text.leadingBlanks_append_trimStart
          ((Text.trimStart rest).dropWhile Text.isWord)
        rw [hafter] at hspace
        have hname := List.takeWhile_append_dropWhile (p := Text.isWord) (l := Text.trimStart rest)
        rw [← hspace] at hname
        have hgap := Text.leadingBlanks_append_trimStart rest
        rw [← hname] at hgap
        rw [← List.isPrefixOf?_eq_some_iff_append_eq.mp hrest]
        unfold Declaration.text
        conv => lhs; rw [← hgap]
        simp
      · cases h

/-- A name is found at the start of a text exactly if a declaration of it stands there. -/
theorem declaredHere?_eq_some_iff {name : List Char} :
    declaredHere? line = some name ↔ ∃ d : Declaration, d.StandsAt line 0 ∧ d.name = name := by
  constructor
  · intro h
    obtain ⟨d, after, hsplit, hname⟩ := exists_of_declaredHere? h
    exact ⟨d, Declaration.standsAt_zero.mpr ⟨after, hsplit⟩, hname⟩
  · rintro ⟨d, hd, rfl⟩
    obtain ⟨after, rfl⟩ := Declaration.standsAt_zero.mp hd
    exact declaredHere?_text d after

/-- Nothing is read as a declaration exactly if none stands at the start. -/
theorem declaredHere?_eq_none_iff :
    declaredHere? line = none ↔ ∀ d : Declaration, ¬ d.StandsAt line 0 := by
  rw [Option.eq_none_iff_forall_ne_some]
  constructor
  · exact fun h d hd => h d.name (declaredHere?_eq_some_iff.mpr ⟨d, hd, rfl⟩)
  · intro h name hname
    obtain ⟨d, hd, -⟩ := declaredHere?_eq_some_iff.mp hname
    exact h d hd

/-! ## The leftmost place -/

/-- If a declaration stands at the start of a line, the leftmost ones stand there. -/
theorem Declaration.isLeftmost_iff_of_start {d : Declaration} (hd : d.StandsAt line 0)
    {d' : Declaration} : d'.IsLeftmost line ↔ d'.StandsAt line 0 := by
  constructor
  · rintro ⟨column, hcolumn, hleft⟩
    obtain rfl := Nat.le_zero.mp (hleft d 0 hd)
    exact hcolumn
  · exact fun hstart => ⟨0, hstart, fun _ _ _ => Nat.zero_le _⟩

/-- If none stands there, the character at the start makes no difference. -/
theorem Declaration.isLeftmost_cons {c : Char}
    (hnone : ∀ d : Declaration, ¬ d.StandsAt (c :: line) 0) {d : Declaration} :
    d.IsLeftmost (c :: line) ↔ d.IsLeftmost line := by
  constructor
  · rintro ⟨column, hcolumn, hleft⟩
    cases column with
    | zero => exact absurd hcolumn (hnone d)
    | succ column =>
      refine ⟨column, Declaration.standsAt_succ.mp hcolumn, fun d' column' h' => ?_⟩
      exact Nat.le_of_succ_le_succ (hleft d' _ (Declaration.standsAt_succ.mpr h'))
  · rintro ⟨column, hcolumn, hleft⟩
    refine ⟨column + 1, Declaration.standsAt_succ.mpr hcolumn, fun d' column' h' => ?_⟩
    cases column' with
    | zero => exact absurd h' (hnone d')
    | succ column' => exact Nat.succ_le_succ (hleft d' _ (Declaration.standsAt_succ.mp h'))

/-- The name that is found on a line is that of the leftmost declaration. -/
theorem declared?_eq_some_iff {name : List Char} :
    declared? line = some name ↔ ∃ d : Declaration, d.IsLeftmost line ∧ d.name = name := by
  induction line with
  | nil =>
    refine iff_of_false (by simp [declared?]) ?_
    rintro ⟨d, ⟨column, hcolumn, -⟩, -⟩
    exact Declaration.not_standsAt_nil column hcolumn
  | cons c line ih =>
    rw [declared?]
    cases hhere : declaredHere? (c :: line) with
    | none =>
      rw [Option.none_or, ih]
      simp only [Declaration.isLeftmost_cons (declaredHere?_eq_none_iff.mp hhere)]
    | some found =>
      obtain ⟨d, hd, -⟩ := declaredHere?_eq_some_iff.mp hhere
      rw [Option.some_or, ← hhere, declaredHere?_eq_some_iff]
      simp only [Declaration.isLeftmost_iff_of_start hd]

/-- No name is found exactly on a line without a declaration. -/
theorem declared?_eq_none_iff : declared? line = none ↔ ¬ Declares line := by
  induction line with
  | nil => exact iff_of_true rfl fun ⟨_, column, h⟩ => Declaration.not_standsAt_nil column h
  | cons c line ih =>
    rw [declared?, Option.or_eq_none_iff, declaredHere?_eq_none_iff, ih]
    constructor
    · rintro ⟨hhere, hlater⟩ ⟨d, column, hd⟩
      cases column with
      | zero => exact hhere d hd
      | succ column => exact hlater ⟨d, column, Declaration.standsAt_succ.mp hd⟩
    · intro hnone
      refine ⟨fun d hd => hnone ⟨d, 0, hd⟩, fun ⟨d, column, hd⟩ => ?_⟩
      exact hnone ⟨d, column + 1, Declaration.standsAt_succ.mpr hd⟩

end ModuleName

/-! ## The line of a region and the line above it -/

/-- Whether a region has the module that is declared nearest to it: leftmost on its own line or, if
that has no declaration, leftmost on the line above. -/
structure ModuleName.IsNearest (line : List Char) (above : Option (List Char))
    (moduleName : Option String) : Prop where
  some_iff : ∀ name, moduleName = some name ↔
    (∃ d : Declaration, d.IsLeftmost line ∧ String.ofList d.name = name) ∨
      ¬ Declares line ∧ ∃ l, above = some l ∧
        ∃ d : Declaration, d.IsLeftmost l ∧ String.ofList d.name = name
  none_iff : moduleName = none ↔ ¬ Declares line ∧ ∀ l, above = some l → ¬ Declares l

/-- The module of a part is the one of the line on which its marker starts. -/
theorem TaggedPart.moduleName_of_mem_placed {text : List Char} {index : LineIndex} {offset : Nat}
    {parts : List TaggedPart} {q : Nat × Region} (h : q ∈ placed text index offset parts) :
    q.2.moduleName = Extractor.moduleOf text index (index.position q.1).line := by
  induction parts generalizing offset with
  | nil => cases h
  | cons p parts ih =>
    rcases List.mem_cons.mp h with rfl | h
    · rfl
    · exact ih h

namespace Extractor

open ModuleName Opening Region TaggedPart

/-- The line above a line of a text, if there is one. -/
def lineAbove? (text : List Char) : Nat → Option (List Char)
  | 0 => none
  | number + 1 => (Text.pieces text)[number]?

/-- The module of a line is looked for on the line itself and on the one above it. -/
theorem moduleOf_ofText (text : List Char) (number : Nat) :
    moduleOf text (LineIndex.ofText text) number =
      ((((Text.pieces text)[number]?.bind declared?).or
        ((lineAbove? text number).bind declared?)).map String.ofList) := by
  have hline : ∀ number, ((LineIndex.ofText text).lineSpan? number).bind (fun span =>
      declared? (Text.takeBytes (span.stop - span.start) (Text.dropBytes span.start text))) =
        (Text.pieces text)[number]?.bind declared? := by
    intro number
    rw [← LineIndex.lineText?_ofText, Option.bind_map]
    rfl
  cases number with
  | zero => simp only [moduleOf, hline, lineAbove?, Option.bind_none]
  | succ number => simp only [moduleOf, hline, lineAbove?]

/-- The names found on a line and on the one above it are those of the nearest declaration. -/
theorem isNearest_of_lines (line : List Char) (above : Option (List Char)) :
    IsNearest line above
      (((declared? line).or (above.bind declared?)).map String.ofList) := by
  constructor
  · intro name
    rw [Option.map_eq_some_iff]
    simp only [Option.or_eq_some_iff, Option.bind_eq_some_iff, declared?_eq_some_iff,
      declared?_eq_none_iff]
    constructor
    · rintro ⟨chars, ⟨d, hd, rfl⟩ | ⟨hnone, above, habove, d, hd, rfl⟩, rfl⟩
      · exact .inl ⟨d, hd, rfl⟩
      · exact .inr ⟨hnone, above, habove, d, hd, rfl⟩
    · rintro (⟨d, hd, rfl⟩ | ⟨hnone, above, habove, d, hd, rfl⟩)
      · exact ⟨d.name, .inl ⟨d, hd, rfl⟩, rfl⟩
      · exact ⟨d.name, .inr ⟨hnone, above, habove, d, hd, rfl⟩, rfl⟩
  · simp only [Option.map_eq_none_iff, Option.or_eq_none_iff, Option.bind_eq_none_iff,
      declared?_eq_none_iff]

/-- Of every region of a text, the module is the one whose declaration is nearest to the `%` of the
marker: the leftmost one on the line of the `%` or, if there is none, the leftmost one on the line
above. If both lines have none, the region has no module. -/
theorem moduleName_nearest (tags : List String) (text : String) :
    ∃ parts last, Scan (tags.map String.toList) text.toList parts last ∧
      (⟨.reScript, tags⟩ : Extractor).extract text =
        (TaggedPart.placed text.toList (LineIndex.ofString text) 0 parts).map (·.2) ∧
      ∀ q ∈ TaggedPart.placed text.toList (LineIndex.ofString text) 0 parts,
        ∃ before after line, text.toList = before ++ '%' :: after ∧
          q.1 = Text.byteLength before ∧
          (Text.pieces text.toList)[before.count '\n']? = some line ∧
          IsNearest line (lineAbove? text.toList (before.count '\n')) q.2.moduleName := by
  obtain ⟨parts, last, hscan, hregions⟩ := exists_scan (tags.map String.toList) text.toList
    (LineIndex.ofString text) 0 text.toList
  refine ⟨parts, last, hscan, hregions, fun q hq => ?_⟩
  obtain ⟨before, marker, after, htext, hmarker, hstart, -⟩ :=
    (hscan.tagged (List.nil_append text.toList).symm q hq).marked
  -- The marker starts with `%`, and the line of that character is a piece of the text.
  obtain ⟨tag, -, blanks, -, rfl⟩ := hmarker
  rw [List.append_assoc, List.cons_append] at htext
  obtain ⟨part, rest, hline, -⟩ := Text.exists_pieces_getElem? (show '%' ≠ '\n' by decide) before
    (tag ++ '(' :: (blanks ++ ['`']) ++ after)
  rw [← htext] at hline
  -- The table counts the same lines.
  have hnumber : ((LineIndex.ofString text).position q.1).line = before.count '\n' := by
    rw [hstart, LineIndex.ofString, htext, LineIndex.position_append, Position.line_past]
    exact Nat.zero_add _
  refine ⟨before, _, _, htext, hstart, hline, ?_⟩
  rw [moduleName_of_mem_placed hq, hnumber, LineIndex.ofString, moduleOf_ofText, hline,
    Option.bind_some]
  exact isNearest_of_lines _ _

/-- What only looks like a declaration hides nothing behind it, and the marker may go on over
several lines. -/
example :
    ((⟨.reScript, ["r"]⟩ : Extractor).extract
      "module module X = module Y = 1\nmodule type S = %r(\n\n`a`)").map (·.moduleName) =
      [some "X"] := by
  decide +kernel

end Extractor
end EmbeddedGraphQL
