import EmbeddedGraphQL.Proofs.Text.Cuts
import EmbeddedGraphQL.Proofs.Region.Declared

/-!
# Extraction that checks its offsets

Extraction goes through a text by byte offsets: a cursor stands behind the regions found so far, the
closing backtick is searched for by an index into the bytes of the whole text, and contents and
lines are cut out between two offsets. The index loses step with the characters behind a backslash,
since a character that is escaped may have more than one byte. Here is extraction with all of this
checked: it fails where a cut is not between two characters, where a difference is negative, and
where the cursor does not move on. It never does.

* `closingFrom?`: the search for the closing backtick by an index.
* `closingFrom?_utf8`: from a place between two characters it finds what is found by characters.
* `Extractor.Checked.extract`: extraction with checks.
* `Extractor.closing_checked`: no check fails, and the regions are those of extraction without them.
-/

namespace EmbeddedGraphQL

/-! ## The search by an index -/

/-- The first index from `index` on at which there is a backtick that no backslash escapes. Behind a
backslash the next byte is left out, be it the first one of several that make up a character. -/
def closingFrom? (bytes : List UInt8) (index : Nat) : Option Nat :=
  if _h : index < bytes.length then
    if bytes[index] = 0x5C then closingFrom? bytes (index + 2)
    else if bytes[index] = 0x60 then some index
    else closingFrom? bytes (index + 1)
  else none
termination_by bytes.length - index

/-- Behind a backslash a byte is left out, if there is one. -/
theorem closing?_backslash (bytes : List UInt8) :
    closing? (0x5C :: bytes) = (closing? (bytes.drop 1)).map (· + 2) := by
  cases bytes with
  | nil => rfl
  | cons b bytes => rfl

/-- The search by an index looks at the bytes from the index on. -/
theorem closingFrom?_eq (bytes : List UInt8) (index : Nat) :
    closingFrom? bytes index = (closing? (bytes.drop index)).map (index + ·) := by
  -- Where the search goes on at an index, the other one goes on in what is left there.
  fun_induction closingFrom? bytes index with
  | case1 index h hslash ih =>
    rw [ih, List.drop_eq_getElem_cons h, hslash, closing?_backslash, List.drop_drop, Option.map_map]
    congr 1
    funext length
    simp only [Function.comp_apply]
    omega
  | case2 index h hslash htick =>
    rw [List.drop_eq_getElem_cons h, htick]
    rfl
  | case3 index h hslash htick ih =>
    have hplain : ∀ b ∈ [bytes[index]], IsPlainByte b :=
      List.forall_mem_singleton.mpr ⟨hslash, htick⟩
    rw [ih, List.drop_eq_getElem_cons h, ← List.singleton_append, closing?_append hplain,
      Option.map_map]
    congr 1
    funext length
    simp only [Function.comp_apply, List.length_singleton]
    omega
  | case4 index h =>
    rw [List.drop_eq_nil_of_le (Nat.le_of_not_lt h)]
    rfl

/-- From a place between two characters the search by an index finds the backtick that is found by
reading characters. -/
theorem closingFrom?_utf8 (before after : List Char) :
    closingFrom? (Text.utf8 (before ++ after)) (Text.byteLength before) =
      (close? after).map fun parts => Text.byteLength before + Text.byteLength parts.1 := by
  rw [closingFrom?_eq, Text.utf8_append, List.drop_left' (Text.length_utf8 before), closing?_utf8,
    Option.map_map]
  rfl

/-- Before and behind the backtick that is found stand whole characters. -/
theorem isBoundary_of_closingFrom? {text : List Char} {start stop : Nat}
    (hstart : Text.IsBoundary text start) (h : closingFrom? (Text.utf8 text) start = some stop) :
    start ≤ stop ∧ Text.IsBoundary text stop ∧ Text.IsBoundary text (stop + 1) := by
  obtain ⟨before, rest, rfl, rfl⟩ := hstart
  rw [closingFrom?_utf8, Option.map_eq_some_iff] at h
  obtain ⟨⟨content, after⟩, hclose, rfl⟩ := h
  obtain ⟨-, rfl⟩ := close?_eq_some_iff.mp hclose
  refine ⟨Nat.le_add_right _ _, ⟨before ++ content, '`' :: after, by simp, by simp⟩,
    ⟨before ++ content ++ ['`'], after, by simp, ?_⟩⟩
  rw [Text.byteLength_append, Text.byteLength_append]
  rfl

/-- On its way to the backtick the index comes to places inside of characters. -/
example : Text.cut? 2 ['\\', '𝄞', '`'] = none ∧
    closingFrom? (Text.utf8 ['\\', '𝄞', '`']) 0 = closingFrom? (Text.utf8 ['\\', '𝄞', '`']) 2 := by
  refine ⟨by decide, ?_⟩
  rw [closingFrom?_eq, closingFrom?_eq]
  decide

namespace Extractor
namespace Checked

/-! ## Extraction -/

/-- The name declared on a line; none if the index does not have the line. It fails if the line
cannot be cut out. -/
def declaredOn (text : List Char) (index : LineIndex) (line : Nat) :
    Option (Option (List Char)) :=
  match index.lineSpan? line with
  | none => some none
  | some span => (Text.slice? span.start span.stop text).map ModuleName.declared?

/-- The name of the module declared on a line or, failing that, on the line before. It fails if one
of the lines that are looked at cannot be cut out. -/
def moduleOf (text : List Char) (index : LineIndex) (line : Nat) : Option (Option String) := do
  match ← declaredOn text index line, line with
  | some name, _ => return some (String.ofList name)
  | none, 0 => return none
  | none, line + 1 =>
    let before ← declaredOn text index line
    return before.map String.ofList

/-- The regions of a text from a cursor on. It fails if the cursor does not lie between two
characters, if the content of a region or a line cannot be cut out, or if the cursor does not move
on. -/
def regionsFrom (tags : List (List Char)) (text : List Char) (index : LineIndex) (cursor : Nat) :
    Option (List Region) :=
  match _hcut : Text.cut? cursor text with
  | none => none
  | some (_, rest) =>
    match Opening.find? tags cursor rest with
    | none => some []
    | some opening =>
      match closingFrom? (Text.utf8 text) opening.stop with
      | none => some []
      | some stop =>
        if _hnext : cursor < stop + 1 then do
          let content ← Text.slice? opening.stop stop text
          let moduleName ← moduleOf text index (index.position opening.start).line
          let length ← stop.psub opening.stop
          let later ← regionsFrom tags text index (stop + 1)
          return { content := String.ofList content
                   moduleName := moduleName
                   offset := opening.stop
                   length := length
                   range := index.range ⟨opening.stop, stop⟩ } :: later
        else none
termination_by Text.byteLength text + 1 - cursor
decreasing_by
  obtain ⟨htext, hcursor⟩ := Text.of_cut?_eq_some _hcut
  have hsize := congrArg Text.byteLength htext
  rw [Text.byteLength_append] at hsize
  omega

/-- The regions of a text, with checks. -/
def extract (e : Extractor) (text : String) : Option (List Region) :=
  if e.language.isEmbedded then
    regionsFrom (e.tags.map String.toList) text.toList (LineIndex.ofString text) 0
  else some [wholeText text]

/-! ## No check fails -/

/-- The lines of a text can be cut out. -/
theorem declaredOn_ofText (text : List Char) (number : Nat) :
    declaredOn text (LineIndex.ofText text) number =
      some ((Text.pieces text)[number]?.bind ModuleName.declared?) := by
  cases hpiece : (Text.pieces text)[number]? with
  | none =>
    rw [declaredOn, LineIndex.lineSpan?_eq_none hpiece]
    rfl
  | some piece =>
    obtain ⟨before, after, htext, hspan⟩ := LineIndex.exists_lineSpan?_of_piece hpiece
    rw [declaredOn, hspan]
    simp only
    rw [htext, Text.slice?_append]
    rfl

/-- The module of a line is looked for in cuts that succeed. -/
theorem moduleOf_ofText (text : List Char) (number : Nat) :
    moduleOf text (LineIndex.ofText text) number =
      some (Extractor.moduleOf text (LineIndex.ofText text) number) := by
  rw [Extractor.moduleOf_ofText, moduleOf, declaredOn_ofText]
  cases (Text.pieces text)[number]?.bind ModuleName.declared? with
  | some name => rfl
  | none =>
    cases number with
    | zero => rfl
    | succ number =>
      simp only [Option.bind_eq_bind, Option.bind_some, declaredOn_ofText, Option.none_or]
      rfl

section Step

variable {tags : List (List Char)} {text before rest : List Char} {o : Opening}

/-- Behind a marker there is a place between two characters, no further left than the cursor. -/
theorem exists_opened_of_find? (htext : text = before ++ rest)
    (h : Opening.find? tags (Text.byteLength before) rest = some o) :
    ∃ opened, text = opened ++ o.rest ∧ o.stop = Text.byteLength opened ∧
      Text.byteLength before ≤ o.stop := by
  obtain ⟨gap, marker, hrest, -, -, -, hstop⟩ := Opening.exists_of_find? h
  refine ⟨before ++ gap ++ marker, by rw [htext, hrest]; simp, ?_, by omega⟩
  rw [hstop, Text.byteLength_append, Text.byteLength_append]

/-- From behind a marker, the index finds the backtick that closes the text behind the marker. -/
theorem closingFrom?_of_find? (htext : text = before ++ rest)
    (h : Opening.find? tags (Text.byteLength before) rest = some o) :
    closingFrom? (Text.utf8 text) o.stop =
      (close? o.rest).map fun parts => o.stop + Text.byteLength parts.1 := by
  obtain ⟨opened, hopened, hstop, -⟩ := exists_opened_of_find? htext h
  rw [hopened, hstop, closingFrom?_utf8]

/-- From a cursor between two characters on, there may be nothing that opens and closes. -/
theorem regionsFrom_eq_nil (htext : text = before ++ rest)
    (h : ∀ o, Opening.find? tags (Text.byteLength before) rest = some o → close? o.rest = none)
    (index : LineIndex) : regionsFrom tags text index (Text.byteLength before) = some [] := by
  have hcut : Text.cut? (Text.byteLength before) text = some (before, rest) := by
    rw [htext, Text.cut?_append]
  rw [regionsFrom]
  split
  · rename_i hnone
    cases hcut.symm.trans hnone
  · rename_i before' rest' hsome
    obtain ⟨rfl, rfl⟩ := Prod.mk.inj (Option.some.inj (hcut.symm.trans hsome))
    cases hfind : Opening.find? tags (Text.byteLength before) rest with
    | none => rfl
    | some o =>
      have hclosing := closingFrom?_of_find? htext hfind
      rw [h o hfind, Option.map_none] at hclosing
      simp only [hclosing]

/-- From a cursor between two characters on, the first region passes all checks. -/
theorem regionsFrom_cons {content after : List Char} (htext : text = before ++ rest)
    (hfind : Opening.find? tags (Text.byteLength before) rest = some o)
    (hclose : close? o.rest = some (content, after)) :
    regionsFrom tags text (LineIndex.ofText text) (Text.byteLength before) =
      (regionsFrom tags text (LineIndex.ofText text)
        (o.stop + Text.byteLength content + 1)).map fun later =>
          { content := String.ofList content
            moduleName := Extractor.moduleOf text (LineIndex.ofText text)
              ((LineIndex.ofText text).position o.start).line
            offset := o.stop
            length := Text.byteLength content
            range := (LineIndex.ofText text).range
              ⟨o.stop, o.stop + Text.byteLength content⟩ } :: later := by
  have hcut : Text.cut? (Text.byteLength before) text = some (before, rest) := by
    rw [htext, Text.cut?_append]
  obtain ⟨opened, hopened, hstop, hle⟩ := exists_opened_of_find? htext hfind
  obtain ⟨-, hclosed⟩ := close?_eq_some_iff.mp hclose
  have hclosing := closingFrom?_of_find? htext hfind
  rw [hclose, Option.map_some] at hclosing
  -- The content stands between the opened text and the backtick, which are whole characters.
  have hslice : Text.slice? o.stop (o.stop + Text.byteLength content) text = some content := by
    rw [hstop, hopened, hclosed, ← List.append_assoc, Text.slice?_append]
  have hmoves : Text.byteLength before < o.stop + Text.byteLength content + 1 := by
    omega
  rw [regionsFrom]
  split
  · rename_i hnone
    cases hcut.symm.trans hnone
  · rename_i before' rest' hsome
    obtain ⟨rfl, rfl⟩ := Prod.mk.inj (Option.some.inj (hcut.symm.trans hsome))
    simp only [hfind, hclosing, dif_pos hmoves, hslice, moduleOf_ofText,
      Nat.psub_eq_sub (Nat.le_add_right _ _), Nat.add_sub_cancel_left, Option.bind_eq_bind,
      Option.bind_some]
    cases regionsFrom tags text (LineIndex.ofText text)
      (o.stop + Text.byteLength content + 1) <;> rfl

end Step

/-- From a cursor between two characters on, the regions are found and no check fails. -/
theorem regionsFrom_ofText (tags : List (List Char)) {text before rest : List Char}
    (htext : text = before ++ rest) :
    regionsFrom tags text (LineIndex.ofText text) (Text.byteLength before) =
      some (Extractor.regionsFrom tags text (LineIndex.ofText text) (Text.byteLength before)
        rest) := by
  -- By induction over the text behind the cursor: the next cursor stands behind the backtick that
  -- closes the first region, which is a place between two characters again.
  induction hlength : rest.length using Nat.strong_induction_on generalizing before rest with
  | _ length ih =>
    subst hlength
    by_cases hnone : ∀ o, Opening.find? tags (Text.byteLength before) rest = some o →
        close? o.rest = none
    · rw [regionsFrom_eq_nil htext hnone, Extractor.regionsFrom_eq_nil hnone]
    · simp only [not_forall] at hnone
      obtain ⟨o, hfind, hsome⟩ := hnone
      obtain ⟨⟨content, after⟩, hclose⟩ := Option.ne_none_iff_exists'.mp hsome
      obtain ⟨opened, hopened, hstop, -⟩ := exists_opened_of_find? htext hfind
      obtain ⟨-, hclosed⟩ := close?_eq_some_iff.mp hclose
      have hshorter : after.length < rest.length := by
        have hrest := Opening.length_of_find? hfind
        rw [hclosed, List.length_append, List.length_cons] at hrest
        omega
      have hbehind : text = (opened ++ content ++ ['`']) ++ after := by
        rw [hopened, hclosed]
        simp
      have hcursor : Text.byteLength (opened ++ content ++ ['`']) =
          o.stop + Text.byteLength content + 1 := by
        rw [Text.byteLength_append, Text.byteLength_append, ← hstop]
        rfl
      have hlater := ih _ hshorter hbehind rfl
      rw [hcursor] at hlater
      rw [regionsFrom_cons htext hfind hclose, Extractor.regionsFrom_cons hfind hclose, hlater,
        Option.map_some]

end Checked

/-- The search for the closing backtick goes by bytes and yet finds what reading characters finds:
from every place between two characters, the first backtick that no backslash in front of it
escapes, and nothing if there is none. Before and behind it stand whole characters, so that no cut
of an extraction fails, and the cursor moves on with every region. -/
theorem closing_checked (e : Extractor) (text : String) :
    (∀ before after, text.toList = before ++ after →
      closingFrom? (Text.utf8 text.toList) (Text.byteLength before) =
        (close? after).map fun parts => Text.byteLength before + Text.byteLength parts.1) ∧
    (∀ start stop, Text.IsBoundary text.toList start →
      closingFrom? (Text.utf8 text.toList) start = some stop →
      start ≤ stop ∧ Text.IsBoundary text.toList stop ∧ Text.IsBoundary text.toList (stop + 1)) ∧
    Checked.extract e text = some (e.extract text) := by
  refine ⟨fun before after htext => ?_, fun start stop => isBoundary_of_closingFrom?, ?_⟩
  · rw [htext, closingFrom?_utf8]
  · rw [Checked.extract, extract]
    split
    · exact Checked.regionsFrom_ofText _ (List.nil_append text.toList).symm
    · rfl

end Extractor
end EmbeddedGraphQL
