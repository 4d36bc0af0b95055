import Mathlib.Data.List.Basic
import EmbeddedGraphQL.HoverText
import EmbeddedGraphQL.Proofs.Text.Runs

/-!
# The last block of a hover text

The pattern of a block takes as many word characters as it can for each of the three names, and the
underscore of `_graphql` is a word character itself. Yet a block can be read in one way only: a name
ends where a dot or a line feed stands, so that `_graphql` is the end of a whole segment. The search
goes on behind each block that it finds. It misses none by that, since a block has no backtick other
than the one it starts with, and so the last block that is found is the last one there is.

* `Word`, `HoverBlock`: the blocks of a hover text and the words in them.
* `HoverBlock.append_inj`: a block can be read in one way only.
* `HoverRecord.Scan`: what the search for blocks passes.
* `HoverRecord.Scan.last`: the last block that is found is the last one there is.
* `HoverRecord.find?_last`: which record a hover text names.
-/

namespace EmbeddedGraphQL

/-! ## Blocks -/

/-- Some word characters, one at least. -/
@[ext]
structure Word where
  /-- The characters. -/
  chars : List Char
  ne_nil : chars ≠ []
  isWord : ∀ c ∈ chars, Text.isWord c = true

/-- The names in a block of a hover text. -/
@[ext]
structure HoverBlock where
  /-- The module. -/
  scope : Word
  /-- The operation or fragment. -/
  definition : Word
  /-- The joined record path. -/
  record : Word

namespace HoverBlock

/-- The segment between the dots, which names the operation or fragment. -/
def segment (b : HoverBlock) : List Char := b.definition.chars ++ "_graphql".toList

/-- The text of a block behind its last backtick. -/
def body (b : HoverBlock) : List Char :=
  "rescript\n".toList ++ (b.scope.chars ++ '.' :: (b.segment ++ '.' :: ("Types.".toList ++
    (b.record.chars ++ ['\n']))))

/-- The text of a block, from its last backtick on. -/
def text (b : HoverBlock) : List Char := '`' :: b.body

/-- The record that a block names. -/
def named (b : HoverBlock) : HoverRecord :=
  ⟨String.ofList b.definition.chars, String.ofList b.record.chars⟩

/-- A hover text that is one block between fences of three backticks. -/
def fenced (b : HoverBlock) : String :=
  "```rescript\n" ++ String.ofList b.scope.chars ++ "." ++ String.ofList b.definition.chars ++
    "_graphql.Types." ++ String.ofList b.record.chars ++ "\n```"

/-- The text between definition and record, taken apart in front of its dot. -/
theorem toList_types :
    "_graphql.Types.".toList = "_graphql".toList ++ '.' :: "Types.".toList := by
  decide +kernel

/-- The parts of a block as the pattern has them, and what follows the block. -/
theorem text_append (b : HoverBlock) (rest : List Char) :
    b.text ++ rest = ['`'] ++ ("rescript\n".toList ++ (b.scope.chars ++ (".".toList ++
      (b.definition.chars ++ ("_graphql.Types.".toList ++ (b.record.chars ++
        ("\n".toList ++ rest))))))) := by
  unfold text body segment
  simp only [toList_types, List.append_assoc, List.cons_append, List.nil_append]
  rfl

/-- A block in its fence has backticks on both sides. -/
theorem toList_fenced (b : HoverBlock) :
    b.fenced.toList = ['`', '`'] ++ (b.text ++ ['`', '`', '`']) := by
  have hstart : "```rescript\n".toList = '`' :: '`' :: '`' :: "rescript\n".toList := by
    decide +kernel
  unfold fenced text body segment
  simp only [String.toList_append, String.toList_ofList, List.append_assoc, List.cons_append,
    List.nil_append, hstart, toList_types]
  rfl

/-- The segment of a block consists of word characters. -/
theorem isWord_segment (b : HoverBlock) : ∀ c ∈ b.segment, Text.isWord c = true := by
  intro c hc
  rcases List.mem_append.mp hc with hc | hc
  · exact b.definition.isWord c hc
  · have hsuffix : "_graphql".toList.all Text.isWord = true := by decide +kernel
    exact List.all_eq_true.mp hsuffix c hc

/-- The segment of a block has no dot. -/
theorem dot_not_mem_segment (b : HoverBlock) : '.' ∉ b.segment := fun h =>
  absurd (b.isWord_segment '.' h) (by decide)

/-- A block has no backtick behind the one that it starts with. -/
theorem tick_not_mem_body (b : HoverBlock) : '`' ∉ b.body := by
  have hword : ∀ word : List Char, (∀ c ∈ word, Text.isWord c = true) → '`' ∉ word :=
    fun word h hmem => absurd (h '`' hmem) (by decide)
  unfold body
  simp only [List.mem_append, List.mem_cons, List.not_mem_nil, not_or]
  exact ⟨by decide +kernel, hword _ b.scope.isWord, by decide,
    hword _ b.isWord_segment, by decide, by decide +kernel, hword _ b.record.isWord, by decide, id⟩

/-- A block can be read in one way only. -/
theorem append_inj {b b' : HoverBlock} {rest rest' : List Char}
    (h : b.text ++ rest = b'.text ++ rest') : b = b' ∧ rest = rest' := by
  have hdot : ∀ tail : List Char, ∀ c ∈ ('.' :: tail).head?, Text.isWord c = false := by
    rintro tail c ⟨⟩
    decide
  have hnewline : ∀ tail : List Char, ∀ c ∈ ('\n' :: tail).head?, Text.isWord c = false := by
    rintro tail c ⟨⟩
    decide
  unfold text body at h
  simp only [List.cons_append, List.append_assoc, List.cons.injEq, true_and,
    List.append_cancel_left_eq] at h
  -- Each name is a whole run of word characters, and the segment is one, too.
  obtain ⟨hscope, h⟩ :=
    Text.append_stop_inj b.scope.isWord (hdot _) b'.scope.isWord (hdot _) h
  obtain ⟨hsegment, h⟩ :=
    Text.append_stop_inj b.isWord_segment (hdot _) b'.isWord_segment (hdot _) (List.cons.inj h).2
  obtain ⟨hrecord, h⟩ := Text.append_stop_inj b.record.isWord (hnewline _) b'.record.isWord
    (hnewline _) (List.append_cancel_left (List.cons.inj h).2)
  have hdefinition : b.definition.chars = b'.definition.chars := List.append_cancel_right hsegment
  exact ⟨HoverBlock.ext (Word.ext hscope) (Word.ext hdefinition) (Word.ext hrecord),
    (List.cons.inj h).2⟩

end HoverBlock

namespace HoverRecord

/-! ## The pattern of a block -/

section Pattern

variable {α : Type} {p : Char → Bool} {behind : List Char → Option α} {text : List Char} {found : α}

/-- What the pattern gives behind a run it gives behind a run of such characters. -/
theorem exists_of_greedy? {run : List Char} (h : greedy? p behind text = some (run, found)) :
    ∃ rest, text = run ++ rest ∧ run ≠ [] ∧ (∀ c ∈ run, p c = true) ∧
      behind rest = some found := by
  induction text generalizing run with
  | nil => cases h
  | cons c text ih =>
    rw [greedy?] at h
    split at h
    · rename_i hc
      rcases Option.or_eq_some_iff.mp h with hlonger | ⟨-, hone⟩
      · obtain ⟨⟨run, found⟩, hgreedy, heq⟩ := Option.map_eq_some_iff.mp hlonger
        cases heq
        obtain ⟨rest, rfl, -, hrun, hbehind⟩ := ih hgreedy
        exact ⟨rest, rfl, List.cons_ne_nil c run, List.forall_mem_cons.mpr ⟨hc, hrun⟩, hbehind⟩
      · obtain ⟨found, hbehind, heq⟩ := Option.map_eq_some_iff.mp hone
        cases heq
        exact ⟨text, rfl, List.cons_ne_nil c [], by simpa using hc, hbehind⟩
    · cases h

/-- Where the rest of the pattern matches behind some run, it matches behind the longest one. -/
theorem isSome_greedy? {run rest : List Char} (hne : run ≠ []) (hrun : ∀ c ∈ run, p c = true)
    (hbehind : (behind rest).isSome = true) :
    (greedy? p behind (run ++ rest)).isSome = true := by
  induction run with
  | nil => exact absurd rfl hne
  | cons c run ih =>
    obtain ⟨hc, hrun⟩ := List.forall_mem_cons.mp hrun
    rw [List.cons_append, greedy?, if_pos hc, Option.isSome_or, Option.isSome_map,
      Option.isSome_map, Bool.or_eq_true]
    by_cases hnil : run = []
    · subst hnil
      exact .inr hbehind
    · exact .inl (ih hnil hrun)

/-- A word is matched exactly where it stands, and the rest of the pattern behind it. -/
theorem literal?_eq_some_iff {word : List Char} :
    literal? word behind text = some found ↔
      ∃ rest, text = word ++ rest ∧ behind rest = some found := by
  simp only [literal?, Option.bind_eq_some_iff, List.isPrefixOf?_eq_some_iff_append_eq, eq_comm]

/-- A word is matched where it stands, if the rest of the pattern is. -/
theorem isSome_literal? {word rest : List Char} (h : (behind rest).isSome = true) :
    (literal? word behind (word ++ rest)).isSome = true := by
  rw [literal?, List.isPrefixOf?_eq_some_iff_append_eq.mpr rfl]
  exact h

end Pattern

variable {text rest : List Char} {record : HoverRecord}

/-- What is found at the start of a text is a block, with backticks in front perhaps. -/
theorem exists_of_here? (h : here? text = some (record, rest)) :
    ∃ ticks block, text = ticks ++ (HoverBlock.text block ++ rest) ∧ (∀ c ∈ ticks, c = '`') ∧
      block.named = record := by
  obtain ⟨⟨ticks, scope, definition, path, rest⟩, h, heq⟩ := Option.map_eq_some_iff.mp h
  cases heq
  obtain ⟨_, rfl, hsome, hticks, hfence⟩ := exists_of_greedy? h
  obtain ⟨_, rfl, hafterFence⟩ := literal?_eq_some_iff.mp hfence
  obtain ⟨_, rfl, hscope, hscopeWord, hdot⟩ := exists_of_greedy? hafterFence
  obtain ⟨_, rfl, hafterDot⟩ := literal?_eq_some_iff.mp hdot
  obtain ⟨_, rfl, hdefinition, hdefinitionWord, htypes⟩ := exists_of_greedy? hafterDot
  obtain ⟨_, rfl, hafterTypes⟩ := literal?_eq_some_iff.mp htypes
  obtain ⟨_, rfl, hpath, hpathWord, hend⟩ := exists_of_greedy? hafterTypes
  obtain ⟨_, rfl, hrest⟩ := literal?_eq_some_iff.mp hend
  obtain rfl := Option.some.inj hrest
  -- The block starts with the last one of the backticks.
  rcases List.eq_nil_or_concat ticks with rfl | ⟨front, tick, rfl⟩
  · exact absurd rfl hsome
  · rw [List.concat_eq_append] at hticks ⊢
    obtain rfl : tick = '`' := by simpa using hticks tick (by simp)
    refine ⟨front, ⟨⟨scope, hscope, hscopeWord⟩, ⟨definition, hdefinition, hdefinitionWord⟩,
      ⟨path, hpath, hpathWord⟩⟩, ?_, ?_, rfl⟩
    · rw [HoverBlock.text_append, List.append_assoc]
    · intro c hc
      simpa using hticks c (List.mem_append_left _ hc)

/-- Something is found where a block starts. -/
theorem isSome_here? (block : HoverBlock) (rest : List Char) :
    (here? (block.text ++ rest)).isSome = true := by
  rw [HoverBlock.text_append, here?, Option.isSome_map]
  -- The rest of the pattern matches behind each of the parts, one after the other.
  apply isSome_greedy? (List.cons_ne_nil '`' []) (by simp)
  apply isSome_literal?
  apply isSome_greedy? block.scope.ne_nil block.scope.isWord
  apply isSome_literal?
  apply isSome_greedy? block.definition.ne_nil block.definition.isWord
  apply isSome_literal?
  apply isSome_greedy? block.record.ne_nil block.record.isWord
  exact isSome_literal? rfl

/-! ## The search -/

/-- What the search for blocks passes, with the records of the blocks. -/
inductive Scan : List Char → List HoverRecord → Prop where
  /-- The end of the text. -/
  | nil : Scan [] []
  /-- A character where no block starts. -/
  | skip {c : Char} {text : List Char} {records : List HoverRecord}
      (hnone : ∀ block, ¬ HoverBlock.text block <+: c :: text) (h : Scan text records) :
      Scan (c :: text) records
  /-- A block with backticks in front. -/
  | block {ticks : List Char} (hticks : ∀ c ∈ ticks, c = '`') (block : HoverBlock)
      {rest : List Char} {records : List HoverRecord} (h : Scan rest records) :
      Scan (ticks ++ (block.text ++ rest)) (block.named :: records)

/-- Characters are skipped up to the end of a block. -/
theorem recordsFrom_append (skipped rest : List Char) :
    recordsFrom skipped.length (skipped ++ rest) = recordsFrom 0 rest := by
  induction skipped with
  | nil => rfl
  | cons c skipped ih => exact ih

/-- The records that the search gives are those of the blocks it passes. -/
theorem scan_recordsFrom (text : List Char) : Scan text (recordsFrom 0 text) := by
  match text with
  | [] => exact .nil
  | c :: tail =>
    rw [recordsFrom]
    split
    · rename_i record rest hhere
      obtain ⟨ticks, block, htext, hticks, rfl⟩ := exists_of_here? hhere
      -- The block takes at least one character, so that the search goes on in the rest of the text.
      have hlength : rest.length < (c :: tail).length := by
        simp only [htext, HoverBlock.text, List.length_append, List.length_cons]
        omega
      obtain ⟨skipped, rfl⟩ : rest <:+ tail := by
        have hsuffix : rest <:+ c :: tail := ⟨ticks ++ block.text, by rw [htext]; simp⟩
        rcases List.suffix_cons_iff.mp hsuffix with rfl | h
        · exact absurd hlength (Nat.lt_irrefl _)
        · exact h
      rw [List.length_append, Nat.add_sub_cancel, recordsFrom_append, htext]
      exact .block hticks block (scan_recordsFrom rest)
    · rename_i hhere
      refine .skip ?_ (scan_recordsFrom tail)
      rintro block ⟨rest, htext⟩
      have hsome := isSome_here? block rest
      rw [htext, hhere] at hsome
      cases hsome
termination_by text.length

/-- Whether a block stands behind a part of a text, and no block starts further on. -/
def IsLast (text before : List Char) (block : HoverBlock) : Prop :=
  before ++ block.text <+: text ∧
    ∀ before' block', before' ++ HoverBlock.text block' <+: text → before'.length ≤ before.length

/-- There is no more than one last block. -/
theorem IsLast.unique {before before' : List Char} {block block' : HoverBlock}
    (h : IsLast text before block) (h' : IsLast text before' block') : block = block' := by
  have hlength : before.length = before'.length :=
    Nat.le_antisymm (h'.2 before block h.1) (h.2 before' block' h'.1)
  obtain ⟨rest, htext⟩ := h.1
  obtain ⟨rest', htext'⟩ := h'.1
  rw [← htext', List.append_assoc, List.append_assoc] at htext
  obtain ⟨-, hblocks⟩ := List.append_inj htext hlength
  exact (HoverBlock.append_inj hblocks).1

/-- A block starts no further on than another one, or else behind it. -/
theorem le_or_exists_of_prefix {ticks before : List Char} {block block' : HoverBlock}
    (h : before ++ block'.text <+: ticks ++ (block.text ++ rest)) :
    before.length ≤ ticks.length ∨
      ∃ behind, before = ticks ++ (block.text ++ behind) ∧ behind ++ block'.text <+: rest := by
  obtain ⟨after, h⟩ := h
  rw [← List.append_assoc ticks, List.append_assoc before] at h
  rcases List.append_eq_append_iff.mp h with ⟨mid, hbefore, hmid⟩ | ⟨behind, rfl, hrest⟩
  · rcases List.append_eq_append_iff.mp hbefore with ⟨inner, rfl, hinner⟩ | ⟨front, rfl, -⟩
    · -- The other block starts with a backtick, which can only be the first one of `block`.
      cases inner with
      | nil => exact .inl (Nat.le_of_eq (congrArg List.length (List.append_nil ticks)))
      | cons c inner =>
        obtain ⟨rfl, hbody⟩ := List.cons.inj hinner
        cases mid with
        | nil =>
          have hinner : block.text = '`' :: inner := by rw [hinner, List.append_nil]
          exact .inr ⟨[], by rw [hinner, List.append_nil], after, hmid⟩
        | cons d mid =>
          obtain ⟨rfl, -⟩ := List.cons.inj hmid
          have htick : '`' ∈ block.body := by
            rw [hbody]
            exact List.mem_append_right inner List.mem_cons_self
          exact absurd htick block.tick_not_mem_body
    · left
      rw [List.length_append]
      exact Nat.le_add_right _ _
  · exact .inr ⟨behind, List.append_assoc _ _ _, after, by rw [hrest, List.append_assoc]⟩

/-- Where no block starts at a character, every block stands behind it. -/
theorem exists_of_prefix_cons {c : Char} (hnone : ∀ block, ¬ HoverBlock.text block <+: c :: text)
    {before : List Char} {block : HoverBlock} (h : before ++ block.text <+: c :: text) :
    ∃ tail, before = c :: tail ∧ tail ++ block.text <+: text := by
  cases before with
  | nil => exact absurd h (hnone block)
  | cons d tail =>
    obtain ⟨rfl, htail⟩ := List.cons_prefix_cons.mp h
    exact ⟨tail, rfl, htail⟩

/-- A last block is still the last one behind a character at which no block starts. -/
theorem IsLast.cons {c : Char} (hnone : ∀ block, ¬ HoverBlock.text block <+: c :: text)
    {before : List Char} {block : HoverBlock} (h : IsLast text before block) :
    IsLast (c :: text) (c :: before) block := by
  refine ⟨List.cons_prefix_cons.mpr ⟨rfl, h.1⟩, fun before' block' hprefix => ?_⟩
  obtain ⟨tail, rfl, htail⟩ := exists_of_prefix_cons hnone hprefix
  exact Nat.succ_le_succ (h.2 tail block' htail)

/-- A last block is still the last one behind another block. -/
theorem IsLast.append (ticks : List Char) (block : HoverBlock) {before : List Char}
    {last : HoverBlock} (h : IsLast rest before last) :
    IsLast (ticks ++ (block.text ++ rest)) (ticks ++ (block.text ++ before)) last := by
  refine ⟨?_, fun before' block' hprefix => ?_⟩
  · simpa only [List.append_assoc, List.prefix_append_right_inj] using h.1
  · rcases le_or_exists_of_prefix hprefix with hle | ⟨behind, rfl, hbehind⟩
    · rw [List.length_append]
      exact Nat.le_trans hle (Nat.le_add_right _ _)
    · have hle := h.2 behind block' hbehind
      simpa only [List.length_append, Nat.add_le_add_iff_left] using hle

/-- The last record that the search gives is that of the last block there is. -/
theorem Scan.last {records : List HoverRecord} (h : Scan text records) :
    (records.getLast? = none ∧ ∀ before block, ¬ before ++ HoverBlock.text block <+: text) ∨
      ∃ before block, records.getLast? = some block.named ∧ IsLast text before block := by
  -- By induction over the search: a block of the rest is further on than all that was passed.
  induction h with
  | nil =>
    refine .inl ⟨rfl, fun before block hprefix => ?_⟩
    have hnil := List.prefix_nil.mp hprefix
    exact absurd (List.append_eq_nil_iff.mp hnil).2 (List.cons_ne_nil _ _)
  | @skip c text records hnone _ ih =>
    rcases ih with ⟨hrecords, hno⟩ | ⟨before, block, hrecord, hlast⟩
    · refine .inl ⟨hrecords, fun before block hprefix => ?_⟩
      obtain ⟨tail, -, htail⟩ := exists_of_prefix_cons hnone hprefix
      exact hno tail block htail
    · exact .inr ⟨c :: before, block, hrecord, hlast.cons hnone⟩
  | @block ticks _ block rest records _ ih =>
    right
    rcases ih with ⟨hrecords, hno⟩ | ⟨before, last, hrecord, hlast⟩
    · -- Nothing is named further on, so that this block is the last one.
      obtain rfl := List.getLast?_eq_none_iff.mp hrecords
      refine ⟨ticks, block, rfl, ⟨rest, List.append_assoc _ _ _⟩, fun before' block' hprefix => ?_⟩
      rcases le_or_exists_of_prefix hprefix with hle | ⟨behind, -, hbehind⟩
      · exact hle
      · exact absurd hbehind (hno behind block')
    · refine ⟨ticks ++ (block.text ++ before), last, ?_, hlast.append ticks block⟩
      rw [List.getLast?_cons, hrecord]
      rfl

/-- A text names the record of its last block, and no record if it has no block. -/
theorem find?_eq_some_iff {text : String} :
    find? text = some record ↔
      ∃ before block, IsLast text.toList before block ∧ block.named = record := by
  rcases (scan_recordsFrom text.toList).last with ⟨hnone, hno⟩ | ⟨before, block, hsome, hlast⟩
  · rw [find?, hnone]
    refine iff_of_false (Option.some_ne_none record).symm ?_
    rintro ⟨before, block, hlast, -⟩
    exact hno before block hlast.1
  · rw [find?, hsome, Option.some.injEq]
    constructor
    · rintro rfl
      exact ⟨before, block, hlast, rfl⟩
    · rintro ⟨before', block', hlast', rfl⟩
      rw [hlast.unique hlast']

/-- The block of a fenced text is its last one. -/
theorem isLast_fenced (block : HoverBlock) : IsLast block.fenced.toList ['`', '`'] block := by
  rw [HoverBlock.toList_fenced]
  refine ⟨⟨['`', '`', '`'], List.append_assoc _ _ _⟩, fun before' block' hprefix => ?_⟩
  rcases le_or_exists_of_prefix hprefix with hle | ⟨behind, -, hbehind⟩
  · exact hle
  · -- No block fits into the closing fence.
    obtain ⟨c, rest, hchars⟩ := List.exists_cons_of_ne_nil block'.scope.ne_nil
    have hmem : '\n' ∈ behind ++ block'.text := by
      unfold HoverBlock.text HoverBlock.body
      simp
    exact absurd (hbehind.subset hmem) (by decide)

/-- Which record a hover text names. The record is that of a block behind which no other block
starts, and there is none only if the text has no block. A block names as definition all that stands
in its segment, which has no dot in it, before the last `_graphql`. The fenced text of a block names
its record. -/
theorem find?_last (text : String) :
    (∀ record, find? text = some record ↔
      ∃ before block, IsLast text.toList before block ∧ block.named = record) ∧
    (find? text = none ↔ ∀ before block, ¬ before ++ HoverBlock.text block <+: text.toList) ∧
    (∀ block : HoverBlock, '.' ∉ block.segment ∧
      block.segment = block.named.definition.toList ++ "_graphql".toList ∧
      ∀ before after, block.segment = before ++ "_graphql".toList ++ after →
        before.length ≤ block.named.definition.toList.length) ∧
    ∀ block : HoverBlock, find? block.fenced = some block.named := by
  refine ⟨fun record => find?_eq_some_iff, ?_, fun block => ?_, fun block => ?_⟩
  · -- The scan has found a last block, or there is none at all.
    rcases (scan_recordsFrom text.toList).last with ⟨hnone, hno⟩ | ⟨before, block, hsome, hlast⟩
    · exact iff_of_true hnone hno
    · rw [find?, hsome]
      exact iff_of_false (Option.some_ne_none _) fun hno => hno before block hlast.1
  · have hdefinition : block.named.definition.toList = block.definition.chars :=
      String.toList_ofList
    rw [hdefinition]
    refine ⟨block.dot_not_mem_segment, rfl, fun before after hsplit => ?_⟩
    -- A suffix that stands further back would make the segment longer than it is.
    have hlength := congrArg List.length hsplit
    simp only [HoverBlock.segment, List.length_append] at hlength
    omega
  · exact find?_eq_some_iff.mpr ⟨_, block, isLast_fenced block, rfl⟩

/-- The definition takes all but the last `_graphql` of its segment, and the last block counts. -/
example : find? ("```rescript\nApp.A_graphql.Types.a\n```" ++
      "```rescript\nApp.B_graphql_graphql.Types.b\n```") = some ⟨"B_graphql", "b"⟩ := by
  decide +kernel

end HoverRecord
end EmbeddedGraphQL
