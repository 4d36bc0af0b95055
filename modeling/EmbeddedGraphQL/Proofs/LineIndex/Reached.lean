import EmbeddedGraphQL.LineIndex

/-!
# Positions reached by reading

Reading a text from left to right leads from position to position: a line feed leads to the start
of the next line, any other character leads as many columns on as it has UTF-16 code units. The
index of a text knows none of this. It keeps the offsets of lines and the surplus of wide
characters, and yet it gives for every offset between two characters the position that a reader of
the text before it has reached.

* `Position.advance`, `Position.past`: the position after a character and after a text.
* `Position.Before`: the order of positions; reading leads on in it.
* `Text.IsBoundary`: the offsets between two characters.
* `LineIndex.exists_lines`: which of the indexed lines an offset lies on.
* `LineIndex.line_mono`: lines go up with offsets.
* `LineIndex.position_append`: the position of an offset is the one reached by reading.
* `LineIndex.position_before_iff`: positions come in the order of their offsets.
-/

namespace EmbeddedGraphQL

/-! ## Reading -/

namespace Position

/-- The position after a character. -/
def advance (p : Position) (c : Char) : Position :=
  if c = '\n' then ⟨p.line + 1, 0⟩ else ⟨p.line, p.character + Text.utf16Size c⟩

/-- The position after a text. -/
def past (p : Position) (text : List Char) : Position := text.foldl advance p

@[simp] theorem past_nil (p : Position) : p.past [] = p := rfl

@[simp] theorem past_cons (p : Position) (c : Char) (text : List Char) :
    p.past (c :: text) = (p.advance c).past text := rfl

/-- A position goes past joined texts one after the other. -/
theorem past_append (p : Position) (s t : List Char) : p.past (s ++ t) = (p.past s).past t :=
  List.foldl_append

/-- Whether a position comes before another one: on an earlier line, or further to the left on the
same line. -/
def Before (p q : Position) : Prop :=
  p.line < q.line ∨ p.line = q.line ∧ p.character < q.character

/-- Whether one position comes before another one can be decided. -/
instance (p q : Position) : Decidable (p.Before q) :=
  inferInstanceAs (Decidable (_ ∨ _ ∧ _))

/-- No position is before itself. -/
theorem not_before_self (p : Position) : ¬ p.Before p := by
  unfold Before
  omega

/-- Being before is transitive. -/
theorem Before.trans {p q r : Position} (hpq : p.Before q) (hqr : q.Before r) : p.Before r := by
  unfold Before at *
  omega

/-- A character leads on. -/
theorem before_advance (p : Position) (c : Char) : p.Before (p.advance c) := by
  have hsize : 0 < Text.utf16Size c := by
    unfold Text.utf16Size
    split <;> decide
  unfold advance Before
  split
  · exact Or.inl (Nat.lt_succ_self _)
  · exact Or.inr ⟨rfl, Nat.lt_add_of_pos_right hsize⟩

/-- A text that is not empty leads on. -/
theorem before_past (p : Position) {text : List Char} (h : text ≠ []) : p.Before (p.past text) := by
  induction text generalizing p with
  | nil => exact absurd rfl h
  | cons c text ih =>
    have hc := p.before_advance c
    cases text with
    | nil => exact hc
    | cons d text => exact hc.trans (ih (p.advance c) (List.cons_ne_nil d text))

/-- No text leads back. -/
theorem not_past_before (p : Position) (text : List Char) : ¬ (p.past text).Before p := by
  intro hback
  by_cases h : text = []
  · subst h
    exact p.not_before_self hback
  · exact p.not_before_self ((p.before_past h).trans hback)

end Position

/-! ## Sizes of characters -/

namespace Text

/-- An ASCII character takes one byte. -/
theorem utf8Size_of_ascii {c : Char} (h : c.toNat < 0x80) : c.utf8Size = 1 :=
  Char.utf8Size_eq_one_iff.mpr (UInt32.le_iff_toNat_le.mpr (Nat.le_of_lt_succ h))

/-- An ASCII character takes one UTF-16 unit. -/
theorem utf16Size_of_ascii {c : Char} (h : c.toNat < 0x80) : utf16Size c = 1 :=
  if_pos (Nat.lt_trans h (by decide))

/-- A character has at least as many bytes as UTF-16 code units. -/
theorem utf16Size_le_utf8Size (c : Char) : utf16Size c ≤ c.utf8Size := by
  unfold utf16Size
  split
  · exact Char.utf8Size_pos c
  · rename_i hlarge
    -- Outside the basic plane a character has four bytes.
    have hval : ∀ n : UInt32, n.toNat < 0x10000 → ¬ c.val ≤ n := by
      intro n hn hle
      have := UInt32.le_iff_toNat_le.mp hle
      exact hlarge (Nat.lt_of_le_of_lt this hn)
    rw [Char.utf8Size, if_neg (hval _ (by decide)), if_neg (hval _ (by decide)),
      if_neg (hval _ (by decide))]
    decide

/-- ASCII text has as many bytes as characters. -/
theorem byteLength_of_ascii {text : List Char} (h : ∀ c ∈ text, c.toNat < 0x80) :
    byteLength text = text.length := by
  induction text with
  | nil => rfl
  | cons c text ih =>
    obtain ⟨hc, htext⟩ := List.forall_mem_cons.mp h
    rw [byteLength_cons, utf8Size_of_ascii hc, ih htext, List.length_cons, Nat.add_comm]

/-- A text that takes up no bytes is empty. -/
theorem eq_nil_of_byteLength {text : List Char} (h : byteLength text = 0) : text = [] := by
  cases text with
  | nil => rfl
  | cons c text =>
    have hpos := Char.utf8Size_pos c
    rw [byteLength_cons] at h
    omega

/-! ## Boundaries -/

/-- Whether a byte offset of a text lies between two characters, or at one of its ends. -/
def IsBoundary (text : List Char) (offset : Nat) : Prop :=
  ∃ before after, text = before ++ after ∧ byteLength before = offset

/-- Of two starts of one text, the one with more bytes goes on from the other. -/
theorem exists_of_append_eq_append {a b c d : List Char} (h : a ++ b = c ++ d)
    (hle : byteLength a ≤ byteLength c) : ∃ mid, c = a ++ mid ∧ b = mid ++ d := by
  rcases List.append_eq_append_iff.mp h with ⟨mid, hc, hb⟩ | ⟨mid, ha, hd⟩
  · exact ⟨mid, hc, hb⟩
  · have hmid : mid = [] := by
      rw [ha, byteLength_append] at hle
      exact eq_nil_of_byteLength (by omega)
    subst hmid
    exact ⟨[], by simpa using ha.symm, by simpa using hd.symm⟩

end Text

namespace LineIndex

/-! ## The lines of the index -/

/-- The position of an offset, given the line it lies on and the lines around. -/
theorem position_eq {index : LineIndex} {offset : Nat} {before after : List IndexedLine}
    {l : IndexedLine} (hlines : index.lines = before ++ l :: after) (hsize : offset ≤ index.size)
    (hbefore : ∀ x ∈ before, x.start ≤ offset) (hl : l.start ≤ offset)
    (hafter : ∀ x ∈ after, offset < x.start) :
    index.position offset =
      ⟨before.length, offset - l.start - surplusBefore l.wide (offset - l.start)⟩ := by
  have hstop : after.takeWhile (fun x => decide (x.start ≤ offset)) = [] := by
    cases after with
    | nil => rfl
    | cons x after =>
      have hx := hafter x List.mem_cons_self
      simp [Nat.not_le.mpr hx]
  -- The lines that start up to the offset are those in front of `l` and `l` itself.
  have hline : index.lineOf offset = before.length := by
    rw [lineOf, hlines, List.takeWhile_append_of_pos (by simpa using hbefore)]
    simp [hl, hstop]
  have hget : index.lines[before.length]? = some l := by simp [hlines]
  simp only [position, Nat.min_eq_left hsize, hline, lineStart?, wideChars, hget, Option.map_some,
    Option.getD_some]

/-- What is known of the part of a line that was read: its size in UTF-16 code units, and the wide
characters in it, last one first. -/
structure ReadLine (column units : Nat) (seen : List WideChar) : Prop where
  /-- The wide characters lie to the left of the column. -/
  left : ∀ w ∈ seen, w.stop ≤ column
  /-- The column in bytes exceeds the one in code units by their surplus. -/
  column_eq : column = units + Text.total (·.surplus) seen.reverse

namespace ReadLine

variable {column units : Nat} {seen : List WideChar}

/-- At the start of a line nothing was read. -/
theorem start : ReadLine 0 0 [] := ⟨by simp, rfl⟩

/-- An ASCII character counts one in both sizes. -/
theorem ascii (h : ReadLine column units seen) : ReadLine (column + 1) (units + 1) seen where
  left w hw := Nat.le_succ_of_le (h.left w hw)
  column_eq := by
    have := h.column_eq
    omega

/-- A wide character is kept with its surplus. -/
theorem wide (h : ReadLine column units seen) (c : Char) :
    ReadLine (column + c.utf8Size) (units + Text.utf16Size c)
      (⟨column, c.utf8Size, Text.utf16Size c⟩ :: seen) where
  left w hw := by
    rcases List.mem_cons.mp hw with rfl | hw
    · exact Nat.le_refl _
    · exact Nat.le_trans (h.left w hw) (Nat.le_add_right _ _)
  column_eq := by
    have hcolumn := h.column_eq
    have hsize := Text.utf16Size_le_utf8Size c
    have hlast : Text.total WideChar.surplus [⟨column, c.utf8Size, Text.utf16Size c⟩] =
        c.utf8Size - Text.utf16Size c := rfl
    rw [List.reverse_cons, Text.total_append, hlast]
    omega

/-- The surplus to the left of the column is what was seen, whatever follows on the line. -/
theorem column_sub (h : ReadLine column units seen) {more : List WideChar}
    (hmore : ∀ w ∈ more, column < w.stop) :
    column - surplusBefore (seen.reverse ++ more) column = units := by
  have hstop : more.takeWhile (fun w => decide (w.stop ≤ column)) = [] := by
    cases more with
    | nil => rfl
    | cons w more =>
      have hw := hmore w List.mem_cons_self
      simp [Nat.not_le.mpr hw]
  have hseen : ∀ w ∈ seen.reverse, decide (w.stop ≤ column) = true := by
    intro w hw
    exact decide_eq_true (h.left w (List.mem_reverse.mp hw))
  have hcolumn := h.column_eq
  rw [surplusBefore, List.takeWhile_append_of_pos hseen, hstop, List.append_nil]
  omega

end ReadLine

/-- The lines from some column of a line on: the line itself, to which wide characters to the right
of the column may be added, and lines that start further on. -/
theorem exists_scan_eq (start column : Nat) (seen : List WideChar) (text : List Char) :
    ∃ more rest, scan start column seen text = ⟨start, seen.reverse ++ more⟩ :: rest ∧
      (∀ w ∈ more, column < w.stop) ∧ ∀ l ∈ rest, start + column < l.start := by
  induction text generalizing start column seen with
  | nil => exact ⟨[], [], by simp [scan], by simp, by simp⟩
  | cons c text ih =>
    rw [scan]
    split
    · -- A line feed: nothing is added to this line, and the next one starts behind it.
      obtain ⟨more, rest, hscan, -, hrest⟩ := ih (start + column + 1) 0 []
      refine ⟨[], _, by rw [List.append_nil], by simp, ?_⟩
      intro l hl
      rw [hscan] at hl
      rcases List.mem_cons.mp hl with rfl | hl
      · exact Nat.lt_succ_self _
      · have := hrest l hl
        omega
    · split
      · obtain ⟨more, rest, hscan, hmore, hrest⟩ := ih start (column + 1) seen
        refine ⟨more, rest, hscan, fun w hw => ?_, fun l hl => ?_⟩
        · have := hmore w hw
          omega
        · have := hrest l hl
          omega
      · -- A wide character is the first one that is added to this line.
        have hpos := Char.utf8Size_pos c
        obtain ⟨more, rest, hscan, hmore, hrest⟩ := ih start (column + c.utf8Size)
          (⟨column, c.utf8Size, Text.utf16Size c⟩ :: seen)
        refine ⟨⟨column, c.utf8Size, Text.utf16Size c⟩ :: more, rest, by simp [hscan], ?_, ?_⟩
        · intro w hw
          rcases List.mem_cons.mp hw with rfl | hw
          · exact Nat.lt_add_of_pos_right hpos
          · have := hmore w hw
            omega
        · intro l hl
          have := hrest l hl
          omega

/-- Some text read from a column of line number `line` on leads to an offset. It lies on one of the
indexed lines, and its position by that line is the one that the reader has reached. -/
theorem exists_lines {column units : Nat} {seen : List WideChar}
    (h : ReadLine column units seen) (line start : Nat) (s t : List Char) :
    ∃ before l after, scan start column seen (s ++ t) = before ++ l :: after ∧
      (∀ x ∈ before, x.start ≤ start + column + Text.byteLength s) ∧
      l.start ≤ start + column + Text.byteLength s ∧
      (∀ x ∈ after, start + column + Text.byteLength s < x.start) ∧
      Position.past ⟨line, units⟩ s =
        ⟨line + before.length, start + column + Text.byteLength s - l.start -
          surplusBefore l.wide (start + column + Text.byteLength s - l.start)⟩ := by
  -- By induction over the text that is read, with what was seen of the current line as the
  -- invariant: within a line the offset moves on, and at a line feed the line does.
  induction s generalizing line start column units seen with
  | nil =>
    obtain ⟨more, rest, hscan, hmore, hrest⟩ := exists_scan_eq start column seen t
    refine ⟨[], _, rest, hscan, by simp, Nat.le_add_right _ _, by simpa using hrest, ?_⟩
    simp only [Position.past_nil, List.length_nil, Nat.add_zero, Text.byteLength_nil,
      Nat.add_sub_cancel_left, h.column_sub hmore]
  | cons c s ih =>
    rw [List.cons_append, scan, Position.past_cons, Position.advance, Text.byteLength_cons]
    split
    · -- A line feed ends the line: the line stands in front of those of what follows.
      rename_i hc
      have hsize : c.utf8Size = 1 := by rw [hc]; rfl
      obtain ⟨before, l, after, hscan, hbefore, hl, hafter, hpast⟩ :=
        ih .start (line + 1) (start + column + 1)
      have hoffset : start + column + (c.utf8Size + Text.byteLength s) =
          start + column + 1 + 0 + Text.byteLength s := by omega
      rw [hoffset]
      refine ⟨⟨start, seen.reverse⟩ :: before, l, after, by rw [hscan]; rfl, ?_, hl, hafter, ?_⟩
      · exact List.forall_mem_cons.mpr ⟨by simp only; omega, hbefore⟩
      · rw [hpast, List.length_cons, Nat.add_assoc line 1, Nat.add_comm 1]
    · split
      · rename_i hascii
        have hoffset : start + column + (c.utf8Size + Text.byteLength s) =
            start + (column + 1) + Text.byteLength s := by
          rw [Text.utf8Size_of_ascii hascii]
          omega
        rw [hoffset, Text.utf16Size_of_ascii hascii]
        exact ih h.ascii line start
      · have hoffset : start + column + (c.utf8Size + Text.byteLength s) =
            start + (column + c.utf8Size) + Text.byteLength s := by omega
        rw [hoffset]
        exact ih (h.wide c) line start

/-! ## Positions -/

/-- Lines go up with offsets. -/
theorem line_mono (index : LineIndex) {m n : Nat} (h : m ≤ n) :
    (index.position m).line ≤ (index.position n).line := by
  have hmin : min m index.size ≤ min n index.size := by omega
  -- The line is counted by the starts up to the offset, and a larger offset has more of them.
  have htake : ∀ ls : List IndexedLine,
      (ls.takeWhile (·.start ≤ min m index.size)).length ≤
        (ls.takeWhile (·.start ≤ min n index.size)).length := by
    intro ls
    induction ls with
    | nil => simp
    | cons l ls ih =>
      by_cases hl : l.start ≤ min m index.size
      · have hl' : l.start ≤ min n index.size := by omega
        rw [List.takeWhile_cons, List.takeWhile_cons, decide_eq_true hl, decide_eq_true hl']
        exact Nat.succ_le_succ ih
      · rw [List.takeWhile_cons, decide_eq_false hl]
        exact Nat.zero_le _
  have hlines := htake index.lines
  show (index.lineOf _) ≤ index.lineOf _
  unfold lineOf
  omega

/-- The position of an offset between two characters is the one reached by reading the text before
it. -/
theorem position_append (s t : List Char) :
    (ofText (s ++ t)).position (Text.byteLength s) = Position.origin.past s := by
  obtain ⟨before, l, after, hscan, hbefore, hl, hafter, hpast⟩ := exists_lines .start 0 0 s t
  simp only [Nat.zero_add] at hbefore hl hafter hpast
  have hsize : Text.byteLength s ≤ (ofText (s ++ t)).size := by
    rw [ofText, Text.byteLength_append]
    exact Nat.le_add_right _ _
  rw [position_eq hscan hsize hbefore hl hafter, Position.origin, hpast]

/-- The positions of offsets between characters come in the order of the offsets. -/
theorem position_before_iff {text : List Char} {i j : Nat} (hi : Text.IsBoundary text i)
    (hj : Text.IsBoundary text j) :
    ((ofText text).position i).Before ((ofText text).position j) ↔ i < j := by
  obtain ⟨a, a', ha, rfl⟩ := hi
  obtain ⟨b, b', hb, rfl⟩ := hj
  have hposition : ∀ {s t}, text = s ++ t →
      (ofText text).position (Text.byteLength s) = Position.origin.past s := by
    rintro s t rfl
    exact position_append s t
  have hsplit : a ++ a' = b ++ b' := ha.symm.trans hb
  rw [hposition ha, hposition hb]
  -- One of the two texts goes on from the other, and reading on from its end leads on.
  by_cases hle : Text.byteLength a ≤ Text.byteLength b
  · obtain ⟨mid, rfl, -⟩ := Text.exists_of_append_eq_append hsplit hle
    rw [Position.past_append, Text.byteLength_append]
    by_cases hmid : mid = []
    · subst hmid
      exact iff_of_false (Position.not_before_self _) (by simp)
    · have hpos : Text.byteLength mid ≠ 0 := fun h => hmid (Text.eq_nil_of_byteLength h)
      exact iff_of_true (Position.before_past _ hmid) (by omega)
  · obtain ⟨mid, rfl, -⟩ := Text.exists_of_append_eq_append hsplit.symm (by omega)
    rw [Position.past_append]
    exact iff_of_false (Position.not_past_before _ _) (by omega)

end LineIndex
end EmbeddedGraphQL
