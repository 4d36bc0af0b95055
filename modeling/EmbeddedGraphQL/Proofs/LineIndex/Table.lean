import EmbeddedGraphQL.Proofs.LineIndex.Reached
import EmbeddedGraphQL.Proofs.Text.Pieces

/-!
# The table of a line index

The index is built in one scan over the text. What it holds can be said without the scan: a line for
every piece of the text between line feeds, with the offset of that piece and its wide characters.

* `LineIndex.wideFrom`: the wide characters of a piece of a line.
* `LineIndex.table`: the lines of an index, from the pieces of a text.
* `LineIndex.lines_ofText`: the scan builds this table.
* `LineIndex.surplusBefore_wideFrom_le`, `LineIndex.surplusUntil_wideFrom`: the surplus to the left
  of a column in bytes, and of a column in code units.
-/

namespace EmbeddedGraphQL
namespace LineIndex

/-! ## Wide characters of a line -/

/-- The wide characters of a piece of a line that starts at a column. -/
def wideFrom (column : Nat) : List Char → List WideChar
  | [] => []
  | c :: text =>
    if c.toNat < 0x80 then wideFrom (column + 1) text
    else ⟨column, c.utf8Size, Text.utf16Size c⟩ :: wideFrom (column + c.utf8Size) text

/-- An ASCII character has no entry and moves the column on. -/
theorem wideFrom_ascii {c : Char} (h : c.toNat < 0x80) (column : Nat) (text : List Char) :
    wideFrom column (c :: text) = wideFrom (column + c.utf8Size) text := by
  rw [wideFrom, if_pos h, Text.utf8Size_of_ascii h]

/-- Every other character has an entry at its column. -/
theorem wideFrom_wide {c : Char} (h : ¬ c.toNat < 0x80) (column : Nat) (text : List Char) :
    wideFrom column (c :: text) =
      ⟨column, c.utf8Size, Text.utf16Size c⟩ :: wideFrom (column + c.utf8Size) text := by
  rw [wideFrom, if_neg h]

/-- The wide characters of two pieces in a row. -/
theorem wideFrom_append (column : Nat) (s t : List Char) :
    wideFrom column (s ++ t) = wideFrom column s ++ wideFrom (column + Text.byteLength s) t := by
  induction s generalizing column with
  | nil => rfl
  | cons c s ih =>
    rw [List.cons_append, Text.byteLength_cons, ← Nat.add_assoc]
    by_cases hc : c.toNat < 0x80
    · rw [wideFrom_ascii hc, wideFrom_ascii hc, ih]
    · rw [wideFrom_wide hc, wideFrom_wide hc, ih, List.cons_append]

/-- A wide character stands at or behind the start of its piece, and has no more code units than
bytes. -/
theorem bounds_of_mem_wideFrom {column : Nat} {text : List Char} {w : WideChar}
    (h : w ∈ wideFrom column text) : column ≤ w.start ∧ w.units ≤ w.bytes := by
  induction text generalizing column with
  | nil => cases h
  | cons c text ih =>
    by_cases hc : c.toNat < 0x80
    · rw [wideFrom_ascii hc] at h
      exact (ih h).imp_left (Nat.le_trans (Nat.le_add_right _ _))
    · rw [wideFrom_wide hc] at h
      rcases List.mem_cons.mp h with rfl | h
      · exact ⟨Nat.le_refl _, Text.utf16Size_le_utf8Size c⟩
      · exact (ih h).imp_left (Nat.le_trans (Nat.le_add_right _ _))

/-! ## The table -/

/-- What an index keeps of lines that follow each other from a byte offset on. -/
def table (start : Nat) : List (List Char) → List IndexedLine
  | [] => []
  | line :: rest => ⟨start, wideFrom 0 line⟩ :: table (start + Text.byteLength line + 1) rest

@[simp] theorem length_table (start : Nat) (ls : List (List Char)) :
    (table start ls).length = ls.length := by
  induction ls generalizing start with
  | nil => rfl
  | cons line rest ih => rw [table, List.length_cons, ih, List.length_cons]

/-- The table of lines behind closed lines goes on at the offset where these end. -/
theorem table_append (start : Nat) (ls rest : List (List Char)) :
    table start (ls ++ rest) =
      table start ls ++ table (start + Text.byteLength (Text.closedLines ls)) rest := by
  induction ls generalizing start with
  | nil => rfl
  | cons line ls ih =>
    have hnewline : '\n'.utf8Size = 1 := rfl
    rw [List.cons_append, table, table, ih, Text.closedLines_cons, Text.byteLength_append,
      Text.byteLength_cons, hnewline, List.cons_append]
    simp only [Nat.add_assoc]

/-- The lines of a table stand in the order of their offsets. -/
theorem table_ordered (start : Nat) (ls : List (List Char)) :
    (table start ls).Pairwise (·.start < ·.start) ∧ ∀ l ∈ table start ls, start ≤ l.start := by
  induction ls generalizing start with
  | nil => exact ⟨.nil, List.forall_mem_nil _⟩
  | cons line rest ih =>
    obtain ⟨hordered, hbehind⟩ := ih (start + Text.byteLength line + 1)
    have hlater : ∀ l ∈ table (start + Text.byteLength line + 1) rest, start < l.start := by
      intro l hl
      have := hbehind l hl
      omega
    refine ⟨.cons hlater hordered, List.forall_mem_cons.mpr ⟨Nat.le_refl _, ?_⟩⟩
    exact fun l hl => Nat.le_of_lt (hlater l hl)

/-- The scan from behind a part of a line makes the table of the pieces of that part and the text
behind it. -/
theorem scan_eq_table (start : Nat) {part : List Char} (hpart : '\n' ∉ part) (text : List Char) :
    scan start (Text.byteLength part) (wideFrom 0 part).reverse text =
      table start (Text.pieces (part ++ text)) := by
  induction text generalizing start part with
  | nil =>
    have hpieces : Text.pieces (part ++ []) = [part] := by
      rw [List.append_nil]
      exact List.splitOn_eq_singleton hpart
    rw [hpieces, scan, List.reverse_reverse]
    rfl
  | cons c text ih =>
    rw [scan]
    split
    · -- A line feed: the part is the whole line, and the next one starts behind the line feed.
      rename_i hc
      have hrest := ih (start + Text.byteLength part + 1) List.not_mem_nil
      rw [hc, Text.pieces_append_newline hpart, table, List.reverse_reverse]
      exact congrArg _ hrest
    · -- Any other character makes the part longer.
      rename_i hc
      have hlonger : '\n' ∉ part ++ [c] := by simp [hpart, Ne.symm hc]
      have hrest := ih start hlonger
      rw [Text.byteLength_append, Text.byteLength_cons, Text.byteLength_nil, Nat.add_zero,
        wideFrom_append, Nat.zero_add, List.append_assoc, List.singleton_append] at hrest
      rw [← hrest]
      split
      · rename_i hascii
        rw [wideFrom_ascii hascii, Text.utf8Size_of_ascii hascii]
        simp [wideFrom]
      · rename_i hwide
        rw [wideFrom_wide hwide]
        simp [wideFrom]

/-- The lines of an index are the pieces of its text. -/
theorem lines_ofText (text : List Char) : (ofText text).lines = table 0 (Text.pieces text) :=
  scan_eq_table 0 List.not_mem_nil text

/-- The lines of a text stand in the order of their offsets. -/
theorem lines_ordered (text : List Char) : (ofText text).lines.Pairwise (·.start < ·.start) := by
  rw [lines_ofText]
  exact (table_ordered 0 _).1

/-- Of two lines of a text, the one with the larger number starts further on. -/
theorem start_lt_start {text : List Char} {i j start next : Nat} (hij : i < j)
    (hstart : (ofText text).lineStart? i = some start)
    (hnext : (ofText text).lineStart? j = some next) : start < next := by
  obtain ⟨l, hl, rfl⟩ := Option.map_eq_some_iff.mp hstart
  obtain ⟨l', hl', rfl⟩ := Option.map_eq_some_iff.mp hnext
  obtain ⟨hi, rfl⟩ := List.getElem?_eq_some_iff.mp hl
  obtain ⟨hj, rfl⟩ := List.getElem?_eq_some_iff.mp hl'
  exact List.pairwise_iff_getElem.mp (lines_ordered text) i j hi hj hij

/-- Every line of an index holds the wide characters of some piece. -/
theorem exists_wideFrom_of_mem {text : List Char} {l : IndexedLine}
    (h : l ∈ (ofText text).lines) : ∃ line, l.wide = wideFrom 0 line := by
  rw [lines_ofText] at h
  have hmem : ∀ (start : Nat) (ls : List (List Char)), l ∈ table start ls →
      ∃ line, l.wide = wideFrom 0 line := by
    intro start ls
    induction ls generalizing start with
    | nil => exact fun h => nomatch h
    | cons line ls ih =>
      intro h
      rcases List.mem_cons.mp h with rfl | h
      · exact ⟨line, rfl⟩
      · exact ih _ h
  exact hmem 0 _ h

/-- The line at which a text stands behind closed lines. -/
theorem lines_closedLines_append {ls : List (List Char)} (h : ∀ l ∈ ls, '\n' ∉ l)
    {part : List Char} (hpart : '\n' ∉ part) (text : List Char) :
    ∃ rest, (ofText (Text.closedLines ls ++ (part ++ text))).lines[ls.length]? =
      some ⟨Text.byteLength (Text.closedLines ls), wideFrom 0 (part ++ rest)⟩ := by
  obtain ⟨first, later, hpieces⟩ := List.exists_cons_of_ne_nil (Text.pieces_ne_nil text)
  refine ⟨first, ?_⟩
  rw [lines_ofText, Text.pieces_closedLines_append h, Text.pieces_append_of_not_mem hpart, hpieces,
    List.modifyHead_cons, table_append, List.getElem?_append_right (by simp), length_table,
    Nat.sub_self, Nat.zero_add]
  rfl

/-! ## Surplus -/

/-- Up to any column in bytes, the wide characters have no more surplus than there are bytes. -/
theorem surplusBefore_wideFrom_le (start column : Nat) (text : List Char) :
    surplusBefore (wideFrom start text) column ≤ column - start := by
  induction text generalizing start with
  | nil => exact Nat.zero_le _
  | cons c text ih =>
    have hrest := ih (start + c.utf8Size)
    by_cases hc : c.toNat < 0x80
    · rw [wideFrom_ascii hc]
      omega
    · rw [wideFrom_wide hc, surplusBefore, List.takeWhile_cons]
      split
      · rename_i hstop
        have hstop : start + c.utf8Size ≤ column := of_decide_eq_true hstop
        rw [surplusBefore] at hrest
        change c.utf8Size - Text.utf16Size c + Text.total _ _ ≤ _
        omega
      · exact Nat.zero_le _

/-- Up to a column in code units at which a part of the line ends, the wide characters have the
surplus of that part. -/
theorem surplusUntil_wideFrom (units acc : Nat) (part rest : List Char) :
    surplusUntil (units + Text.unitLength part) acc (wideFrom (units + acc) (part ++ rest)) +
      Text.unitLength part = acc + Text.byteLength part := by
  -- By induction over the part; `units` and `acc` are the code units and the surplus to its left.
  induction part generalizing units acc with
  | nil =>
    rw [List.nil_append, Text.unitLength_nil, Text.byteLength_nil]
    cases hwide : wideFrom (units + acc) rest with
    | nil => rfl
    | cons w wide =>
      -- The next wide character is not to the left of the column.
      have hw := (bounds_of_mem_wideFrom (hwide ▸ List.mem_cons_self : w ∈ _)).1
      rw [surplusUntil, if_pos (by omega)]
  | cons c part ih =>
    have hle := Text.utf16Size_le_utf8Size c
    have hpart := ih (units + Text.utf16Size c) (acc + (c.utf8Size - Text.utf16Size c))
    have hstart : units + Text.utf16Size c + (acc + (c.utf8Size - Text.utf16Size c)) =
        units + acc + c.utf8Size := by omega
    rw [hstart, Nat.add_assoc units] at hpart
    rw [List.cons_append, Text.unitLength_cons, Text.byteLength_cons]
    by_cases hc : c.toNat < 0x80
    · rw [wideFrom_ascii hc]
      rw [Text.utf8Size_of_ascii hc, Text.utf16Size_of_ascii hc] at hpart ⊢
      simp only [Nat.sub_self, Nat.add_zero] at hpart
      omega
    · have hpos : 0 < Text.utf16Size c := by
        unfold Text.utf16Size
        split <;> decide
      rw [wideFrom_wide hc, surplusUntil, if_neg (by simp only; omega)]
      simp only [WideChar.surplus]
      omega

end LineIndex
end EmbeddedGraphQL
