import EmbeddedGraphQL.Proofs.Document.BlockText
import EmbeddedGraphQL.Proofs.Document.FirstLexeme

/-!
# Written texts and their glyphs

A printed text is put together from words, marks, numbers and quoted texts, with blanks, line feeds
and commas in between. In its surroundings each of them is found again when the text is scanned, if
what follows does not run into it.

* `Surroundings.Leads`: a text that has its glyphs whatever follows.
* `Surroundings.Written`: a text that has its glyphs if what follows is free.
* `Written.name`, `Written.number`, `Written.text`: names, numbers and texts.
* `Surroundings.reread`: the text that is read where a text was printed.
* `Leads.written`, `Written.append`: texts in a row.
-/

namespace EmbeddedGraphQL
namespace Surroundings

/-- The glyphs of a text in its surroundings. -/
def scan? (s : Surroundings) (text : List Char) : Option (List Glyph) := Glyph.scan? (s.place text)

/-- A text with some glyphs, whatever follows. -/
structure Leads (s : Surroundings) (text : List Char) (gs : List Glyph) : Prop where
  /-- The empty text has no glyphs. -/
  eq_nil : text = [] → gs = []
  /-- There is no carriage return. -/
  noReturn : '\r' ∉ text
  /-- The glyphs come first, then those of what follows. -/
  scan : ∀ rest, s.scan? (text ++ rest) = (s.scan? rest).map (gs ++ ·)

/-- A text with some glyphs, if what follows is free. It does not end with a blank. -/
structure Written (s : Surroundings) (text : List Char) (gs : List Glyph) : Prop where
  /-- The empty text has no glyphs. -/
  eq_nil : text = [] → gs = []
  /-- There is no carriage return. -/
  noReturn : '\r' ∉ text
  /-- The last character, if there is one, is no blank. -/
  solid : ∀ c ∈ text.getLast?, Text.isBlank c = false
  /-- The glyphs come first, then those of what follows, if that is free. -/
  scan : ∀ rest, isFree rest = true → s.scan? (text ++ rest) = (s.scan? rest).map (gs ++ ·)

variable {s : Surroundings}

/-! ## Texts in a row -/

namespace Leads

variable {a b : List Char} {ks ls : List Glyph}

/-- The empty text leads with no glyphs. -/
theorem nil : s.Leads [] [] := ⟨fun _ => rfl, by simp, fun rest => by simp⟩

/-- Two texts that lead, in a row. -/
theorem append (ha : s.Leads a ks) (hb : s.Leads b ls) : s.Leads (a ++ b) (ks ++ ls) where
  eq_nil h := by
    obtain ⟨hanil, hbnil⟩ := List.append_eq_nil_iff.mp h
    rw [ha.eq_nil hanil, hb.eq_nil hbnil, List.append_nil]
  noReturn := by simp [ha.noReturn, hb.noReturn]
  scan rest := by
    rw [List.append_assoc, ha.scan, hb.scan, Option.map_map]
    congr 1
    funext gs
    simp

/-- Written text behind text that leads is written. -/
theorem written (ha : s.Leads a ks) (hb : s.Written b ls) (hne : ls ≠ []) :
    s.Written (a ++ b) (ks ++ ls) where
  eq_nil h := absurd (hb.eq_nil (List.append_eq_nil_iff.mp h).2) hne
  noReturn := by simp [ha.noReturn, hb.noReturn]
  solid := by
    rw [List.getLast?_append_of_ne_nil a (mt hb.eq_nil hne)]
    exact hb.solid
  scan rest hrest := by
    rw [List.append_assoc, ha.scan, hb.scan rest hrest, Option.map_map]
    congr 1
    funext gs
    simp

/-- Text that leads and ends in no blank is written. -/
theorem toWritten (ha : s.Leads a ks) (hsolid : ∀ c ∈ a.getLast?, Text.isBlank c = false) :
    s.Written a ks := ⟨ha.eq_nil, ha.noReturn, hsolid, fun rest _ => ha.scan rest⟩

end Leads

namespace Written

variable {a b : List Char} {ks ls : List Glyph}

/-- The empty text is written with no glyphs. -/
theorem nil : s.Written [] [] := Leads.nil.toWritten (by simp)

/-- Two written texts in a row, if the second is free. -/
theorem append (ha : s.Written a ks) (hb : s.Written b ls) (hfree : isFree b = true) :
    s.Written (a ++ b) (ks ++ ls) where
  eq_nil h := by
    obtain ⟨hanil, hbnil⟩ := List.append_eq_nil_iff.mp h
    rw [ha.eq_nil hanil, hb.eq_nil hbnil, List.append_nil]
  noReturn := by simp [ha.noReturn, hb.noReturn]
  solid := by
    by_cases hne : b = []
    · rw [hne, List.append_nil]
      exact ha.solid
    · rw [List.getLast?_append_of_ne_nil a hne]
      exact hb.solid
  scan rest hrest := by
    rw [List.append_assoc, ha.scan _ (isFree_append hfree hrest), hb.scan rest hrest,
      Option.map_map]
    congr 1
    funext gs
    simp

/-- Text that leads and starts freely, behind written text, leads. -/
theorem leads (ha : s.Written a ks) (hb : s.Leads b ls) (hfree : isFree b = true)
    (hne : b ≠ []) : s.Leads (a ++ b) (ks ++ ls) where
  eq_nil h := absurd (List.append_eq_nil_iff.mp h).2 hne
  noReturn := by simp [ha.noReturn, hb.noReturn]
  scan rest := by
    have hfree : isFree (b ++ rest) = true := by
      obtain ⟨c, tail, rfl⟩ := List.exists_cons_of_ne_nil hne
      exact hfree
    rw [List.append_assoc, ha.scan _ hfree, hb.scan, Option.map_map]
    congr 1
    funext gs
    simp

end Written

/-! ## Blanks, commas and marks -/

/-- What is free stays free in its surroundings. -/
theorem isFree_place {rest : List Char} (h : isFree rest = true) : isFree (s.place rest) = true := by
  cases rest with
  | nil => exact isFree_of_isBlank s.isBlank_trailing
  | cons c rest =>
    have hhead : (s.place (c :: rest)).head? = (c :: rest).head? := by
      rw [place, List.head?_append, Indentation.head?_reindent]
      rfl
    rw [isFree_of_head? hhead]
    exact h

/-- Characters that are ignored, commas apart, are scanned over. -/
theorem scan?_ignored {blanks : List Char}
    (h : ∀ c ∈ blanks, Lexeme.isIgnored c = true ∧ c ≠ ',') (rest : List Char) :
    Glyph.scan? (blanks ++ rest) = Glyph.scan? rest := by
  induction blanks with
  | nil => rfl
  | cons c blanks ih =>
    obtain ⟨⟨hc, hcomma⟩, hblanks⟩ := List.forall_mem_cons.mp h
    rw [List.cons_append, Glyph.scan?_ignored hc hcomma, ih hblanks]

/-- Every character of an indentation is ignored and no comma. -/
theorem isIgnored_indent (c : Char) (hc : c ∈ s.indent) :
    Lexeme.isIgnored c = true ∧ c ≠ ',' := by
  rcases s.indent_eq c hc with rfl | rfl | rfl <;> decide

namespace Leads

/-- A blank has no glyphs. -/
theorem space : s.Leads [' '] [] where
  eq_nil h := by cases h
  noReturn := by decide
  scan rest := by
    rw [List.singleton_append, scan?, s.place_cons (by decide),
      Glyph.scan?_ignored (by decide) (by decide)]
    simp [scan?]

/-- Spaces lead with no glyphs. -/
theorem spaces (n : Nat) : s.Leads (List.replicate n ' ') [] := by
  induction n with
  | zero => exact nil
  | succ n ih => exact space.append ih

/-- A line feed has no glyphs, and neither has the indentation that is put in behind it. -/
theorem newline : s.Leads ['\n'] [] where
  eq_nil h := by cases h
  noReturn := by decide
  scan rest := by
    have hindent : ∀ c ∈ (if Indentation.startsLine rest then s.indent else []),
        Lexeme.isIgnored c = true ∧ c ≠ ',' := by
      intro c hc
      split at hc
      · exact isIgnored_indent c hc
      · cases hc
    rw [List.singleton_append, scan?, s.place_newline, Glyph.scan?_ignored (by decide) (by decide),
      scan?_ignored hindent]
    simp [scan?]

/-- The gap between two parts has no glyphs. -/
theorem gap (layout : Layout) : s.Leads layout.gap.toList [] := by
  cases layout with
  | oneLine => exact space
  | lines level =>
    have htext : (Layout.lines level).gap.toList = ['\n'] ++ List.replicate (2 * level) ' ' := by
      simp [Layout.gap]
    rw [htext]
    exact newline.append (spaces _)

/-- A comma leads with its glyph. -/
theorem comma : s.Leads [','] [.comma] where
  eq_nil h := by cases h
  noReturn := by decide
  scan rest := by
    rw [List.singleton_append, scan?, s.place_cons (by decide), Glyph.scan?_comma]
    rfl

/-- A mark leads with its lexeme. -/
theorem mark {c : Char} (h : Lexeme.isMark c = true) : s.Leads [c] [.lexeme (.mark c)] where
  eq_nil h := by cases h
  noReturn := by
    intro hreturn
    rw [← List.mem_singleton.mp hreturn] at h
    exact absurd h (by decide)
  scan rest := by
    have hnewline : c ≠ '\n' := by
      rintro rfl
      exact absurd h (by decide)
    have hcomment : c ≠ '#' := by
      rintro rfl
      exact absurd h (by decide)
    rw [List.singleton_append, scan?, s.place_cons hnewline,
      Glyph.scan?_cons (Lexeme.isIgnored_of_isMark h) hcomment, Lexeme.first?_mark h]
    rfl

/-- Three points lead with their lexeme. -/
theorem dots : s.Leads ['.', '.', '.'] [.lexeme .dots] where
  eq_nil h := by cases h
  noReturn := by decide
  scan rest := by
    have hplace : s.place (['.', '.', '.'] ++ rest) = '.' :: '.' :: '.' :: s.place rest :=
      s.place_append (by decide) rest
    rw [scan?, hplace, Glyph.scan?_cons (by decide) (by decide), Lexeme.first?_dots]
    rfl

end Leads

/-- A mark is no blank. -/
theorem Written.mark {c : Char} (h : Lexeme.isMark c = true) :
    s.Written [c] [.lexeme (.mark c)] := by
  refine (Leads.mark h).toWritten ?_
  intro d hd
  cases hd
  simp only [Lexeme.isMark, decide_eq_true_eq, List.mem_cons, List.not_mem_nil, or_false] at h
  rcases h with rfl | rfl | rfl | rfl | rfl | rfl | rfl | rfl | rfl | rfl | rfl | rfl | rfl <;>
    decide

/-! ## Names and numbers -/

/-- A name is made of the characters that a name may go on with. -/
theorem isNameContinue_of_mem {name : String} (h : isName name = true) {c : Char}
    (hc : c ∈ name.toList) : isNameContinue c = true := by
  unfold isName at h
  split at h
  · cases h
  · rename_i first rest hchars
    rw [hchars] at hc
    simp only [Bool.and_eq_true, List.all_eq_true] at h
    rcases List.mem_cons.mp hc with rfl | hc
    · exact isNameContinue_of_isNameStart h.1
    · exact h.2 c hc

/-- A name is found again. -/
theorem Written.name {name : String} (h : isName name = true) :
    s.Written name.toList [.lexeme (.name name)] := by
  have hne : name.toList ≠ [] := by
    intro hnil
    simp [isName, hnil] at h
  have hnot : ∀ c : Char, isNameContinue c = false → c ∉ name.toList := by
    intro c hc hmem
    rw [isNameContinue_of_mem h hmem] at hc
    cases hc
  refine ⟨fun h => absurd h hne, hnot _ (by decide), fun c hc => ?_, fun rest hrest => ?_⟩
  · obtain ⟨hlow, hhigh⟩ :=
      toNat_of_isNameContinue (isNameContinue_of_mem h (List.mem_of_getLast? hc))
    exact Text.isBlank_eq_false (by omega) (by omega)
  · obtain ⟨size, hfirst⟩ := Lexeme.first?_name h (isFree_place hrest)
    obtain ⟨c, tail, hchars⟩ := List.exists_cons_of_ne_nil hne
    have hc : isNameContinue c = true := isNameContinue_of_mem h (hchars ▸ List.mem_cons_self)
    have hcomment : c ≠ '#' := by
      rintro rfl
      exact absurd hc (by decide)
    -- Lines are put in only behind line feeds, and a name has none.
    rw [scan?, s.place_append (hnot _ (by decide))]
    rw [hchars, List.cons_append] at hfirst ⊢
    rw [Glyph.scan?_cons (Lexeme.isIgnored_of_isNameContinue hc) hcomment, hfirst]
    rfl

/-- A word that is a name is written as that name. -/
theorem Written.word (word : String) (h : isName word = true) :
    s.Written word.toList [.lexeme (.name word)] := .name h

/-- A word and a blank lead whatever follows. -/
theorem Leads.word (word : String) (h : isName word = true) :
    s.Leads (word.toList ++ [' ']) [.lexeme (.name word)] :=
  (Written.name h).leads Leads.space rfl (by simp)

/-- The lexeme of a number. -/
def numberLexeme (isFloat : Bool) (digits : String) : Lexeme :=
  if isFloat then .float digits else .int digits

/-- A number is found again. -/
theorem Written.number {isFloat : Bool} {digits : String} (h : Lexeme.IsNumber isFloat digits) :
    s.Written digits.toList [.lexeme (numberLexeme isFloat digits)] := by
  obtain ⟨n, rfl, rfl⟩ := h
  have hnumeric := Lexeme.isNumeric_written n
  rw [String.toList_ofList]
  have hnot : ∀ c : Char, Lexeme.isNumeric c = false → c ∉ n.written := by
    intro c hc hmem
    rw [hnumeric c hmem] at hc
    cases hc
  obtain ⟨c, tail, hchars, hc⟩ := Lexeme.exists_written_eq_cons n
  refine ⟨fun h => absurd (hchars.symm.trans h) (List.cons_ne_nil _ _), hnot _ (by decide),
    fun c hc => ?_, fun rest hrest => ?_⟩
  · obtain ⟨hlow, hhigh⟩ := Lexeme.toNat_of_isNumeric (hnumeric c (List.mem_of_getLast? hc))
    exact Text.isBlank_eq_false hlow (by omega)
  · -- No line feed is in the number, so that its place leaves it as it is.
    have hnumber := Lexeme.number?_append n (isFree_place (s := s) hrest)
    rw [scan?, s.place_append (hnot _ (by decide))]
    rw [hchars, List.cons_append] at hnumber ⊢
    obtain ⟨hignored, hcomment⟩ := Lexeme.isIgnored_of_number hc
    rw [Glyph.scan?_cons hignored hcomment, Lexeme.first?_eq_number? hc, hnumber]
    rfl

/-! ## Texts -/

/-- An escaped character is never a line end. -/
theorem isLineEnd_of_mem_escape {text : List Char} {c : Char}
    (h : c ∈ text.flatMap Printer.escapeChar) : Lexeme.isLineEnd c = false := by
  obtain ⟨d, -, hc⟩ := List.mem_flatMap.mp h
  have hescaped := Lexeme.escapedAs_escapeChar d
  generalize Printer.escapeChar d = escaped at hescaped hc
  have halnum : ∀ e : Char, e.isAlphanum = true → Lexeme.isLineEnd e = false := by
    intro e he
    refine Bool.eq_false_iff.mpr fun hline => ?_
    rcases (by simpa [Lexeme.isLineEnd] using hline : e = '\n' ∨ e = '\r') with rfl | rfl <;>
      exact absurd he (by decide)
  -- A line end is escaped, and no escape is written with one.
  cases hescaped with
  | plain _ _ hline =>
    rw [List.mem_singleton.mp hc]
    exact hline
  | simple _ hline _ =>
    simp only [List.mem_cons, List.not_mem_nil, or_false] at hc
    rcases hc with rfl | rfl
    · rfl
    · exact hline
  | code ha hb _ _ =>
    simp only [List.mem_cons, List.not_mem_nil, or_false] at hc
    rcases hc with rfl | rfl | rfl | rfl | rfl | rfl
    · rfl
    · rfl
    · rfl
    · rfl
    · exact halnum _ ha
    · exact halnum _ hb

/-- A quoted text is found again. -/
theorem Written.quoted (text : String) :
    s.Written (Printer.quoted text).toList [.lexeme (.string text)] := by
  have hchars : (Printer.quoted text).toList =
      '"' :: (text.toList.flatMap Printer.escapeChar ++ ['"']) := by
    simp [Printer.quoted]
  -- The line ends of the text are escaped, so that its place leaves it as it is.
  have hnot : ∀ c : Char, Lexeme.isLineEnd c = true → c ∉ (Printer.quoted text).toList := by
    intro c hc hmem
    rw [hchars, List.mem_cons, List.mem_append, List.mem_singleton] at hmem
    rcases hmem with rfl | hmem | rfl
    · exact absurd hc (by decide)
    · rw [isLineEnd_of_mem_escape hmem] at hc
      cases hc
    · exact absurd hc (by decide)
  refine ⟨fun h => absurd (hchars.symm.trans h) (List.cons_ne_nil _ _), hnot _ (by decide),
    fun c hc => ?_, fun rest hrest => ?_⟩
  · rw [hchars, ← List.cons_append, List.getLast?_concat] at hc
    cases hc
    decide
  · obtain ⟨size, hfirst⟩ := Lexeme.first?_quoted text (isFree_place (s := s) hrest)
    rw [scan?, s.place_append (hnot _ (by decide))]
    rw [hchars, List.cons_append] at hfirst ⊢
    rw [Glyph.scan?_cons (by decide) (by decide), hfirst]
    rfl

/-- The blanks and tabs, and maybe carriage returns, in front of a line of a block text. -/
def margin (s : Surroundings) (layout : Layout) : List Char := s.indent ++ layout.spaces

/-- What a layout puts in front of a line is a margin. -/
theorem isMargin_margin (layout : Layout) : IsMargin (s.margin layout) := by
  intro c hc
  rcases List.mem_append.mp hc with hc | hc
  · exact s.indent_eq c hc
  · exact Or.inl (Layout.mem_spaces hc)

/-- A carriage return in a margin is one of the indentation. -/
theorem return_mem_margin_iff (layout : Layout) :
    '\r' ∈ s.margin layout ↔ '\r' ∈ s.indent := by
  refine ⟨fun h => ?_, fun h => List.mem_append_left _ h⟩
  rcases List.mem_append.mp h with h | h
  · exact h
  · exact absurd (Layout.mem_spaces h) (by decide)

/-- The text that is read where a text was printed. -/
def reread (s : Surroundings) (layout : Layout) (preferBlock : Bool) (text : String) : String :=
  if Printer.isBlock layout preferBlock text then
    String.ofList (Lexeme.blockValue (Printer.blockInner (s.margin layout) text.toList))
  else text

/-- A text is read as it was unless it spans lines and the indentation has a carriage return. -/
theorem reread_eq_iff {layout : Layout} {preferBlock : Bool} {text : String} :
    s.reread layout preferBlock text = text ↔
      '\r' ∉ s.indent ∨ Printer.spansLines layout preferBlock text = false := by
  unfold reread Printer.spansLines
  split
  · rename_i hblock
    have hfits : Printer.fitsBlock text.toList = true := by
      simp only [Printer.isBlock, Bool.and_eq_true] at hblock
      exact hblock.2
    -- A block text is read with the margin that its place puts in front of its lines.
    have hiff := Lexeme.blockValue_blockInner_eq_iff (isMargin_margin (s := s) layout)
      (Lexeme.fitsBlock_of_eq_true hfits)
    rw [hblock, Bool.true_and, ← return_mem_margin_iff layout]
    constructor
    · intro h
      have hchars := congrArg String.toList h
      rw [String.toList_ofList] at hchars
      exact (hiff.mp hchars).imp_right fun hline => by simpa using hline
    · intro h
      rw [hiff.mpr (h.imp_right fun hline => by simpa using hline), String.ofList_toList]
  · rename_i hblock
    simp [hblock]

/-- Escaping the quotes adds backslashes only. -/
theorem mem_of_mem_escapeQuotes {text : List Char} {c : Char} (h : c ∈ Printer.escapeQuotes text) :
    c ∈ text ∨ c = '\\' := by
  fun_induction Printer.escapeQuotes text with
  | case1 => exact Or.inl h
  | case2 text ih => grind
  | case3 d text _ ih => grind

/-- A line that starts with something else than a line feed is shifted. -/
theorem place_newline_append {line : List Char} (hne : line ≠ []) (hline : '\n' ∉ line)
    (rest : List Char) :
    s.place ('\n' :: (line ++ rest)) = '\n' :: (s.indent ++ (line ++ s.place rest)) := by
  obtain ⟨c, tail, rfl⟩ := List.exists_cons_of_ne_nil hne
  have hstarts : Indentation.startsLine (c :: tail ++ rest) = true := by
    have hc : c ≠ '\n' := fun h => hline (h ▸ List.mem_cons_self)
    simpa [Indentation.startsLine] using hc
  rw [s.place_newline, hstarts, if_pos rfl, s.place_append hline]

/-- A line whose quotes are escaped stays one line. -/
theorem newline_not_mem_escapeQuotes {line : List Char} (h : '\n' ∉ line) :
    '\n' ∉ Printer.escapeQuotes line := by
  intro hmem
  rcases mem_of_mem_escapeQuotes hmem with hmem | hmem
  · exact h hmem
  · exact absurd hmem (by decide)

/-- A line whose quotes are escaped is empty only if it was. -/
theorem escapeQuotes_ne_nil {line : List Char} (h : line ≠ []) : Printer.escapeQuotes line ≠ [] := by
  unfold Printer.escapeQuotes
  split
  · exact absurd rfl h
  · exact List.cons_ne_nil _ _
  · exact List.cons_ne_nil _ _

/-- Lines of a block string are placed by the indentation in front of their margin. -/
theorem place_blockLines {layout : Layout} {lines : List (List Char)}
    (hlines : ∀ line ∈ lines, '\n' ∉ line) (rest : List Char) :
    s.place (lines.flatMap (Printer.blockLine layout.spaces) ++ '\n' :: rest) =
      lines.flatMap (Printer.blockLine (s.margin layout)) ++ s.place ('\n' :: rest) := by
  induction lines with
  | nil => rfl
  | cons line lines ih =>
    obtain ⟨hline, hlines⟩ := List.forall_mem_cons.mp hlines
    rw [List.flatMap_cons, List.flatMap_cons, List.append_assoc, List.append_assoc, ← ih hlines]
    by_cases hempty : line.isEmpty = true
    · have hblank (m : List Char) : Printer.blockLine m line = ['\n'] := if_pos hempty
      -- Behind an empty line stands a line feed, so that nothing is put in.
      have hstarts : Indentation.startsLine
          (lines.flatMap (Printer.blockLine layout.spaces) ++ '\n' :: rest) = false := by
        cases lines with
        | nil => rfl
        | cons next lines =>
          rw [List.flatMap_cons, Printer.blockLine]
          split <;> rfl
      rw [hblank, hblank, List.singleton_append, s.place_newline, hstarts]
      rfl
    · have hfull (m : List Char) :
          Printer.blockLine m line = '\n' :: (m ++ Printer.escapeQuotes line) := if_neg hempty
      have hne : layout.spaces ++ Printer.escapeQuotes line ≠ [] := by
        simp [escapeQuotes_ne_nil (by simpa using hempty)]
      have hspaces : '\n' ∉ layout.spaces ++ Printer.escapeQuotes line := by
        intro hmem
        rcases List.mem_append.mp hmem with hmem | hmem
        · exact absurd (Layout.mem_spaces hmem) (by decide)
        · exact newline_not_mem_escapeQuotes hline hmem
      rw [hfull, hfull, List.cons_append, place_newline_append hne hspaces]
      simp [margin]

/-- In its surroundings every line of a block text stands behind the whole margin. -/
theorem place_blockInner {layout : Layout} (text rest : List Char) :
    s.place (Printer.blockInner layout.spaces text ++ '"' :: rest) =
      Printer.blockInner (s.margin layout) text ++ s.place ('"' :: rest) := by
  unfold Printer.blockInner
  split
  · have hlines : ∀ line ∈ Text.pieces text, '\n' ∉ line :=
      fun line hline h => (Text.mem_of_mem_pieces hline h).2 rfl
    have hspaces : '\n' ∉ layout.spaces ++ ['"'] := by
      intro hmem
      rcases List.mem_append.mp hmem with hmem | hmem
      · exact absurd (Layout.mem_spaces hmem) (by decide)
      · exact absurd hmem (by decide)
    -- The quotes at the end stand on a line of their own, behind the margin of the layout.
    have hend := place_newline_append (s := s) (by simp) hspaces rest
    have hquote : s.place ('"' :: rest) = '"' :: s.place rest := s.place_cons (by decide) rest
    rw [List.append_assoc, List.cons_append, place_blockLines hlines, List.append_cons,
      hend, hquote]
    simp [margin]
  · rename_i hlines
    have hline : '\n' ∉ text := by
      simp only [Printer.needsLines, Bool.or_eq_true, not_or] at hlines
      simpa using hlines.1.1.1
    exact s.place_append (newline_not_mem_escapeQuotes hline) _

/-- No line of a block text has a carriage return that the text does not have. -/
theorem return_not_mem_blockInner {layout : Layout} {text : List Char} (h : '\r' ∉ text) :
    '\r' ∉ Printer.blockInner layout.spaces text := by
  have hescape : ∀ line : List Char, '\r' ∉ line → '\r' ∉ Printer.escapeQuotes line := by
    intro line hline hmem
    rcases mem_of_mem_escapeQuotes hmem with hmem | hmem
    · exact hline hmem
    · exact absurd hmem (by decide)
  have hspaces : '\r' ∉ layout.spaces := fun hmem => absurd (Layout.mem_spaces hmem) (by decide)
  -- Escaping adds backslashes and laying out adds spaces and line feeds.
  unfold Printer.blockInner
  split
  · intro hmem
    rcases List.mem_append.mp hmem with hmem | hmem
    · obtain ⟨line, hline, hmem⟩ := List.mem_flatMap.mp hmem
      unfold Printer.blockLine at hmem
      split at hmem
      · exact absurd hmem (by decide)
      · rcases List.mem_append.mp ((List.mem_cons.mp hmem).resolve_left (by decide)) with hmem | hmem
        · exact hspaces hmem
        · exact hescape line (fun hr => h (Text.mem_of_mem_pieces hline hr).1) hmem
    · exact hspaces ((List.mem_cons.mp hmem).resolve_left (by decide))
  · exact hescape text h

/-- A block text is found again, and read as its lines in their surroundings. -/
theorem Written.block {layout : Layout} {text : List Char} (hbreaks : layout.breaks = true)
    (hreturn : '\r' ∉ text) :
    s.Written (Printer.blockText layout text).toList
      [.lexeme (.string (String.ofList
        (Lexeme.blockValue (Printer.blockInner (s.margin layout) text))))] := by
  rw [Printer.toList_blockText hbreaks]
  refine ⟨fun h => absurd h (List.cons_ne_nil _ _), ?_, fun c hc => ?_, fun rest hrest => ?_⟩
  · simp [return_not_mem_blockInner hreturn]
  · have hconcat : '"' :: '"' :: '"' :: (Printer.blockInner layout.spaces text ++
        ['"', '"', '"']) = ('"' :: '"' :: '"' :: (Printer.blockInner layout.spaces text ++
          ['"', '"'])) ++ ['"'] := by simp
    rw [hconcat, List.getLast?_concat] at hc
    cases hc
    decide
  · -- The quotes stay where they are, and the lines between them are put behind the indentation.
    have hplace : s.place ('"' :: '"' :: '"' :: (Printer.blockInner layout.spaces text ++
        ['"', '"', '"']) ++ rest) =
        '"' :: '"' :: '"' :: (Printer.blockInner (s.margin layout) text ++
          '"' :: '"' :: '"' :: s.place rest) := by
      simp only [List.cons_append, List.append_assoc, List.nil_append]
      rw [s.place_cons (by decide), s.place_cons (by decide), s.place_cons (by decide),
        place_blockInner, s.place_cons (by decide), s.place_cons (by decide),
        s.place_cons (by decide)]
    rw [scan?, hplace, Glyph.scan?_cons (by decide) (by decide), Lexeme.first?, Lexeme.block?,
      Lexeme.untilQuotes?_blockInner (isMargin_margin layout)]
    rfl

/-- A text is found again. -/
theorem Written.text (layout : Layout) (preferBlock : Bool) (text : String) :
    s.Written (Printer.text layout preferBlock text).toList
      [.lexeme (.string (s.reread layout preferBlock text))] := by
  rw [Printer.text_eq, reread]
  split
  · rename_i hblock
    simp only [Printer.isBlock, Bool.and_eq_true] at hblock
    exact .block hblock.1.1 (Lexeme.fitsBlock_of_eq_true hblock.2).noReturn
  · exact .quoted text

end Surroundings
end EmbeddedGraphQL
