import EmbeddedGraphQL.Proofs.Document.RereadDefinitions

/-!
# Reprinting a text

A text that is a document is replaced by the printed document between the blanks of the text. What
stands there is read as the same document exactly if each definition can be read from what is
printed for it, the blanks behind the document may stand between tokens, and no carriage return in
the indentation breaks a text over several lines.

* `Glyph.scan?_blanks`: blanks in front of a text are ignored or make it unreadable.
* `Document.surroundings`: what stands around a document that was read from a text.
* `Document.Survives`: whether a document is read again.
* `Document.parse?_restore_iff`: it is read again exactly then.
-/

namespace EmbeddedGraphQL

/-! ## Blanks -/

namespace Lexeme

/-- No lexeme starts with a blank. -/
theorem first?_blank {c : Char} (h : Text.isBlank c = true) (text : List Char) :
    first? (c :: text) = none := by
  -- A blank is none of the characters that a lexeme starts with, one kind after the other.
  have hfree : isFree [c] = true := isFree_of_isBlank (by simpa using h)
  obtain ⟨hcontinue, hdot, hquote⟩ := ne_of_isFree hfree
  have hmark : isMark c = false := by
    refine Bool.eq_false_iff.mpr fun hmark => ?_
    simp only [isMark, decide_eq_true_eq, List.mem_cons, List.not_mem_nil, or_false] at hmark
    rcases hmark with rfl | rfl | rfl | rfl | rfl | rfl | rfl | rfl | rfl | rfl | rfl | rfl | rfl <;>
      exact absurd h (by decide)
  have hstart : isNameStart c = false :=
    Bool.eq_false_iff.mpr fun hstart => by
      rw [isNameContinue_of_isNameStart hstart] at hcontinue
      cases hcontinue
  have hdigit : c.isDigit = false :=
    Bool.eq_false_iff.mpr fun hdigit => by
      rw [isNameContinue_of_isDigit hdigit] at hcontinue
      cases hcontinue
  have hminus : c ≠ '-' := by
    rintro rfl
    exact absurd h (by decide)
  have hsign : minusSign (c :: text) = ([], c :: text) := by
    unfold minusSign
    split
    · rename_i heq
      cases heq
      exact absurd rfl hminus
    · rfl
  rw [first?_cons hdot hquote, hmark, hstart, if_neg Bool.false_ne_true, if_neg Bool.false_ne_true,
    number?_eq, hsign, List.takeWhile_cons, hdigit]
  rfl

end Lexeme

namespace Glyph

/-- Blanks in front of a text are ignored, or one of them makes it unreadable. -/
theorem scan?_blanks {blanks : List Char} (h : ∀ c ∈ blanks, Text.isBlank c = true)
    (text : List Char) :
    scan? (blanks ++ text) = if blanks.all Lexeme.isIgnored then scan? text else none := by
  induction blanks with
  | nil => rfl
  | cons c blanks ih =>
    obtain ⟨hc, hblanks⟩ := List.forall_mem_cons.mp h
    have hcomma : c ≠ ',' := by
      rintro rfl
      exact absurd hc (by decide)
    have hcomment : c ≠ '#' := by
      rintro rfl
      exact absurd hc (by decide)
    rw [List.cons_append, List.all_cons]
    cases hignored : Lexeme.isIgnored c with
    | true => rw [scan?_ignored hignored hcomma, ih hblanks, Bool.true_and]
    | false =>
      rw [scan?_cons hignored hcomment, Lexeme.first?_blank hc, Bool.false_and]
      rfl

end Glyph

/-! ## The place of a document -/

namespace Document

variable {content : String} {d : Document}

/-- A text that is a document has glyphs. -/
theorem exists_glyphs (h : parse? content = some d) :
    ∃ gs, Glyph.scan? content.toList = some gs ∧ gs ≠ [] := by
  obtain ⟨tokens, c, htokens, hread, hne⟩ := parse?_eq_some_iff.mp h
  have hkeys := Token.map_key_scan? content.toList
  rw [htokens, Option.map_some] at hkeys
  obtain ⟨gs, hscan, hgs⟩ := Option.map_eq_some_iff.mp hkeys.symm
  refine ⟨gs, hscan, ?_⟩
  rintro rfl
  -- Without a token there is no definition.
  obtain rfl := List.map_eq_nil_iff.mp hgs.symm
  have hread : some ([], (⟨[], 0⟩ : Cursor)) = some (d.definitions, c) := hread
  rw [Option.some.injEq, Prod.mk.injEq] at hread
  exact hne hread.1.symm

/-- A text that is a document is not blank. -/
theorem isAllBlank_of_parse? (h : parse? content = some d) :
    Text.isAllBlank content.toList = false := by
  obtain ⟨gs, hscan, hgs⟩ := exists_glyphs h
  refine Bool.eq_false_iff.mpr fun hblank => ?_
  have hall := Glyph.scan?_blanks (List.all_eq_true.mp hblank) []
  rw [List.append_nil, hscan] at hall
  split at hall
  · cases hall
    exact hgs rfl
  · cases hall

/-- The blanks in front of a document may stand between tokens. -/
theorem isIgnored_leadingBlanks (h : parse? content = some d) :
    ∀ c ∈ Text.leadingBlanks content.toList, Lexeme.isIgnored c = true := by
  obtain ⟨gs, hscan, -⟩ := exists_glyphs h
  have hblanks : ∀ c ∈ Text.leadingBlanks content.toList, Text.isBlank c = true :=
    fun _ => Text.isBlank_of_mem_leadingBlanks
  have hall := Glyph.scan?_blanks hblanks (Text.trimStart content.toList)
  rw [Text.leadingBlanks_append_trimStart, hscan] at hall
  split at hall
  · rename_i hignored
    exact List.all_eq_true.mp hignored
  · cases hall

/-- What stands around a document that was read from a text. -/
def surroundings (h : parse? content = some d) : Surroundings where
  indent := Indentation.lastPiece (Text.leadingBlanks content.toList)
  trailing := Text.trailingBlanks content.toList
  indent_eq := by
    intro c hc
    obtain ⟨hmem, hnewline⟩ := Indentation.mem_lastPiece hc
    have hblank := Text.isBlank_of_mem_leadingBlanks hmem
    have hignored := isIgnored_leadingBlanks h c hmem
    simp only [Lexeme.isIgnored, decide_eq_true_eq, List.mem_cons, List.not_mem_nil, or_false]
      at hignored
    rcases hignored with rfl | rfl | rfl | rfl | rfl | rfl
    · exact Or.inl rfl
    · exact Or.inr (Or.inl rfl)
    · exact absurd rfl hnewline
    · exact Or.inr (Or.inr rfl)
    · exact absurd hblank (by decide)
    · exact absurd hblank (by decide)
  isBlank_trailing _ := Text.isBlank_of_mem_trailingBlanks

/-- The glyphs of what is put in the place of a document: those of the document, if the blanks
behind it may stand between tokens. -/
theorem scan?_restore (h : parse? content = some d) :
    Glyph.scan? (Indentation.restoreString content d.pretty).toList =
      if (Text.trailingBlanks content.toList).all Lexeme.isIgnored then
        some ((surroundings h).definitionsGlyphs (.lines 0) d.definitions).flatten
      else none := by
  have hgrammatical := grammatical_of_parse? h
  have hwritten := Surroundings.Written.definitions (s := surroundings h) hgrammatical.nonempty
    hgrammatical.definitions
  obtain ⟨c, rest, htext, hc⟩ := Surroundings.startsSolid_definitions hgrammatical.nonempty
  have hpretty : d.pretty.toList =
      ("\n\n".intercalate (Printer.definitions (.lines 0) d.definitions)).toList ++ ['\n'] := by
    rw [pretty, String.toList_append]
    rfl
  -- The printed text has neither blanks at its ends nor carriage returns, so that restoring puts it
  -- between the blanks of the content.
  have hrestore := Indentation.restore_eq (isAllBlank_of_parse? h) (by simp [htext])
    hwritten.noReturn (by simp [htext, hc]) hwritten.solid
  rw [Indentation.restoreString, String.toList_ofList, hpretty, hrestore,
    Glyph.scan?_blanks fun _ => Text.isBlank_of_mem_leadingBlanks,
    if_pos (List.all_eq_true.mpr (isIgnored_leadingBlanks h))]
  -- What is left are the glyphs of the printed text and those of the blanks behind it.
  have hscan := hwritten.scan [] rfl
  have htrailing := Glyph.scan?_blanks (surroundings h).isBlank_trailing []
  rw [List.append_nil] at hscan htrailing
  show (surroundings h).scan? _ = _
  rw [hscan]
  show (Glyph.scan? (surroundings h).trailing).map _ = _
  rw [htrailing]
  show Option.map _ (if (Text.trailingBlanks content.toList).all Lexeme.isIgnored then _ else _) = _
  split
  · simp
  · rfl

/-- Whether a document that was read from a text is read again from what is put in its place. -/
structure Survives (d : Document) (content : String) : Prop where
  /-- Each definition can be read from what is printed for it. -/
  definitions : d.Reprintable
  /-- The blanks behind the document may stand between tokens. -/
  trailing : (Text.trailingBlanks content.toList).all Lexeme.isIgnored = true
  /-- If the indentation has a carriage return, no text is printed over several lines. -/
  indentation : '\r' ∈ Indentation.lastPiece (Text.leadingBlanks content.toList) →
    d.spansLines = false

/-- A document survives if it meets the three conditions at once. -/
theorem survives_iff :
    d.Survives content ↔ d.Reprintable ∧
      (Text.trailingBlanks content.toList).all Lexeme.isIgnored = true ∧
      ('\r' ∈ Indentation.lastPiece (Text.leadingBlanks content.toList) → d.spansLines = false) :=
  ⟨fun h => ⟨h.definitions, h.trailing, h.indentation⟩, fun ⟨h, h', h''⟩ => ⟨h, h', h''⟩⟩

/-- Whether a document that is printed in the place of its text survives can be decided. -/
instance : Decidable (d.Survives content) := decidable_of_iff _ survives_iff.symm

/-- A document that is read from what is put in the place of another one is that document again,
texts over several lines apart. -/
theorem rereads_of_parse?_restore (h : parse? content = some d) {e : Document}
    (he : parse? (Indentation.restoreString content d.pretty) = some e) :
    d.Reprintable ∧ (Text.trailingBlanks content.toList).all Lexeme.isIgnored = true ∧
      (surroundings h).Rereads (d.same e) d.spansLines := by
  have hgrammatical := grammatical_of_parse? h
  have hscan := scan?_restore h
  obtain ⟨gs, hgs, -⟩ := exists_glyphs he
  by_cases htrailing : (Text.trailingBlanks content.toList).all Lexeme.isIgnored = true
  · rw [if_pos htrailing] at hscan
    have hall : d.Reprintable := Decidable.byContradiction fun hall => by
      rw [parse?_eq_none_of_scan? hgrammatical hall hscan] at he
      cases he
    obtain ⟨e', he', hreread⟩ := parse?_of_scan? hgrammatical hall hscan
    rw [he, Option.some.injEq] at he'
    subst he'
    exact ⟨hall, htrailing, hreread⟩
  · rw [if_neg htrailing, hgs] at hscan
    cases hscan

/-- What is put in the place of a document is the same document exactly if the document
survives. -/
theorem parse?_restore_iff (h : parse? content = some d) :
    (∃ e, parse? (Indentation.restoreString content d.pretty) = some e ∧ d.same e = true) ↔
      d.Survives content := by
  constructor
  · rintro ⟨e, hparse, hsame⟩
    obtain ⟨hall, htrailing, hreread⟩ := rereads_of_parse?_restore h hparse
    exact ⟨hall, htrailing, hreread.eq_true_iff.mp hsame⟩
  · intro hsurvives
    have hscan := scan?_restore h
    rw [if_pos hsurvives.trailing] at hscan
    obtain ⟨e, hparse, hreread⟩ :=
      parse?_of_scan? (grammatical_of_parse? h) hsurvives.definitions hscan
    exact ⟨e, hparse, hreread.eq_true_iff.mpr hsurvives.indentation⟩

end Document
end EmbeddedGraphQL
