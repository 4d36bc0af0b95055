import EmbeddedGraphQL.Proofs.Document.RereadDefinitions

/-!
# Reading what was printed

A grammatical document that is printed on its own is read as the same document exactly if each of
its definitions can be read from what is printed for it.

* `Surroundings.plain`: nothing stands around the text.
* `Document.parse?_pretty_iff`: when a printed document is read again.
* `Fragment.exists_parse?_printed`: a fragment that is printed is read again.
-/

namespace EmbeddedGraphQL

/-! ## Nothing around the text -/

/-- Without indentation, lines stay where they are. -/
theorem Indentation.reindent_noIndent (text : List Char) : reindent [] text = text := by
  induction text with
  | nil => rfl
  | cons c text ih =>
    rw [reindent, ih]
    split <;> simp

namespace Surroundings

/-- Nothing stands around the text. -/
def plain : Surroundings := ⟨[], [], by simp, by simp⟩

/-- Without surroundings a text is placed as it stands. -/
theorem place_plain (text : List Char) : plain.place text = text := by
  rw [place, plain, Indentation.reindent_noIndent, List.append_nil]

end Surroundings

/-! ## Documents -/

namespace Document

variable {d : Document} {text : String}

/-- A text with the glyphs of a grammatical document and nothing around them is read as the same
document exactly if each definition can be. -/
theorem parse?_same_iff_of_scan? (h : d.Grammatical)
    (hscan : Glyph.scan? text.toList =
      some (Surroundings.plain.definitionsGlyphs (.lines 0) d.definitions).flatten) :
    (∃ e, parse? text = some e ∧ d.same e = true) ↔ d.Reprintable := by
  constructor
  · rintro ⟨e, hparse, -⟩
    refine Decidable.byContradiction fun hsome => ?_
    rw [parse?_eq_none_of_scan? h hsome hscan] at hparse
    cases hparse
  · intro hall
    obtain ⟨e, hparse, hreread⟩ := parse?_of_scan? h hall hscan
    -- There is no indentation, so that no text over several lines is broken.
    exact ⟨e, hparse, hreread.eq_true_iff.mpr nofun⟩

/-- The glyphs of the printed definitions of a grammatical document, with nothing or an empty line
behind them. -/
theorem scan?_printed (h : d.Grammatical) {rest : List Char} (hfree : isFree rest = true)
    (hrest : Glyph.scan? rest = some []) :
    Glyph.scan? (("\n\n".intercalate (Printer.definitions (.lines 0) d.definitions)).toList ++
      rest) = some (Surroundings.plain.definitionsGlyphs (.lines 0) d.definitions).flatten := by
  have hwritten := Surroundings.Written.definitions (s := .plain) h.nonempty h.definitions
  have hscan := hwritten.scan rest hfree
  simp only [Surroundings.scan?, Surroundings.place_plain] at hscan
  rw [hscan, hrest, Option.map_some, List.append_nil]

/-- A grammatical document is read from its printed form exactly if each definition can be. -/
theorem parse?_pretty_iff (h : d.Grammatical) :
    (∃ e, parse? d.pretty = some e ∧ d.same e = true) ↔ d.Reprintable := by
  refine parse?_same_iff_of_scan? h ?_
  rw [pretty, String.toList_append]
  exact scan?_printed h rfl rfl

end Document

/-- A grammatical fragment that is printed is read as the same fragment. -/
theorem Fragment.exists_parse?_printed {f : Fragment} (h : f.Grammatical) :
    ∃ e, Document.parse? (Printer.fragment (.lines 0) f) = some e ∧
      Document.same ⟨[.fragment f]⟩ e = true := by
  have hd : Document.Grammatical ⟨[.fragment f]⟩ := ⟨by simp, List.forall_mem_singleton.mpr h⟩
  refine (Document.parse?_same_iff_of_scan? hd ?_).mpr (List.forall_mem_singleton.mpr trivial)
  have hscan := Document.scan?_printed hd (rfl : isFree [] = true) rfl
  rwa [List.append_nil, Printer.definitions, List.map_nil, String.intercalate_singleton] at hscan

end EmbeddedGraphQL
