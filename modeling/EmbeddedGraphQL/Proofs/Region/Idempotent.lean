import EmbeddedGraphQL.Proofs.Document.SamePrinted
import EmbeddedGraphQL.Proofs.Document.Unbroken
import EmbeddedGraphQL.Proofs.Indentation.Restored

/-!
# Formatting twice

A text that is GraphQL throughout is one region. Formatting it puts the printed document between the
blanks of the text, and these are the blanks of the formatted text, too. So if the formatted text is
read as the same document, it is printed the same way and put in the same place; and if it is not
read at all, it stays as it is. In between there is one case: with a carriage return in the
indentation, a text that is printed over several lines is read with further lines, which are printed
again.

* `Document.restoreString_restoreString`: a printed document that is put in its own place stays.
* `Region.reprint_reprint`: a text that is reprinted twice.
* `formatCommand_idempotent`: formatting a GraphQL file twice.
-/

namespace EmbeddedGraphQL

/-! ## Reprinting twice -/

namespace Document

/-- The printed document is put in its own place without a change. -/
theorem restoreString_restoreString {content : String} {d : Document}
    (h : parse? content = some d) :
    Indentation.restoreString (Indentation.restoreString content d.pretty) d.pretty =
      Indentation.restoreString content d.pretty := by
  obtain ⟨c, rest, htext, hc⟩ :=
    Surroundings.startsSolid_definitions (grammatical_of_parse? h).nonempty
  have hpretty : d.pretty.toList = c :: rest ++ ['\n'] := by
    rw [pretty, String.toList_append, htext]
    rfl
  have hsome : Text.isAllBlank d.pretty.toList = false := by
    simp [hpretty, Text.isAllBlank, hc]
  rw [Indentation.restoreString, Indentation.restoreString, String.toList_ofList,
    Indentation.restore_restore hsome]

end Document

namespace Region

/-- A text that is reprinted twice is the text that is reprinted once, unless a carriage return in
its indentation breaks a text over several lines. -/
theorem reprint_reprint {content : String}
    (h : ∀ d, Document.parse? content = some d → d.Reprintable →
      '\r' ∈ Indentation.lastPiece (Text.leadingBlanks content.toList) → d.spansLines = false) :
    reprint (reprint content) = reprint content := by
  cases hd : Document.parse? content with
  | none =>
    have hsame : reprint content = content := by rw [reprint, hd]
    rw [hsame, hsame]
  | some d =>
    have hnew : reprint content = Indentation.restoreString content d.pretty := by rw [reprint, hd]
    rw [hnew, reprint]
    split
    · rfl
    · rename_i e he
      -- It is read again, so that it is the same document and printed alike.
      obtain ⟨hall, -, hreread⟩ := Document.rereads_of_parse?_restore hd he
      have hsame := hreread.eq_true_iff.mpr (h d hd hall)
      rw [← Document.pretty_eq_of_same hsame, Document.restoreString_restoreString hd]

end Region

/-! ## Formatting twice -/

/-- A host text with its regions replaced. -/
def Extractor.reformat (e : Extractor) (text : String) : String :=
  Region.reformat (e.extract text) text

/-- A text that is GraphQL throughout is reprinted, whatever the tags are. -/
theorem Extractor.reformat_graphQL (tags : List String) (text : String) :
    (⟨.graphQL, tags⟩ : Extractor).reformat text = Region.reprint text := by
  have hreplace := Region.replaceIn_append [] text.toList []
    (r := wholeText text) (by simp [wholeText]) rfl (Text.byteLength_toList text).symm
  rw [List.nil_append, List.append_nil, List.nil_append, List.append_nil,
    String.ofList_toList] at hreplace
  show String.ofList (Region.replaceIn text.toList (wholeText text)) = _
  rw [hreplace, String.ofList_toList]

/-- The formatting command on a GraphQL file that holds a text, with settings that can be used. -/
structure FormatRun (text : String) where
  /-- The file tree. -/
  tree : FileTree
  /-- The configuration file that is given, if any. -/
  given : Option String
  /-- The path of the file. -/
  path : String
  /-- Whether the text is written in place. -/
  write : Bool
  /-- The settings that count for the file. -/
  settings : ExtractSettings
  reads : HostFile.read tree path = .ok ⟨path, text, .graphQL⟩
  hasSettings : tree.extractSettingsFor given path = .ok settings

namespace FormatRun

variable {text : String}

/-- The file that is formatted. -/
def file (run : FormatRun text) : HostFile := ⟨run.path, text, .graphQL⟩

/-- What the command leads to. -/
def outcome (run : FormatRun text) : Except CommandError Outcome :=
  formatCommand run.tree run.given run.path run.write

/-- A run gives the reprinted text, and writes nothing if that is the text of the file. -/
theorem exists_outcome (run : FormatRun text) :
    ∃ outcome, run.outcome = .ok outcome ∧
      outcome.formatted run.write run.file = Region.reprint text ∧
      (Region.reprint text = text → outcome.files = []) := by
  have htext := Extractor.reformat_graphQL run.settings.tags text
  obtain ⟨outcome, houtcome, hshown, hwritten⟩ :=
    exists_formatCommand_files run.reads run.hasSettings run.write htext
  refine ⟨outcome, houtcome, ?_⟩
  cases hwrite : run.write with
  | true =>
    have hfiles := hwritten hwrite
    exact ⟨Outcome.formatted_written hfiles, fun hsame => hfiles.trans (if_pos hsame)⟩
  | false => exact ⟨(hshown hwrite).1, fun _ => (hshown hwrite).2⟩

end FormatRun

/-- Formatting a text that is GraphQL throughout a second time changes nothing, whatever the tags
and the settings of the two runs are: the text of the first run is shown again, and not written to
its file. If the indentation of the text has a carriage return, no token of the printed document may
hold a line feed. -/
theorem formatCommand_idempotent {text : String}
    (h : ∀ d, Document.parse? text = some d →
      '\r' ∈ Indentation.lastPiece (Text.leadingBlanks text.toList) →
      Token.Unbroken d.pretty.toList) :
    (∀ tags tags' : List String,
      (⟨.graphQL, tags'⟩ : Extractor).reformat ((⟨.graphQL, tags⟩ : Extractor).reformat text) =
        (⟨.graphQL, tags⟩ : Extractor).reformat text) ∧
      ∀ first : FormatRun text, ∃ outcome, first.outcome = .ok outcome ∧
        outcome.formatted first.write first.file =
          (⟨.graphQL, first.settings.tags⟩ : Extractor).reformat text ∧
        ∀ (new : String) (second : FormatRun new), new = outcome.formatted first.write first.file →
          ∃ outcome', second.outcome = .ok outcome' ∧
            outcome'.formatted second.write second.file = new ∧ outcome'.files = [] := by
  -- The text is one region, so that formatting is reprinting it.
  have htwice : Region.reprint (Region.reprint text) = Region.reprint text :=
    Region.reprint_reprint fun d hd hall hreturn =>
      Document.spansLines_of_unbroken (Document.grammatical_of_parse? hd) hall (h d hd hreturn)
  constructor
  · intro tags tags'
    rw [Extractor.reformat_graphQL, Extractor.reformat_graphQL, htwice]
  · intro first
    obtain ⟨outcome, houtcome, hformatted, -⟩ := first.exists_outcome
    refine ⟨outcome, houtcome, hformatted.trans (Extractor.reformat_graphQL _ _).symm, ?_⟩
    rintro new second hnew
    -- The second run starts from what the first one has reprinted.
    have hfixed : Region.reprint new = new := by rw [hnew, hformatted, htwice]
    obtain ⟨outcome', houtcome', hformatted', hfiles⟩ := second.exists_outcome
    exact ⟨outcome', houtcome', hformatted'.trans hfixed, hfiles hfixed⟩

/-- A carriage return in the indentation may break a text over several lines. -/
example :
    let e : Extractor := ⟨.graphQL, ["relay"]⟩
    let text := "\r\"\"\"a\nb\"\"\" type T"
    e.reformat (e.reformat text) ≠ e.reformat text := by
  decide +kernel

/-- A file tree with one file, which holds GraphQL. -/
def graphQLTree (text : String) : FileTree := ⟨[], [(["a.graphql"], .file (some text))]⟩

/-- A query behind a blank and a carriage return. -/
def returnedQuery : String := "\n \r\x7b a(b: \"x\") \x7d\r\n"

/-- The query with its lines behind the blank and the carriage return. -/
def shiftedQuery : String := "\n \r\x7b\n \r  a(b: \"x\")\n \r\x7d\r\n"

/-- The query is written to its file, and then nothing is. -/
theorem formatCommand_idempotent_returnedQuery :
    (∃ outcome, formatCommand (graphQLTree returnedQuery) none "a.graphql" true = .ok outcome ∧
      outcome.formatted true ⟨"a.graphql", returnedQuery, .graphQL⟩ = shiftedQuery) ∧
    ∃ outcome, formatCommand (graphQLTree shiftedQuery) none "a.graphql" true = .ok outcome ∧
      outcome.files = [] := by
  have hparse : ∀ d, Document.parse? returnedQuery = some d → Token.Unbroken d.pretty.toList := by
    have hall : (Document.parse? returnedQuery).all
        (fun d => decide (Token.Unbroken d.pretty.toList)) = true := by
      decide +kernel
    intro d hd
    rw [hd] at hall
    exact of_decide_eq_true hall
  let first : FormatRun returnedQuery :=
    ⟨graphQLTree returnedQuery, none, "a.graphql", true, {}, rfl, rfl⟩
  let second : FormatRun shiftedQuery :=
    ⟨graphQLTree shiftedQuery, none, "a.graphql", true, {}, rfl, rfl⟩
  obtain ⟨outcome, houtcome, hformatted, hsecond⟩ :=
    (formatCommand_idempotent fun d hd _ => hparse d hd).2 first
  have hshifted : outcome.formatted true ⟨"a.graphql", returnedQuery, .graphQL⟩ = shiftedQuery :=
    hformatted.trans (by decide +kernel)
  obtain ⟨outcome', houtcome', -, hfiles⟩ := hsecond shiftedQuery second hshifted.symm
  exact ⟨⟨outcome, houtcome, hshifted⟩, outcome', houtcome', hfiles⟩

end EmbeddedGraphQL
