import EmbeddedGraphQL.CommandLine.Edit
import EmbeddedGraphQL.Proofs.Document.Reprinting
import EmbeddedGraphQL.Proofs.Region.Splitting

/-!
# Formatting keeps regions

Formatting a host file replaces the regions that are documents. The regions of the new text are the
replacements, and these are the same documents, exactly if every replacement is sealed and every
document survives being reprinted. A text with a backtick in it is one that is printed unsealed.

* `FileTree.accepted_of_extractSettingsFor`: the settings that count for a file have tags, and
  nothing but tags.
* `Region.Intact`: the regions of a text are intact in another text.
* `Region.intact_reformat_iff`: when the regions of a text are intact after they are replaced.
* `formatCommand_intact_iff`: when the regions of a file are intact after it is formatted.
-/

namespace EmbeddedGraphQL

/-! ## Accepted tags -/

/-- Whether a list of tags is accepted: there is one, and all of them are tags. -/
def AcceptedTags (tags : List String) : Prop := tags ≠ [] ∧ ∀ tag ∈ tags, isTag tag = true

namespace ProjectConfig

/-- A configuration that can be used has accepted tags. -/
theorem accepted_of_problem? {c : ProjectConfig} (h : c.problem? = none) :
    AcceptedTags c.extract.tags := by
  unfold problem? at h
  split at h
  · cases h
  · split at h
    · cases h
    · split at h
      · cases h
      · split at h
        · cases h
        · rename_i htags
          split at h
          · cases h
          · rename_i hfind
            refine ⟨by simpa using htags, fun tag htag => ?_⟩
            simpa using List.find?_eq_none.mp hfind tag htag

/-- A configuration that is loaded has no problem. -/
theorem problem?_of_load {contents path : String} {c : ProjectConfig}
    (h : load contents path = .ok c) : c.problem? = none := by
  unfold load at h
  split at h
  · cases h
  · split at h
    · cases h
    · split at h
      · cases h
      · rename_i hproblem
        cases h
        exact hproblem

end ProjectConfig

namespace FileTree

/-- The tags of a configuration that is read from a tree are accepted. -/
theorem accepted_of_configAt {tree : FileTree} {path : String} {found : String × ProjectConfig}
    (h : tree.configAt path = .ok found) : AcceptedTags found.2.extract.tags := by
  unfold configAt loadConfig at h
  split at h
  · rename_i config hload
    cases h
    split at hload
    · cases hload
    · exact ProjectConfig.accepted_of_problem? (ProjectConfig.problem?_of_load hload)
  · cases h

/-- A success hands its value on. -/
theorem ok_bind {ε α β : Type} (x : α) (f : α → Except ε β) : (Except.ok x >>= f) = f x := rfl

/-- A success with a value, made by wrapping, is a success before it. -/
theorem eq_ok_of_map_some {ε α : Type} {x : Except ε α} {a : α}
    (h : x.map some = .ok (some a)) : x = .ok a := by
  cases x with
  | error e => cases h
  | ok b =>
    cases h
    rfl

/-- A success with a value, returned from a block, is a success before it. -/
theorem eq_ok_of_bind_some {ε α : Type} {x : Except ε α} {a : α}
    (h : (do return some (← x)) = Except.ok (some a)) : x = .ok a := by
  cases x with
  | error e => cases h
  | ok b =>
    cases h
    rfl

/-- The tags of the configuration for a path are accepted, wherever it is found. -/
theorem accepted_of_configFor {tree : FileTree} {given : Option String} {path : String}
    {found : String × ProjectConfig} (h : tree.configFor given path = .ok (some found)) :
    AcceptedTags found.2.extract.tags := by
  -- A configuration is given, or it is the one that is found for the path.
  have hfound : ∃ configPath, tree.configAt configPath = .ok found := by
    cases given with
    | some configPath =>
      rw [configFor] at h
      exact ⟨configPath, eq_ok_of_map_some h⟩
    | none =>
      rw [configFor] at h
      cases hdirectory : tree.searchDirectory path with
      | error e =>
        rw [hdirectory] at h
        cases h
      | ok directory =>
        rw [hdirectory, ok_bind] at h
        split at h
        · cases h
        · rename_i configPath _
          exact ⟨configPath, eq_ok_of_bind_some h⟩
  obtain ⟨configPath, hconfig⟩ := hfound
  exact accepted_of_configAt hconfig

/-- The settings that count for a path have accepted tags, whether they come from a configuration
or not. -/
theorem accepted_of_extractSettingsFor {tree : FileTree} {given : Option String} {path : String}
    {settings : ExtractSettings} (h : tree.extractSettingsFor given path = .ok settings) :
    AcceptedTags settings.tags := by
  unfold extractSettingsFor at h
  cases hconfig : tree.configFor given path with
  | error e =>
    rw [hconfig] at h
    cases h
  | ok found =>
    rw [hconfig] at h
    cases found with
    | none =>
      cases h
      exact ⟨by simp, by decide⟩
    | some found =>
      cases h
      exact accepted_of_configFor hconfig

end FileTree

/-- A tag has no characters but letters, digits, underscores and dots. -/
theorem not_mem_of_isTag {tag : String} (h : isTag tag = true) {c : Char}
    (hc : (Text.isAlphanumeric c || c == '_' || c == '.') = false) : c ∉ tag.toList := by
  intro hmem
  rw [isTag, Bool.and_eq_true, List.all_eq_true] at h
  rw [h.2 c hmem] at hc
  cases hc

/-- A tag has no backtick. -/
theorem backtick_not_mem_of_isTag {tag : String} (h : isTag tag = true) : '`' ∉ tag.toList :=
  not_mem_of_isTag h (by decide +kernel)

/-! ## Regions after formatting -/

namespace Region

/-- Whether the regions of a text are intact in another text: there are as many, each with what it
is replaced by as its content, and a region that was a document is the same document. -/
structure Intact (e : Extractor) (before after : String) : Prop where
  contents : (e.extract after).map content =
    (e.extract before).map fun r => r.replacement?.getD r.content
  documents : ∀ (i : Nat) (r r' : Region), (e.extract before)[i]? = some r →
    (e.extract after)[i]? = some r' → ∀ d, Document.parse? r.content = some d →
      ∃ d', Document.parse? r'.content = some d' ∧ d.same d' = true

/-- With its replacement, or as it stands, a region holds its reprint. -/
theorem getD_replacement? (r : Region) : r.replacement?.getD r.content = reprint r.content := by
  unfold replacement? reprint
  cases Document.parse? r.content <;> rfl

/-- Whether a region that is a document is found and read again when it is replaced: its
replacement is sealed and the document survives. -/
def Keeps (r : Region) : Prop :=
  ∀ d, Document.parse? r.content = some d →
    Text.isSealed (r.printed d).toList = true ∧ d.Survives r.content

/-- Whether a replaced region is found and read again can be decided by reading its content. -/
instance (r : Region) : Decidable r.Keeps :=
  match h : Document.parse? r.content with
  | none => isTrue fun _ hd => nomatch h.symm.trans hd
  | some d =>
    decidable_of_iff (Text.isSealed (r.printed d).toList = true ∧ d.Survives r.content)
      ⟨fun hkeeps _ hd => Option.some.inj (h.symm.trans hd) ▸ hkeeps, fun hkeeps => hkeeps d h⟩

/-- The regions of a host text are intact after they are replaced exactly if each of them keeps. -/
theorem intact_reformat_iff {e : Extractor} (hlanguage : e.language.isEmbedded = true)
    (htags : ∀ tag ∈ e.tags, isTag tag = true) (text : String) :
    Intact e text (reformat (e.extract text) text) ↔ ∀ r ∈ e.extract text, r.Keeps := by
  have hbacktick : ∀ tag ∈ e.tags, '`' ∉ tag.toList :=
    fun tag htag => backtick_not_mem_of_isTag (htags tag htag)
  have hiff := contents_reformat_iff hlanguage hbacktick text
  have hnew : ((e.extract text).map fun r => r.replacement?.getD r.content) =
      (e.extract text).map fun r => reprint r.content := by simp only [getD_replacement?]
  constructor
  · intro h r hr d hd
    have hsealed := hiff.mp (h.contents.trans hnew) r hr
    have hreprint : reprint r.content = r.printed d := by
      rw [reprint, hd, printed]
    rw [hreprint] at hsealed
    refine ⟨hsealed, (Document.parse?_restore_iff hd).mp ?_⟩
    -- The region that stands in the same place of the new text has the replacement as content.
    obtain ⟨i, hi⟩ := List.getElem?_of_mem hr
    have hcontent := congrArg (·[i]?) (h.contents.trans hnew)
    simp only [List.getElem?_map, hi, Option.map_some] at hcontent
    obtain ⟨r', hr', hcontent⟩ := Option.map_eq_some_iff.mp hcontent
    obtain ⟨d', hd', hsame⟩ := h.documents i r r' hi hr' d hd
    rw [hcontent, hreprint] at hd'
    exact ⟨d', hd', hsame⟩
  · intro h
    have hsealed : ∀ r ∈ e.extract text, Text.isSealed (reprint r.content).toList = true := by
      intro r hr
      unfold reprint
      split
      · exact isSealed_content hlanguage hbacktick text r hr
      · rename_i d hd
        exact (h r hr d hd).1
    have hcontents := hiff.mpr hsealed
    refine ⟨hcontents.trans hnew.symm, fun i r r' hr hr' d hd => ?_⟩
    have hcontent := congrArg (·[i]?) hcontents
    simp only [List.getElem?_map, hr, hr', Option.map_some, Option.some.injEq] at hcontent
    rw [hcontent, reprint, hd]
    have hkeeps := h r (List.mem_of_getElem? hr) d hd
    exact (Document.parse?_restore_iff hd).mpr hkeeps.2

end Region

/-! ## The command -/

/-- The text that formatting a file gives: what is shown or, in place, what the file holds then. -/
def Outcome.formatted (outcome : Outcome) (write : Bool) (file : HostFile) : String :=
  if write then ((outcome.files.find? (·.1 = file.path)).map (·.2)).getD file.text
  else outcome.output

/-- A command that writes exactly the changed text leaves the file with that text. -/
theorem Outcome.formatted_written {outcome : Outcome} {file : HostFile} {text : String}
    (h : outcome.files = if text = file.text then [] else [(file.path, text)]) :
    outcome.formatted true file = text := by
  rw [formatted, if_pos rfl, h]
  split
  · rename_i htext
    simp [htext]
  · simp

/-- Formatting a file shows its text with the regions replaced, or writes it if it has changed. -/
theorem exists_formatCommand_files {tree : FileTree} {given : Option String} {path : String}
    {file : HostFile} {settings : ExtractSettings} (hfile : HostFile.read tree path = .ok file)
    (hsettings : tree.extractSettingsFor given path = .ok settings) (write : Bool) {text : String}
    (htext : Region.reformat ((⟨file.language, settings.tags⟩ : Extractor).extract file.text)
      file.text = text) :
    ∃ outcome, formatCommand tree given path write = .ok outcome ∧
      (write = false → outcome.output = text ∧ outcome.files = []) ∧
      (write = true → outcome.files = if text = file.text then [] else [(file.path, text)]) := by
  have hpath : file.path = path := by
    unfold HostFile.read at hfile
    split at hfile
    · cases hfile
    · split at hfile
      · cases hfile
      · cases hfile
        rfl
  have hmake : file.extractor settings.tags = .ok ⟨file.language, settings.tags⟩ := by
    have hne := (FileTree.accepted_of_extractSettingsFor hsettings).1
    rw [HostFile.extractor, Extractor.make, if_neg (by simpa using hne)]
  unfold formatCommand
  simp only [hfile, hsettings, hmake, FileTree.ok_bind, htext, hpath]
  -- Regions that could not be read are reported apart; the text is the same.
  split
  · refine ⟨_, rfl, ?_⟩
    cases write <;> simp
  · refine ⟨_, rfl, ?_⟩
    cases write <;> simp [Outcome.warn]

/-- Formatting a file gives its text with the regions replaced. -/
theorem exists_formatCommand {tree : FileTree} {given : Option String} {path : String}
    {file : HostFile} {settings : ExtractSettings} (hfile : HostFile.read tree path = .ok file)
    (hsettings : tree.extractSettingsFor given path = .ok settings) (write : Bool) :
    ∃ outcome, formatCommand tree given path write = .ok outcome ∧
      outcome.formatted write file =
        Region.reformat ((⟨file.language, settings.tags⟩ : Extractor).extract file.text)
          file.text := by
  obtain ⟨outcome, houtcome, hshown, hwritten⟩ :=
    exists_formatCommand_files hfile hsettings write rfl
  refine ⟨outcome, houtcome, ?_⟩
  cases write with
  | true => exact Outcome.formatted_written (hwritten rfl)
  | false => exact (hshown rfl).1

/-- Formatting a file keeps its regions intact exactly if each of them keeps. -/
theorem formatCommand_intact_iff {tree : FileTree} {given : Option String} {path : String}
    {file : HostFile} {settings : ExtractSettings} (hfile : HostFile.read tree path = .ok file)
    (hlanguage : file.language = .reScript)
    (hsettings : tree.extractSettingsFor given path = .ok settings) (write : Bool) :
    ∃ outcome, formatCommand tree given path write = .ok outcome ∧
      (Region.Intact ⟨.reScript, settings.tags⟩ file.text (outcome.formatted write file) ↔
        ∀ r ∈ (⟨.reScript, settings.tags⟩ : Extractor).extract file.text, r.Keeps) := by
  obtain ⟨outcome, houtcome, hformatted⟩ := exists_formatCommand hfile hsettings write
  rw [hlanguage] at hformatted
  refine ⟨outcome, houtcome, ?_⟩
  rw [hformatted]
  exact Region.intact_reformat_iff rfl (FileTree.accepted_of_extractSettingsFor hsettings).2 _

/-- A file tree with one file, which holds a text. -/
def treeOf (text : String) : FileTree := ⟨[], [(["a.res"], .file (some text))]⟩

/-- The tree of one file has that file to read. -/
theorem read_treeOf (text : String) :
    HostFile.read (treeOf text) "a.res" = .ok ⟨"a.res", text, .reScript⟩ := rfl

/-- A region that is a document and one that is none. -/
def indentedQuery : String :=
  "let q = %relay(`\n  query Q \x7b a(b: \"x\") c \x7d\n`)\nlet r = %relay(`\x7b`)\n"

/-- Formatting an indented query in a file of its own keeps its regions. -/
theorem formatCommand_intact_iff_indentedQuery :
    ∃ outcome, formatCommand (treeOf indentedQuery) none "a.res" true = .ok outcome ∧
      Region.Intact ⟨.reScript, ["relay"]⟩ indentedQuery
        (outcome.formatted true ⟨"a.res", indentedQuery, .reScript⟩) := by
  have hsettings : (treeOf indentedQuery).extractSettingsFor none "a.res" = .ok {} := rfl
  obtain ⟨outcome, houtcome, hiff⟩ :=
    formatCommand_intact_iff (read_treeOf indentedQuery) rfl hsettings true
  exact ⟨outcome, houtcome, hiff.mpr (by decide +kernel)⟩

/-- A region with an escaped backtick in a text. -/
def escapedBacktick : String := "let q = %relay(`\x7b a(b: \"\\u0060\") \x7d`)\n"

/-- Formatting does not keep every region: a backtick that was escaped in a text is printed as it
is and ends the region. -/
theorem not_formatCommand_intact :
    ¬ ∀ (tree : FileTree) (given : Option String) (path : String) (file : HostFile)
      (settings : ExtractSettings), HostFile.read tree path = .ok file →
      file.language = .reScript → tree.extractSettingsFor given path = .ok settings →
      ∃ outcome, formatCommand tree given path false = .ok outcome ∧
        Region.Intact ⟨.reScript, settings.tags⟩ file.text (outcome.formatted false file) := by
  intro h
  have hfile := read_treeOf escapedBacktick
  have hsettings : (treeOf escapedBacktick).extractSettingsFor none "a.res" = .ok {} := rfl
  obtain ⟨outcome, houtcome, hintact⟩ := h _ none "a.res" _ _ hfile rfl hsettings
  obtain ⟨outcome', houtcome', hformatted⟩ := exists_formatCommand hfile hsettings false
  rw [houtcome, Except.ok.injEq] at houtcome'
  subst houtcome'
  rw [hformatted] at hintact
  exact absurd hintact.contents (by decide +kernel)

end EmbeddedGraphQL
