import EmbeddedGraphQL.Proofs.Json.RoundTrip
import EmbeddedGraphQL.Proofs.Region.Format

/-!
# A configuration survives its JSON form

Whatever text a configuration was loaded from, its numbers fit a machine word: a data format reads
no others, and the defaults are small. That is all its JSON form asks for, since one pattern and a
list of one pattern are written differently and only unlimited documents are left out.

* `ProjectConfig.InRange`: the numbers of a configuration fit a machine word.
* `ProjectConfig.inRange_of_load`: those of a loaded configuration do.
* `ProjectConfig.read?_toJson`: such a configuration is read back from its JSON form.
* `ProjectConfig.load_toJson`: loading the text of the JSON form gives the configuration back.
-/

namespace EmbeddedGraphQL

/-! ## Numbers in range -/

/-- A data format in which all natural numbers fit a machine word. -/
def DataFormat.Bounded {α : Type} (format : DataFormat α) : Prop :=
  ∀ v n, format.natural? v = some n → n < Json.wordBound

/-- Natural numbers read from JSON fit a machine word. -/
theorem Json.bounded_format : Json.format.Bounded := by
  intro v n h
  cases v with
  | num literal =>
    change Json.word? literal.toList = some n at h
    unfold Json.word? at h
    split at h
    · rename_i hword
      simp only [Bool.and_eq_true, decide_eq_true_eq] at hword
      cases h
      exact hword.2
    · cases h
  | _ => cases h

/-- Natural numbers read from YAML fit a machine word. -/
theorem Yaml.Node.bounded_format (root : Yaml.Node) : root.format.Bounded := by
  intro v n h
  change Yaml.Node.natural? (root.follow v) = some n at h
  unfold Yaml.Node.natural? at h
  split at h
  · split at h
    · rw [Option.filter_eq_some_iff] at h
      exact of_decide_eq_true h.2
    · cases h
  · cases h

/-- A field has its default, or it is read. -/
theorem readField?_cases {α β : Type} {names : List String} {record : WrittenRecord α}
    {name : String} {missing x : β} {read? : α → Option β}
    (h : readField? names record name missing read? = some x) :
    x = missing ∨ ∃ v, read? v = some x := by
  unfold readField? at h
  split at h
  · cases h
    exact .inl rfl
  · exact .inr ⟨_, h⟩

/-- The numbers of a configuration fit a machine word. -/
structure ProjectConfig.InRange (c : ProjectConfig) : Prop where
  /-- How many texts are remembered. -/
  cacheCapacity : c.extract.cacheCapacity < Json.wordBound
  /-- How long the analysis tool may take. -/
  timeoutMs : c.analysis.timeoutMs < Json.wordBound

section Reading

variable {α : Type} {format : DataFormat α} {v : α}

/-- A number that is read, or left out where the default is in range, is in range. -/
theorem lt_of_readField? {names : List String} {record : WrittenRecord α} {name : String}
    {missing n : Nat} (hformat : format.Bounded) (hmissing : missing < Json.wordBound)
    (h : readField? names record name missing format.natural? = some n) : n < Json.wordBound := by
  rcases readField?_cases h with rfl | ⟨v, hv⟩
  · exact hmissing
  · exact hformat v n hv

/-- The cache capacity of settings that are read fits a machine word. -/
theorem ExtractSettings.cacheCapacity_of_read? (hformat : format.Bounded) {s : ExtractSettings}
    (h : ExtractSettings.read? format v = some s) : s.cacheCapacity < Json.wordBound := by
  simp only [ExtractSettings.read?, Option.bind_eq_bind, Option.bind_eq_some_iff] at h
  obtain ⟨record, hrecord, h⟩ := h
  split at h
  · cases h
  · simp only [Option.bind_eq_some_iff] at h
    obtain ⟨tags, htags, capacity, hcapacity, h⟩ := h
    cases h
    exact lt_of_readField? hformat (by decide) hcapacity

/-- The timeout of settings that are read fits a machine word. -/
theorem AnalysisSettings.timeoutMs_of_read? (hformat : format.Bounded) {s : AnalysisSettings}
    (h : AnalysisSettings.read? format v = some s) : s.timeoutMs < Json.wordBound := by
  simp only [AnalysisSettings.read?, Option.bind_eq_bind, Option.bind_eq_some_iff] at h
  obtain ⟨record, hrecord, h⟩ := h
  split at h
  · cases h
  · simp only [Option.bind_eq_some_iff] at h
    obtain ⟨command, hcommand, timeout, htimeout, marker, hmarker, h⟩ := h
    cases h
    exact lt_of_readField? hformat (by decide) htimeout

/-- The numbers of a configuration that is read fit a machine word, whether it has them from its
settings or settings are left out. -/
theorem ProjectConfig.inRange_of_read? (hformat : format.Bounded) {c : ProjectConfig}
    (h : ProjectConfig.read? format v = some c) : c.InRange := by
  simp only [ProjectConfig.read?, Option.bind_eq_bind, Option.bind_eq_some_iff] at h
  obtain ⟨record, hrecord, h⟩ := h
  split at h
  · cases h
  · simp only [Option.bind_eq_some_iff] at h
    obtain ⟨schema, hschema, documents, hdocuments, extract, hextract, analysis, hanalysis, h⟩ := h
    cases h
    constructor
    · rcases readField?_cases hextract with rfl | ⟨v, hv⟩
      · exact (by decide : ({} : ExtractSettings).cacheCapacity < Json.wordBound)
      · exact ExtractSettings.cacheCapacity_of_read? hformat hv
    · rcases readField?_cases hanalysis with rfl | ⟨v, hv⟩
      · exact (by decide : ({} : AnalysisSettings).timeoutMs < Json.wordBound)
      · exact AnalysisSettings.timeoutMs_of_read? hformat hv

end Reading

namespace ProjectConfig

/-- Only a configuration that is there becomes a success. -/
theorem eq_some_of_elim {x : Option ProjectConfig} {problem : ConfigProblem} {c : ProjectConfig}
    (h : x.elim (.error problem) Except.ok = .ok c) : x = some c := by
  cases x with
  | none => cases h
  | some c' =>
    cases h
    rfl

/-- A configuration is read as YAML or as JSON, whatever the name of its file says. -/
theorem read_of_parse {format : ConfigFormat} {contents : String} {c : ProjectConfig}
    (h : parse format contents = .ok c) : ofYaml? contents = some c ∨ ofJson? contents = some c := by
  cases format with
  | yaml => exact .inl (eq_some_of_elim h)
  | json => exact .inr (eq_some_of_elim h)
  | either =>
    rcases Option.or_eq_some_iff.mp (eq_some_of_elim h) with hyaml | ⟨-, hjson⟩
    · exact .inl hyaml
    · exact .inr hjson

/-- What is loaded was parsed in one of the formats. -/
theorem exists_parse_of_load {contents path : String} {c : ProjectConfig}
    (h : load contents path = .ok c) : ∃ format, parse format contents = .ok c := by
  unfold load at h
  split at h
  · cases h
  · rename_i format _
    split at h
    · cases h
    · rename_i hparse
      split at h
      · cases h
      · cases h
        exact ⟨format, hparse⟩

/-- The numbers of a loaded configuration fit a machine word. -/
theorem inRange_of_load {contents path : String} {c : ProjectConfig}
    (h : load contents path = .ok c) : c.InRange := by
  obtain ⟨format, hparse⟩ := exists_parse_of_load h
  rcases read_of_parse hparse with hread | hread
  · obtain ⟨root, -, hread⟩ := Option.bind_eq_some_iff.mp hread
    exact inRange_of_read? root.bounded_format hread
  · obtain ⟨v, -, hread⟩ := Option.bind_eq_some_iff.mp hread
    exact inRange_of_read? Json.bounded_format hread

end ProjectConfig

/-! ## The JSON form -/

/-- A number below the bound of a machine word is read back. -/
theorem Json.natural?_ofNat {n : Nat} (h : n < wordBound) : Json.natural? (.ofNat n) = some n := by
  have hvalue : Decimal.digitsValue (Nat.toDigits 10 n) = n :=
    Nat.ofDigitChars_eq_foldl.symm.trans Nat.ofDigitChars_ten_toDigits
  have hall : (Nat.toDigits 10 n).all Char.isDigit = true :=
    List.all_eq_true.mpr fun _ hc => isDigit_of_mem_toDigits hc
  rw [ofNat, natural?, toList_toString, word?, hvalue, hall]
  simp [Nat.toDigits_ne_nil, h]

@[simp] theorem Json.mapM_text?_str (texts : List String) :
    texts.mapM (Json.text? ∘ Json.str) = some texts :=
  List.mapM_pure.trans (congrArg some (List.map_id' texts))

@[simp] theorem Json.record?_format_object (members : List (String × Json)) :
    Json.format.record? (.object members) = some (.named members) := rfl

/-- One pattern and a list of one pattern are told apart. -/
@[simp] theorem Patterns.read?_toJson (p : Patterns) :
    Patterns.read? Json.format p.toJson = some p := by
  cases p with
  | one pattern => rfl
  | many patterns =>
    simp [Patterns.read?, Patterns.toJson, Json.format, Json.text?, Json.items?]

@[simp] theorem Patterns.isNull_toJson (p : Patterns) : Json.format.isNull p.toJson = false := by
  cases p <;> rfl

/-- Extraction settings are read back from their JSON. -/
theorem ExtractSettings.read?_toJson {s : ExtractSettings} (h : s.cacheCapacity < Json.wordBound) :
    ExtractSettings.read? Json.format s.toJson = some s := by
  simp [ExtractSettings.read?, ExtractSettings.toJson, ExtractSettings.fieldNames,
    WrittenRecord.admits, WrittenRecord.field?, readField?, Json.format, Json.record?, Json.items?,
    Json.natural?_ofNat h]

/-- Analysis settings are read back from their JSON. -/
theorem AnalysisSettings.read?_toJson {s : AnalysisSettings} (h : s.timeoutMs < Json.wordBound) :
    AnalysisSettings.read? Json.format s.toJson = some s := by
  simp [AnalysisSettings.read?, AnalysisSettings.toJson, AnalysisSettings.fieldNames,
    WrittenRecord.admits, WrittenRecord.field?, readField?, Json.format, Json.record?, Json.text?,
    Json.natural?_ofNat h]

/-- A list of texts is plain JSON. -/
theorem Json.plain_texts (texts : List String) : (Json.array (texts.map .str)).Plain := by
  apply Json.Plain.array
  intro item hitem
  obtain ⟨text, _, rfl⟩ := List.mem_map.mp hitem
  exact .str text

/-- Patterns are written as plain JSON, one or several. -/
theorem Patterns.plain_toJson (p : Patterns) : p.toJson.Plain := by
  cases p with
  | one pattern => exact .str pattern
  | many patterns => exact Json.plain_texts patterns

namespace ProjectConfig

/-- A configuration is read back from its JSON form. -/
theorem read?_toJson {c : ProjectConfig} (h : c.InRange) : read? Json.format c.toJson = some c := by
  have hextract := ExtractSettings.read?_toJson h.cacheCapacity
  have hanalysis := AnalysisSettings.read?_toJson h.timeoutMs
  obtain ⟨schema, documents, extract, analysis⟩ := c
  -- Only unlimited documents are left out; they are what is read where nothing is.
  cases documents <;>
    simp [read?, toJson, fieldNames, WrittenRecord.admits, WrittenRecord.field?, readField?,
      hextract, hanalysis]

/-- A configuration is written as plain JSON. -/
theorem plain_toJson (c : ProjectConfig) : c.toJson.Plain := by
  have hextract : c.extract.toJson.Plain :=
    .object (List.forall_mem_cons.mpr
      ⟨Json.plain_texts _, List.forall_mem_singleton.mpr (.ofNat _)⟩)
  have hanalysis : c.analysis.toJson.Plain :=
    .object (List.forall_mem_cons.mpr ⟨.str _, List.forall_mem_cons.mpr
      ⟨.ofNat _, List.forall_mem_singleton.mpr (.str _)⟩⟩)
  -- The schema, the documents if there are any, and the settings, in the order they are written in.
  apply Json.Plain.object
  intro m hm
  rcases List.mem_append.mp hm with hm | hm
  · rcases List.mem_append.mp hm with hm | hm
    · rw [List.mem_singleton.mp hm]
      exact c.schema.plain_toJson
    · obtain ⟨documents, _, rfl⟩ := List.mem_map.mp hm
      exact documents.plain_toJson
  · rcases List.mem_cons.mp hm with rfl | hm
    · exact hextract
    · rw [List.mem_singleton.mp hm]
      exact hanalysis

/-- A configuration that can be used is loaded from any text that is read as its JSON form. -/
theorem load_of_parse? {c : ProjectConfig} {text path : String} (hrange : c.InRange)
    (hproblem : c.problem? = none) (hpath : Path.extension? path = some "json")
    (hparse : Json.parse? text = some c.toJson) : load text path = .ok c := by
  have hformat : ConfigFormat.ofPath? path = some .json := by
    simp [ConfigFormat.ofPath?, hpath]
  have hjson : ofJson? text = some c := by
    rw [ofJson?, hparse]
    exact read?_toJson hrange
  simp only [load, hformat, parse, hjson, Option.elim_some, hproblem]

/-- A loaded configuration survives its JSON form: the text of that form, on one line or over
several, is accepted under every name of a JSON file, and gives the configuration back. -/
theorem load_toJson {contents path : String} {c : ProjectConfig} (h : load contents path = .ok c)
    {jsonPath : String} (hpath : Path.extension? jsonPath = some "json") :
    load c.toJson.compact jsonPath = .ok c ∧ load c.toJson.pretty jsonPath = .ok c := by
  have hrange := inRange_of_load h
  have hproblem := problem?_of_load h
  have hplain := c.plain_toJson
  exact ⟨load_of_parse? hrange hproblem hpath (Json.parse?_compact hplain),
    load_of_parse? hrange hproblem hpath (Json.parse?_pretty hplain)⟩

/-- A configuration without the names of its fields, with a list of one pattern, no analysis
settings and the largest number there is. -/
def positional : String := "[[\"s\"], null, [[\"relay\"], 18446744073709551615]]"

/-- A configuration that is written by position is loaded again from both of its JSON texts. -/
theorem load_toJson_positional :
    ∃ c, load positional "c.json" = .ok c ∧ load c.toJson.compact "d/e.json" = .ok c ∧
      load c.toJson.pretty "d/e.json" = .ok c := by
  have hok : (load positional "c.json").toOption.isSome = true := by decide +kernel
  cases hload : load positional "c.json" with
  | error e =>
    rw [hload] at hok
    cases hok
  | ok c => exact ⟨c, rfl, load_toJson hload (by decide +kernel)⟩

end ProjectConfig
end EmbeddedGraphQL
