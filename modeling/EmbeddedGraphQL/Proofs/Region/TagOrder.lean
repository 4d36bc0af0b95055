import EmbeddedGraphQL.Proofs.Region.Format

/-!
# The order of tags does not matter

The tags of an extractor are tried one after the other, and the first one that leads to an opening
is taken. For tags in general this depends on their order: of `a` and one that starts with `a(`,
whichever comes first is taken. The tags of a configuration have no parenthesis. Then the only tag
that can lead to an opening is the text up to the first parenthesis, and all that counts is whether
it is a tag.

* `Opening.here?_eq`: the opening at the start of a text, for tags without parentheses.
* `Opening.find?_congr`, `Extractor.regionsFrom_congr`: from one place of a text to the whole text.
* `Extractor.extract_congr`: lists with the same tags give the same regions.
* `Extractor.extract_of_load`: the tags of a configuration in any order.
-/

namespace EmbeddedGraphQL

/-! ## One place of a text -/

namespace Opening

variable {tags tags' : List (List Char)}

/-- A tag without a parenthesis that leads to an opening is the text up to the parenthesis. -/
theorem eq_takeWhile_of_afterTag? {tag text rest left : List Char} (htag : '(' ∉ tag)
    (hafter : tag.isPrefixOf? text = some rest) (hleft : afterTag? rest = some left) :
    tag = text.takeWhile (· != '(') ∧ rest = text.dropWhile (· != '(') := by
  obtain ⟨tail, rfl⟩ : ∃ tail, rest = '(' :: tail := by
    unfold afterTag? at hleft
    split at hleft
    · exact ⟨_, rfl⟩
    · cases hleft
  have hall : ∀ c ∈ tag, (c != '(') = true := by
    intro c hc
    rw [bne_iff_ne]
    rintro rfl
    exact htag hc
  rw [← List.isPrefixOf?_eq_some_iff_append_eq.mp hafter, List.takeWhile_append_of_pos hall,
    List.dropWhile_append_of_pos hall]
  simp

/-- The opening at the start of a text, for tags without parentheses: the text up to the first
parenthesis has to be a tag, wherever it stands in the list. -/
theorem here?_eq (htags : ∀ tag ∈ tags, '(' ∉ tag) (text : List Char) :
    here? tags ('%' :: text) =
      if text.takeWhile (· != '(') ∈ tags then afterTag? (text.dropWhile (· != '(')) else none := by
  rw [here?]
  induction tags with
  | nil => rfl
  | cons tag tags ih =>
    obtain ⟨htag, htags⟩ := List.forall_mem_cons.mp htags
    rw [List.findSome?_cons, ih htags]
    by_cases hword : text.takeWhile (· != '(') = tag
    · -- The right tag: whether it leads to an opening is decided here, whatever comes after it.
      have hafter : tag.isPrefixOf? text = some (text.dropWhile (· != '(')) := by
        rw [List.isPrefixOf?_eq_some_iff_append_eq, ← hword, List.takeWhile_append_dropWhile]
      rw [hafter, Option.bind_some, if_pos (List.mem_cons.mpr (Or.inl hword))]
      cases afterTag? (text.dropWhile (· != '(')) with
      | some left => rfl
      | none => simp
    · -- Any other tag leads nowhere.
      have hnone : (tag.isPrefixOf? text).bind afterTag? = none := by
        rw [Option.bind_eq_none_iff]
        intro rest hafter
        rw [Option.eq_none_iff_forall_ne_some]
        intro left hleft
        exact hword (eq_takeWhile_of_afterTag? htag hafter hleft).1.symm
      rw [hnone]
      simp only [List.mem_cons, hword, false_or]

/-- Lists with the same tags find the same opening at the start of a text. -/
theorem here?_congr (htags : ∀ tag ∈ tags, '(' ∉ tag) (hmem : ∀ tag, tag ∈ tags' ↔ tag ∈ tags)
    (text : List Char) : here? tags' text = here? tags text := by
  have htags' : ∀ tag ∈ tags', '(' ∉ tag := fun tag htag => htags tag ((hmem tag).mp htag)
  cases text with
  | nil => rfl
  | cons c text =>
    by_cases hc : c = '%'
    · subst hc
      rw [here?_eq htags, here?_eq htags']
      simp only [hmem]
    · have hnone : ∀ tags, here? tags (c :: text) = none := by
        intro tags
        rw [here?]
        exact fun _ h => absurd (List.cons.inj h).1 hc
      rw [hnone, hnone]

/-! ## The whole text -/

/-- What is found at the start of every text decides what is found leftmost. -/
theorem find?_congr (hhere : ∀ text, here? tags' text = here? tags text) (offset : Nat)
    (text : List Char) : find? tags' offset text = find? tags offset text := by
  induction text generalizing offset with
  | nil => rfl
  | cons c text ih => rw [find?, find?, hhere, ih]

end Opening

namespace Extractor

/-- What is found at the start of every text decides all regions: both searches go on behind the
same closing backtick. -/
theorem regionsFrom_congr {tags tags' : List (List Char)}
    (hhere : ∀ text, Opening.here? tags' text = Opening.here? tags text) (text : List Char)
    (index : LineIndex) (offset : Nat) (rest : List Char) :
    regionsFrom tags' text index offset rest = regionsFrom tags text index offset rest := by
  fun_induction regionsFrom tags text index offset rest with
  | case1 offset rest hfind =>
    rw [regionsFrom, Opening.find?_congr hhere, hfind]
  | case2 offset rest opening hfind hclosing =>
    rw [regionsFrom, Opening.find?_congr hhere, hfind]
    simp only [hclosing]
  | case3 offset rest opening hfind length hclosing stop ih =>
    rw [regionsFrom, Opening.find?_congr hhere, hfind]
    simp only [hclosing]
    rw [ih]

/-- Lists with the same tags, none of which has a parenthesis, give the same regions. -/
theorem extract_congr {tags tags' : List String} (htags : ∀ tag ∈ tags, '(' ∉ tag.toList)
    (hmem : ∀ tag, tag ∈ tags' ↔ tag ∈ tags) (language : HostLanguage) (text : String) :
    (⟨language, tags'⟩ : Extractor).extract text = (⟨language, tags⟩ : Extractor).extract text := by
  have hchars : ∀ tag, tag ∈ tags'.map String.toList ↔ tag ∈ tags.map String.toList := by
    intro tag
    simp only [List.mem_map, hmem]
  have hparens : ∀ tag ∈ tags.map String.toList, '(' ∉ tag := by
    intro tag htag
    obtain ⟨word, hword, rfl⟩ := List.mem_map.mp htag
    exact htags word hword
  rw [extract, extract]
  split
  · exact regionsFrom_congr (Opening.here?_congr hparens hchars) _ _ _ _
  · rfl

/-- With a parenthesis in a tag the order matters. -/
example :
    (⟨.reScript, ["a", "a(`"]⟩ : Extractor).extract "%a(`(`b`" ≠
      (⟨.reScript, ["a(`", "a"]⟩ : Extractor).extract "%a(`(`b`" := by
  decide +kernel

/-! ## Tags of a configuration -/

/-- An extractor is made of any tags but none. -/
theorem make_of_ne_nil {tags : List String} (h : tags ≠ []) (language : HostLanguage) :
    make language tags = .ok ⟨language, tags⟩ := by
  rw [make, if_neg (by simpa using h)]

/-- The tags of every configuration that is accepted make an extractor for each language. So does
every list with the same tags, in any order and with any repetitions, and the regions of every text
are the same. -/
theorem extract_of_load {contents path : String} {config : ProjectConfig}
    (h : ProjectConfig.load contents path = .ok config) (language : HostLanguage) :
    make language config.extract.tags = .ok ⟨language, config.extract.tags⟩ ∧
      ∀ tags : List String, (∀ tag, tag ∈ tags ↔ tag ∈ config.extract.tags) →
        make language tags = .ok ⟨language, tags⟩ ∧
          ∀ text, (⟨language, tags⟩ : Extractor).extract text =
            (⟨language, config.extract.tags⟩ : Extractor).extract text := by
  obtain ⟨hne, haccepted⟩ :=
    ProjectConfig.accepted_of_problem? (ProjectConfig.problem?_of_load h)
  refine ⟨make_of_ne_nil hne language, fun tags hmem => ⟨make_of_ne_nil ?_ language, ?_⟩⟩
  · -- A list with the same tags has one, too.
    obtain ⟨tag, htag⟩ := List.exists_mem_of_ne_nil _ hne
    exact List.ne_nil_of_mem ((hmem tag).mpr htag)
  · intro text
    refine extract_congr (fun tag htag => ?_) hmem language text
    exact not_mem_of_isTag (haccepted tag htag) (by decide +kernel)

/-- A configuration with two tags of which one starts with the other. -/
def dottedTags : String :=
  "\x7b\"schema\": \"s\", \"extract\": \x7b\"tags\": [\"a\", \"a.b\"]\x7d\x7d"

/-- The longer tag may stand in front, and twice. -/
theorem extract_of_load_dottedTags :
    ∃ config, ProjectConfig.load dottedTags "c.json" = .ok config ∧
      (⟨.reScript, ["a.b", "a", "a.b"]⟩ : Extractor).extract "%a.b(`x`) %a( `y`)" =
        (⟨.reScript, config.extract.tags⟩ : Extractor).extract "%a.b(`x`) %a( `y`)" := by
  have htags : (ProjectConfig.load dottedTags "c.json").toOption.map (·.extract.tags) =
      some ["a", "a.b"] := by
    decide +kernel
  cases hload : ProjectConfig.load dottedTags "c.json" with
  | error e =>
    rw [hload] at htags
    cases htags
  | ok config =>
    rw [hload] at htags
    have htags : config.extract.tags = ["a", "a.b"] := Option.some.inj htags
    have hmem : ∀ tag, tag ∈ ["a.b", "a", "a.b"] ↔ tag ∈ config.extract.tags := by
      intro tag
      rw [htags]
      grind
    exact ⟨config, rfl, ((extract_of_load hload .reScript).2 _ hmem).2 _⟩

end Extractor
end EmbeddedGraphQL
