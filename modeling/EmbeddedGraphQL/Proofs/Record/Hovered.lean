import EmbeddedGraphQL.Analysis.Resolve
import EmbeddedGraphQL.Proofs.Document.Spans
import EmbeddedGraphQL.Proofs.Record.Lookup

/-!
# Where a hovered record is found

A hover text names an operation or fragment and a record path inside it. The region is chosen by the
name, and the path is then looked up in all of the region, which may hold several definitions. The
record that is found lies in the definition it stands in, and in no other one. It lies in a
definition of the name exactly if the first node of the path with a known type stands in one.

* `Range.Within`: a range inside another one.
* `Document.HoldsNamed`: a range inside an operation or fragment of a name.
* `Document.holdsNamed_iff`: which definitions a node lies in.
* `ResolvedRecord.find_holdsNamed_iff`: when a hovered record lies in what the hover text names.
-/

namespace EmbeddedGraphQL

/-! ## Ranges -/

/-- Whether a range neither starts before another one nor ends after it. -/
def Range.Within (inner outer : Range) : Prop :=
  ¬ inner.start.Before outer.start ∧ ¬ outer.stop.Before inner.stop

/-- Whether one range lies within another one can be decided. -/
instance (inner outer : Range) : Decidable (inner.Within outer) :=
  inferInstanceAs (Decidable (¬ _ ∧ ¬ _))

/-- The ranges of spans of a text lie in each other as the spans do. -/
theorem LineIndex.range_within_iff {text : List Char} {inner outer : Span}
    (hinner : inner.StandsIn text) (houter : outer.StandsIn text) :
    ((ofText text).range inner).Within ((ofText text).range outer) ↔
      outer.start ≤ inner.start ∧ inner.stop ≤ outer.stop := by
  rw [Range.Within, range, range, position_before_iff hinner.start houter.start,
    position_before_iff houter.stop hinner.stop, Nat.not_lt, Nat.not_lt]

/-! ## Definitions of a name -/

namespace Document

/-- Whether a range of a text lies in an operation or fragment of a name. -/
def HoldsNamed (d : Document) (source name : String) (range : Range) : Prop :=
  ∃ x ∈ d.definitions, x.isExecutableNamed name = true ∧
    ∃ span ∈ x.span, range.Within ((LineIndex.ofString source).range span)

/-- Whether a definition of a name holds a range is decided definition by definition. -/
instance (d : Document) (source name : String) (range : Range) :
    Decidable (d.HoldsNamed source name range) :=
  inferInstanceAs (Decidable (∃ x ∈ d.definitions, _ ∧ ∃ span ∈ x.span, _))

/-- Only operations and fragments have a name that a hover text can give. -/
theorem exists_node_of_isExecutableNamed {x : Definition} {name : String}
    (h : x.isExecutableNamed name = true) :
    ∃ n, Node.ofDefinition? x = some n ∧ n.span = x.span := by
  cases x with
  | operation o => exact ⟨.operation o, rfl, rfl⟩
  | fragment f => exact ⟨.fragment f, rfl, rfl⟩
  | _ => cases h

/-- The range of a node lies in that of the definition it stands in. It lies in a definition of
some name exactly if that one has the name. -/
theorem holdsNamed_iff {source : String} {d : Document} (h : parse? source = some d) {s : Standing}
    {n : Node} (hs : s.In d) (hn : s.entry = .node n) (name : String) :
    ∃ x span outer, d.definitions[s.address.definition]? = some x ∧ s.span = some span ∧
      x.span = some outer ∧
      ((LineIndex.ofString source).range span).Within ((LineIndex.ofString source).range outer) ∧
      (d.HoldsNamed source name ((LineIndex.ofString source).range span) ↔
        x.isExecutableNamed name = true) := by
  obtain ⟨root, inner, outer, he⟩ := exists_extent h hs hn
  obtain ⟨x, hx, hxroot⟩ := Option.bind_eq_some_iff.mp he.standsIn
  have hspan : s.span = some inner := by
    rw [Standing.span, hn]
    exact he.span
  have hxspan : x.span = some outer := by
    rw [← he.rootSpan]
    cases x <;> cases hxroot <;> rfl
  have hwithin : ((LineIndex.ofString source).range inner).Within
      ((LineIndex.ofString source).range outer) :=
    (LineIndex.range_within_iff he.innerStands he.outerStands).mpr he.within
  refine ⟨x, inner, outer, hx, hspan, hxspan, hwithin, ?_⟩
  constructor
  · rintro ⟨y, hy, hname, span, hyspan, hyWithin⟩
    obtain ⟨other, hother, hotherSpan⟩ := exists_node_of_isExecutableNamed hname
    obtain ⟨index, hindex⟩ := List.getElem?_of_mem hy
    have hyroot : d.root? index = some other := by rw [root?, hindex]; exact hother
    -- The other definition is read from the text as well, so that its edges are boundaries.
    obtain ⟨root', inner', outer', he'⟩ := exists_extent h (.definition hyroot) rfl
    obtain rfl : inner' = span := Option.some.inj (he'.span.symm.trans (hotherSpan.trans hyspan))
    have hbytes := (LineIndex.range_within_iff he.innerStands he'.innerStands).mp hyWithin
    have heq := he.eq_of_within h hyroot he'.span hbytes
    rw [← heq, hindex, Option.some.injEq] at hx
    rwa [← hx]
  · intro hname
    exact ⟨x, List.mem_of_getElem? hx, hname, outer, hxspan, hwithin⟩

end Document

/-! ## Hovered records -/

namespace ResolvedRecord

/-- A record of some regions comes from a document. -/
theorem exists_of_inRegions? {schema : Schema} {regions : List Region} {record : HoverRecord}
    {r : ResolvedRecord} (h : inRegions? schema regions record = some r) :
    r.record = record ∧ ∃ d m, Document.parse? r.region.content = some d ∧
      Record.find? schema d record.record = some m ∧
      r.context = .ofRecord r.region.content m := by
  obtain ⟨region, -, h⟩ := Option.bind_eq_some_iff.mp h
  obtain ⟨context, hcontext, h⟩ := Option.bind_eq_some_iff.mp h
  cases h
  rw [RecordContext.resolve, Option.join_eq_some_iff, Option.map_eq_some_iff] at hcontext
  obtain ⟨d, hd, hcontext⟩ := hcontext
  obtain ⟨m, hm, hcontext⟩ := Option.map_eq_some_iff.mp hcontext
  exact ⟨rfl, d, m, hd, hm, hcontext.symm⟩

/-- What is found at a position is what the hover text there names. -/
theorem find_fst (settings : AnalysisSettings) (tool : Tool) (tree : FileTree) (schema : Schema)
    (cache : SourceCache) (file text : String) (position : Position) :
    (find settings tool tree schema cache file text position).1 =
      (settings.hover tool tree file position).map fun hover =>
        (hover.bind HoverRecord.find?).bind (inRegions? schema (cache.lookup text).1) := by
  unfold find
  cases settings.hover tool tree file position with
  | error e => rfl
  | ok hover =>
    cases hover with
    | none => rfl
    | some hover =>
      unfold ofHover
      cases hrecord : HoverRecord.find? hover with
      | none => simp [Except.map, hrecord]
      | some record => simp [Except.map, hrecord]

/-- Suppose that a record is found at a position. The hover text there names it, and it is the first
node of its path, in the document of its region, whose type is known. Its range lies in that of
the definition the node stands in. It lies in an operation or fragment of the name that the hover
text gives exactly if this definition has the name. -/
theorem find_holdsNamed_iff {settings : AnalysisSettings} {tool : Tool} {tree : FileTree}
    {schema : Schema} {cache : SourceCache} {file text : String} {position : Position}
    {r : ResolvedRecord}
    (h : (find settings tool tree schema cache file text position).1 = .ok (some r)) :
    ∃ hover d s x range,
      settings.hover tool tree file position = .ok (some hover) ∧
      HoverRecord.find? hover = some r.record ∧
      Document.parse? r.region.content = some d ∧
      (d.records r.record.record).find? (fun s => (s.recordType? schema).isSome) = some s ∧
      d.definitions[s.address.definition]? = some x ∧
      r.context.range = some range ∧
      (∃ outer ∈ x.span, range.Within ((LineIndex.ofString r.region.content).range outer)) ∧
      (d.HoldsNamed r.region.content r.record.definition range ↔
        x.isExecutableNamed r.record.definition = true) := by
  rw [find_fst] at h
  cases hanswer : settings.hover tool tree file position with
  | error e =>
    rw [hanswer] at h
    cases h
  | ok answer =>
    rw [hanswer] at h
    obtain ⟨record, hrecord, hregions⟩ := Option.bind_eq_some_iff.mp (Except.ok.inj h)
    obtain ⟨hover, rfl, hhover⟩ := Option.bind_eq_some_iff.mp hrecord
    obtain ⟨rfl, d, m, hd, hm, hcontext⟩ := exists_of_inRegions? hregions
    obtain ⟨s, hs, hspan⟩ := Record.exists_of_find? hm
    -- What is found is a record, hence a node and no spread.
    have hmem := List.mem_filter.mp (List.mem_of_find?_eq_some hs)
    obtain ⟨n, hn⟩ : ∃ n, s.entry = .node n := by
      cases hentry : s.entry with
      | node n => exact ⟨n, rfl⟩
      | spread spread => simp [Standing.isRecordOf, Standing.isRecord, hentry] at hmem
    obtain ⟨x, inner, outer, hx, hinner, houter, hwithin, hiff⟩ :=
      Document.holdsNamed_iff hd (Document.mem_standings_iff.mp hmem.1) hn r.record.definition
    refine ⟨hover, d, s, x, _, rfl, hhover, hd, hs, hx, ?_, ⟨outer, houter, hwithin⟩, hiff⟩
    rw [hcontext, RecordContext.ofRecord, hspan, hinner]
    rfl

/-- A host text with a region of two fragments. -/
def twoFragments : String :=
  "module F = %relay(`fragment A on User \x7b id \x7d\nfragment B on User \x7b name \x7d`)\n"

/-- A tool that shows a record type of the module `App` at every position. -/
def shows (type : String) : Tool := fun _ =>
  .finished 0 ("\x7b\"contents\": \"```rescript\\nApp." ++ type ++ "\\n```\"\x7d") ""

/-- A project with the host text as its only source. -/
def project : FileTree :=
  ⟨[], [(["bsconfig.json"], .file (some "\x7b\x7d")), (["App.res"], .file (some twoFragments))]⟩

/-- A schema with one type. -/
def userSchema : Schema := ⟨[⟨"User", none, .object [] []⟩], [], []⟩

/-- A cache that has seen no text. -/
def relayCache : SourceCache := .empty ⟨.reScript, ["relay"]⟩ defaultCacheCapacity (by decide)

/-- What is found where the tool shows a record type. -/
def hovered (type : String) : Except AnalysisError (Option ResolvedRecord) :=
  (find {} (shows type) project userSchema relayCache "App.res" twoFragments .origin).1

/-- Only a success with a value joins to a value. -/
theorem eq_ok_of_join {ε α : Type} {e : Except ε (Option α)} {a : α}
    (h : e.toOption.join = some a) : e = .ok (some a) := by
  cases e with
  | error e => cases h
  | ok found => exact congrArg Except.ok h

/-- The root record of the first fragment lies in it. -/
theorem find_holdsNamed_iff_first :
    ∃ r d range, hovered "A_graphql.Types.fragment" = .ok (some r) ∧
      Document.parse? r.region.content = some d ∧ r.context.range = some range ∧
      d.HoldsNamed r.region.content "A" range := by
  -- One evaluation of the lookup gives the name and whether the definition found has it.
  have hfound : ((hovered "A_graphql.Types.fragment").toOption.join.bind fun r =>
      (Document.parse? r.region.content).bind fun d =>
        ((d.records r.record.record).find? fun s => (s.recordType? userSchema).isSome).bind fun s =>
          d.definitions[s.address.definition]?.map fun x =>
            (r.record.definition, x.isExecutableNamed r.record.definition)) =
      some ("A", true) := by decide +kernel
  obtain ⟨r, hr, hfound⟩ := Option.bind_eq_some_iff.mp hfound
  obtain ⟨d, hd, hfound⟩ := Option.bind_eq_some_iff.mp hfound
  obtain ⟨s, hs, hfound⟩ := Option.bind_eq_some_iff.mp hfound
  obtain ⟨x, hx, hfound⟩ := Option.map_eq_some_iff.mp hfound
  obtain ⟨hname, hnamed⟩ := Prod.mk.inj hfound
  have hok := eq_ok_of_join hr
  obtain ⟨hover, d', s', x', range, -, -, hd', hs', hx', hrange, -, hiff⟩ :=
    find_holdsNamed_iff hok
  obtain rfl : d = d' := Option.some.inj (hd.symm.trans hd')
  obtain rfl : s = s' := Option.some.inj (hs.symm.trans hs')
  obtain rfl : x = x' := Option.some.inj (hx.symm.trans hx')
  exact ⟨r, d, range, hok, hd, hrange, hname ▸ hiff.mpr hnamed⟩

/-- A hovered record need not lie in what the hover text names: the root record of the second
fragment is looked up in the whole region, where the first fragment is found. -/
theorem not_find_holdsNamed :
    ¬ ∀ (settings : AnalysisSettings) (tool : Tool) (tree : FileTree) (schema : Schema)
      (cache : SourceCache) (file text : String) (position : Position) (r : ResolvedRecord),
      (find settings tool tree schema cache file text position).1 = .ok (some r) →
      ∃ d range, Document.parse? r.region.content = some d ∧ r.context.range = some range ∧
        d.HoldsNamed r.region.content r.record.definition range := by
  intro h
  have hfound : ((hovered "B_graphql.Types.fragment").toOption.join.bind fun r =>
      (Document.parse? r.region.content).bind fun d => r.context.range.map fun range =>
        decide (d.HoldsNamed r.region.content r.record.definition range)) = some false := by
    decide +kernel
  obtain ⟨r, hr, hfound⟩ := Option.bind_eq_some_iff.mp hfound
  obtain ⟨d, hd, hfound⟩ := Option.bind_eq_some_iff.mp hfound
  obtain ⟨range, hrange, hfound⟩ := Option.map_eq_some_iff.mp hfound
  obtain ⟨d', range', hd', hrange', hholds⟩ := h _ _ _ _ _ _ _ _ r (eq_ok_of_join hr)
  obtain rfl : d = d' := Option.some.inj (hd.symm.trans hd')
  obtain rfl : range = range' := Option.some.inj (hrange.symm.trans hrange')
  exact of_decide_eq_false hfound hholds

end ResolvedRecord
end EmbeddedGraphQL
