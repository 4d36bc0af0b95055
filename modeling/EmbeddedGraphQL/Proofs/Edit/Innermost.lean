import EmbeddedGraphQL.Edit.ExtractFragment
import EmbeddedGraphQL.Proofs.Document.Nesting
import EmbeddedGraphQL.Proofs.Edit.Enclosing
import Mathlib.Data.List.Basic

/-!
# The innermost selection set around a range of lines

A search by lines goes through the selection sets in document order and keeps the last one whose
owner spans the lines. As the owners of nested sets have nested spans, the set that is kept is an
innermost one: all sets it is in span the lines as well, and those in it do not.

* `Document.sets`, `Document.setsAround`: the selection sets of a document, and those around a range
  of lines.
* `EnclosingSearch.set_visitor`, `EnclosingSearch.set_run`: what one visit and a run of visits do to
  the set that is kept.
* `Document.precedes_or_of_getLast?`: where the other sets stand and how they lie to the last one
  around the lines.
* `FragmentPlan.find?_innermost`: which set is searched for selections, and when nothing is found.
-/

namespace EmbeddedGraphQL

/-! ## The selection sets of a document -/

namespace SetSight

/-- Whether the owner of a set spans a range of lines. -/
def isAround (index : LineIndex) (lines : LineRange) (x : SetSight) : Bool :=
  x.owner.any fun span => (index.lineRange span).contains lines

/-- The set with the type it selects on, if the schema has that type. -/
def enclosing? (schema : Schema) (x : SetSight) : Option EnclosingSet :=
  x.typeName.bind fun name => (schema.type? name).map fun _ => ⟨x.selections, x.address, name⟩

/-- A set is taken up as no enclosing one exactly if the schema does not have its type. -/
theorem enclosing?_eq_none_iff {schema : Schema} {x : SetSight} :
    x.enclosing? schema = none ↔ x.typeName.bind schema.type? = none := by
  unfold enclosing?
  cases x.typeName <;> simp

/-- An enclosing set has the selections and the address of the set that is seen. -/
theorem eq_of_enclosing? {schema : Schema} {x : SetSight} {e : EnclosingSet}
    (h : x.enclosing? schema = some e) : e.selections = x.selections ∧ e.address = x.address := by
  obtain ⟨name, -, h⟩ := Option.bind_eq_some_iff.mp h
  obtain ⟨type, -, rfl⟩ := Option.map_eq_some_iff.mp h
  exact ⟨rfl, rfl⟩

/-- Whether the owner of a set ends in front of that of another one. -/
def EndsBefore (x y : SetSight) : Prop :=
  ∀ first ∈ x.owner, ∀ second ∈ y.owner, first.stop ≤ second.start

/-- Whether a set comes before another one in document order, and its owner either spans that of the
other one, if this is inside the set, or ends in front of it. -/
structure Precedes (x y : SetSight) : Prop where
  before : x.address.Before y.address
  inside : x.address.InSet 0 y.address → ∀ outer ∈ x.owner, ∀ inner ∈ y.owner, inner.Within outer
  behind : ¬ x.address.InSet 0 y.address → x.EndsBefore y

end SetSight

/-- What the set of a part of a document is. -/
theorem Standing.set?_eq_some_iff {schema : Schema} {s : Standing} {x : SetSight} :
    s.set? schema = some x ↔ ∃ n, s.entry = .node n ∧ n.selections ≠ [] ∧
      x = ⟨s.address, n.selections, n.span, schema.selectedType (n :: s.ancestors)⟩ := by
  obtain ⟨address, ancestors, entry⟩ := s
  cases entry with
  | spread s => simp [Standing.set?]
  | node n => simp [Standing.set?, eq_comm (a := x)]

namespace Document

/-- The selection sets of a document that are not empty, in document order. -/
def sets (schema : Schema) (d : Document) : List SetSight :=
  d.standings.filterMap (Standing.set? schema)

/-- The selection sets whose owners span a range of lines, in document order. -/
def setsAround (schema : Schema) (index : LineIndex) (lines : LineRange) (d : Document) :
    List SetSight :=
  (d.sets schema).filter (·.isAround index lines)

variable {schema : Schema} {index : LineIndex} {lines : LineRange} {d : Document} {x y : SetSight}

/-- The sets are those of the nodes of the document that have selections. -/
theorem mem_sets_iff : x ∈ d.sets schema ↔
    ∃ ancestors n, Standing.In d ⟨x.address, ancestors, .node n⟩ ∧ x.selections = n.selections ∧
      n.selections ≠ [] ∧ x.owner = n.span ∧
      x.typeName = schema.selectedType (n :: ancestors) := by
  simp only [sets, List.mem_filterMap, mem_standings_iff, Standing.set?_eq_some_iff]
  constructor
  · rintro ⟨⟨address, ancestors, entry⟩, hs, n, rfl, hne, rfl⟩
    exact ⟨ancestors, n, hs, rfl, hne, rfl, rfl⟩
  · rintro ⟨ancestors, n, hs, hselections, hne, howner, htype⟩
    refine ⟨_, hs, n, rfl, hne, ?_⟩
    obtain ⟨address, selections, owner, typeName⟩ := x
    subst hselections howner htype
    rfl

/-- The sets around the lines are the sets that are around the lines. -/
theorem mem_setsAround_iff :
    x ∈ d.setsAround schema index lines ↔ x ∈ d.sets schema ∧ x.isAround index lines = true :=
  List.mem_filter

/-- In a document that was read from a text, each set precedes the later ones. -/
theorem sets_pairwise (schema : Schema) {text : String} (h : parse? text = some d) :
    (d.sets schema).Pairwise SetSight.Precedes := by
  refine List.Pairwise.filterMap _ ?_ (d.standings_pairwise.and (standings_laidOut h))
  rintro ⟨a, line, entry⟩ ⟨b, line', entry'⟩ ⟨hbefore, hlaid⟩ x hx y hy
  -- A set has the address and the span of the part of the document that owns it.
  obtain ⟨m, rfl, -, rfl⟩ := Standing.set?_eq_some_iff.mp hx
  obtain ⟨n, rfl, -, rfl⟩ := Standing.set?_eq_some_iff.mp hy
  exact ⟨hbefore, hlaid.inside, hlaid.behind⟩

end Document

/-! ## The last set around the lines is found -/

namespace EnclosingSearch

variable {schema : Schema} {index : LineIndex} {lines : LineRange}

/-- Flagging a name leaves the set alone. -/
theorem set_flag (search : EnclosingSearch) (name : String) :
    (search.flag name).set = search.set := by
  unfold flag
  split <;> rfl

/-- A variable leaves the set alone. -/
theorem set_atVariable (info : TypeInfo) (name : String) (span : Option Span)
    (search : EnclosingSearch) :
    (search.atVariable index lines info name span).set = search.set := by
  unfold atVariable
  split
  · exact set_flag search name
  · split
    · split
      · rfl
      · exact set_flag search name
    · rfl

/-- A set around the lines takes the place of the one that was found before. -/
theorem set_atSet (info : TypeInfo) (set : List Selection) (owner : Option Span)
    (search : EnclosingSearch) {x : SetSight}
    (hx : x = ⟨info.address, set, owner, info.parentTypeName⟩) :
    (search.atSet schema index lines info set owner).set =
      if x.isAround index lines then some (x.enclosing? schema) else search.set := by
  subst hx
  cases owner with
  | none => rfl
  | some span =>
    -- The search looks the type up before it takes the name, but keeps only the name.
    have hknown : ((info.parentType schema).bind fun _ => info.parentTypeName).map
          (fun typeName => (⟨set, info.address, typeName⟩ : EnclosingSet)) =
        SetSight.enclosing? schema ⟨info.address, set, some span, info.parentTypeName⟩ := by
      unfold TypeInfo.parentType SetSight.enclosing?
      cases info.parentTypeName with
      | none => rfl
      | some name => cases htype : schema.type? name <;> simp [htype]
    rw [← hknown]
    cases hcontains : (index.lineRange span).contains lines <;>
      simp [atSet, SetSight.isAround, hcontains]

/-- What a visit does to the set that is found. -/
theorem set_visitor (s : Sight) (search : EnclosingSearch) :
    (visitor schema index lines s.info s.visit search).set =
      s.set?.elim search.set fun x =>
        if x.isAround index lines then some (x.enclosing? schema) else search.set := by
  obtain ⟨info, visit⟩ := s
  cases visit with
  | enterSet set owner => exact set_atSet info set owner search rfl
  | var name span => exact set_atVariable info name span search
  | _ => rfl

/-- A run over visits ends with the last set around the lines, or with what was found before if
there is none. -/
theorem set_run (sights : List Sight) (search : EnclosingSearch) :
    ((visitor schema index lines).run sights search).set =
      (((sights.filterMap Sight.set?).filter (·.isAround index lines)).getLast?.map
        (·.enclosing? schema)).or search.set := by
  induction sights generalizing search with
  | nil => rfl
  | cons s sights ih =>
    rw [Visitor.run_cons, ih, set_visitor]
    cases hset : s.set? with
    | none => rw [List.filterMap_cons_none hset, Option.elim_none]
    | some x =>
      rw [List.filterMap_cons_some hset, Option.elim_some]
      by_cases haround : x.isAround index lines = true
      · -- What is found here stays exactly if no later set is around the lines.
        rw [List.filter_cons_of_pos haround, List.getLast?_cons, if_pos haround]
        cases ((sights.filterMap Sight.set?).filter (·.isAround index lines)).getLast? <;> rfl
      · rw [List.filter_cons_of_neg haround, if_neg haround]

end EnclosingSearch

/-- The set that is found is the last one around the lines, if its type is known. -/
theorem Enclosing.map_set_find? (schema : Schema) (d : Document) (source : String)
    (lines : LineRange) :
    (find? schema d source lines).map (·.set) =
      (d.setsAround schema (LineIndex.ofString source) lines).getLast?.bind
        (·.enclosing? schema) := by
  have hsets : (Visits.ofDocument schema d).filterMap Sight.set? = d.sets schema := by
    rw [(Visits.observes_sets schema).ofDocument, Document.sets, List.filterMap_eq_flatMap_toList]
  have hset : (Walk.document schema
        (EnclosingSearch.visitor schema (LineIndex.ofString source) lines) d .initial).set =
      (d.setsAround schema (LineIndex.ofString source) lines).getLast?.map
        (·.enclosing? schema) := by
    rw [Walk.document_eq_run, EnclosingSearch.set_run, hsets]
    exact Option.or_none
  simp only [find?, hset]
  cases (d.setsAround schema (LineIndex.ofString source) lines).getLast? with
  | none => rfl
  | some x => cases h : x.enclosing? schema <;> simp [h]

/-! ## The last set around the lines is innermost -/

namespace SetSight

variable {index : LineIndex} {lines : LineRange} {x y : SetSight}

/-- The owner of a set is around some lines exactly if it starts before them and ends after them. -/
theorem isAround_iff {span : Span} (h : x.owner = some span) :
    x.isAround index lines = true ↔
      (index.position span.start).line ≤ lines.first ∧
        lines.last ≤ (index.position span.stop).line := by
  simp only [isAround, h, Option.any_some, LineRange.contains, LineIndex.lineRange,
    Bool.and_eq_true]
  exact and_congr decide_eq_true_iff decide_eq_true_iff

/-- What spans the owner of a set around some lines is around them. -/
theorem isAround_of_within {outer inner : Span} (hx : x.owner = some outer)
    (hy : y.owner = some inner) (hwithin : inner.Within outer)
    (h : y.isAround index lines = true) : x.isAround index lines = true := by
  rw [isAround_iff hy] at h
  rw [isAround_iff hx]
  have hstart := index.line_mono hwithin.1
  have hstop := index.line_mono hwithin.2
  omega

end SetSight

namespace Document

variable {schema : Schema} {index : LineIndex} {lines : LineRange} {d : Document} {x y : SetSight}
  {text : String}

/-- The owner of a set has a span. -/
theorem exists_owner (h : parse? text = some d) (hx : x ∈ d.sets schema) :
    ∃ span, x.owner = some span := by
  obtain ⟨ancestors, n, hn, -, -, howner, -⟩ := mem_sets_iff.mp hx
  obtain ⟨span, hspan, -⟩ := exists_span h (mem_standings_iff.mpr hn)
  exact ⟨span, howner.trans hspan⟩

/-- A set of the document is the last one around the lines, precedes it, or comes after it and is
not around the lines. -/
theorem precedes_or_of_getLast? (h : parse? text = some d)
    (hx : (d.setsAround schema index lines).getLast? = some x) (hy : y ∈ d.sets schema) :
    y = x ∨ y.Precedes x ∨ x.Precedes y ∧ y.isAround index lines = false := by
  rw [setsAround, List.getLast?_filter] at hx
  obtain ⟨-, back, front, heq, hback⟩ := List.find?_eq_some_iff_append.mp hx
  -- Read from the end, the sets up to the last one around the lines are not around them.
  have hsets := List.pairwise_reverse.mpr (sets_pairwise schema h)
  rw [heq, List.pairwise_append, List.pairwise_cons] at hsets
  obtain ⟨-, ⟨hfront, -⟩, hbehind⟩ := hsets
  rw [← List.mem_reverse, heq, List.mem_append, List.mem_cons] at hy
  rcases hy with hy | rfl | hy
  · have haround := hback y hy
    exact .inr (.inr ⟨hbehind y hy x List.mem_cons_self, by simpa using haround⟩)
  · exact .inl rfl
  · exact .inr (.inl (hfront y hy))

/-- The sets that have the last one around some lines inside them are around the lines. -/
theorem isAround_of_inSet (h : parse? text = some d)
    (hx : (d.setsAround schema index lines).getLast? = some x) (hy : y ∈ d.sets schema)
    (hin : y.address.InSet 0 x.address) : y.isAround index lines = true := by
  obtain ⟨hmem, haround⟩ := mem_setsAround_iff.mp (List.mem_of_getLast? hx)
  rcases precedes_or_of_getLast? h hx hy with rfl | hprecedes | ⟨hprecedes, -⟩
  · exact haround
  · obtain ⟨outer, houter⟩ := exists_owner h hy
    obtain ⟨inner, hinner⟩ := exists_owner h hmem
    exact SetSight.isAround_of_within houter hinner
      (hprecedes.inside hin outer houter inner hinner) haround
  · -- A set comes before what is inside it, so it cannot come after `x`.
    exact absurd hin.before (List.lt_asymm hprecedes.before)

/-- The sets inside the last one around some lines are not around the lines. -/
theorem not_isAround_of_inSet (h : parse? text = some d)
    (hx : (d.setsAround schema index lines).getLast? = some x) (hy : y ∈ d.sets schema)
    (hin : x.address.InSet 0 y.address) : y.isAround index lines = false := by
  rcases precedes_or_of_getLast? h hx hy with rfl | hprecedes | ⟨-, haround⟩
  · exact absurd hin.before (Address.not_before_self _)
  · exact absurd hin.before (List.lt_asymm hprecedes.before)
  · exact haround

/-- No selection of a document is on a range of lines that ends before it starts. -/
theorem isInside_eq_false (h : parse? text = some d) (hx : x ∈ d.sets schema)
    (hlines : lines.last < lines.first) {c : Selection} (hc : c ∈ x.selections) :
    Enclosing.isInside index lines c = false := by
  obtain ⟨ancestors, n, hn, hselections, -⟩ := mem_sets_iff.mp hx
  rw [hselections] at hc
  obtain ⟨i, hi⟩ := List.mem_iff_getElem?.mp hc
  obtain ⟨span, hspan, hle⟩ := exists_span h (mem_standings_iff.mpr (.selection hn hi))
  have hcspan : c.span = some span := by cases c <;> exact hspan
  -- A selection ends on the line where it starts or on a later one.
  have hline := index.line_mono hle
  rw [Bool.eq_false_iff, ne_eq, Enclosing.isInside_iff hcspan]
  omega

end Document

namespace FragmentPlan

variable {schema : Schema} {d : Document} {source : String} {lines : LineRange}

/-- Nothing becomes a fragment exactly if no set is found or nothing in it is on the lines. -/
theorem find?_eq_none_iff : find? schema d source lines = none ↔
    ∀ e ∈ (Enclosing.find? schema d source lines).map (·.set), ∀ c ∈ e.selections,
      Enclosing.isInside (LineIndex.ofString source) lines c = false := by
  unfold find?
  cases hfound : Enclosing.find? schema d source lines with
  | none => simp
  | some found =>
    have hindex : found.index = LineIndex.ofString source := by
      obtain ⟨set, -, h⟩ := Option.bind_eq_some_iff.mp hfound
      cases h
      rfl
    -- The children come with their numbers, which do not matter here.
    have hchildren : found.children lines = [] ↔ ∀ c ∈ found.set.selections,
        Enclosing.isInside (LineIndex.ofString source) lines c = false := by
      rw [Enclosing.children, List.filter_eq_nil_iff, hindex]
      constructor
      · intro h c hc
        obtain ⟨i, hi⟩ := List.mem_iff_getElem?.mp hc
        simpa using h (c, i) (List.mk_mem_zipIdx_iff_getElem?.mpr hi)
      · intro h p hp
        simpa using h p.1 (List.fst_mem_of_mem_zipIdx hp)
    simp [← hchildren]

/-- When nothing becomes a fragment, said of the last set around the lines. -/
theorem find?_eq_none_iff_getLast? : find? schema d source lines = none ↔
    d.setsAround schema (LineIndex.ofString source) lines = [] ∨
      ∃ x ∈ (d.setsAround schema (LineIndex.ofString source) lines).getLast?,
        x.typeName.bind schema.type? = none ∨
          ∀ c ∈ x.selections,
            Enclosing.isInside (LineIndex.ofString source) lines c = false := by
  rw [find?_eq_none_iff, Enclosing.map_set_find?, ← List.getLast?_eq_none_iff]
  cases (d.setsAround schema (LineIndex.ofString source) lines).getLast? with
  | none => simp
  | some x =>
    simp only [Option.bind_some, reduceCtorEq, false_or, Option.mem_some_iff, exists_eq_left',
      ← SetSight.enclosing?_eq_none_iff]
    cases hset : x.enclosing? schema with
    | none => simp
    | some e => simp [SetSight.eq_of_enclosing? hset]

/-- The selections that become a fragment are taken from the last selection set, in document order,
whose owner spans the lines. All sets around that one span the lines as well, and none inside it
does. Nothing becomes a fragment exactly if no owner spans the lines, if the schema does not have
the type of the last set, or if no selection of that set is on the lines, as when the lines end
before they start. -/
theorem find?_innermost (h : Document.parse? source = some d) (schema : Schema)
    (lines : LineRange) :
    let index := LineIndex.ofString source
    let around := d.setsAround schema index lines
    (∀ x, x ∈ d.sets schema ↔ ∃ ancestors n, Standing.In d ⟨x.address, ancestors, .node n⟩ ∧
        x.selections = n.selections ∧ n.selections ≠ [] ∧ x.owner = n.span ∧
        x.typeName = schema.selectedType (n :: ancestors)) ∧
      (d.sets schema).Pairwise (fun x y => x.address.Before y.address) ∧
      (Enclosing.find? schema d source lines).map (·.set) =
        around.getLast?.bind (·.enclosing? schema) ∧
      (∀ x ∈ around.getLast?, ∀ y ∈ d.sets schema,
        (y.address.InSet 0 x.address → y.isAround index lines = true) ∧
          (x.address.InSet 0 y.address → y.isAround index lines = false)) ∧
      (find? schema d source lines = none ↔
        around = [] ∨ ∃ x ∈ around.getLast?, x.typeName.bind schema.type? = none ∨
          ∀ c ∈ x.selections, Enclosing.isInside index lines c = false) ∧
      (lines.last < lines.first → find? schema d source lines = none) := by
  intro index around
  refine ⟨fun x => Document.mem_sets_iff, (Document.sets_pairwise schema h).imp (·.before),
    Enclosing.map_set_find? schema d source lines, ?_, find?_eq_none_iff_getLast?, ?_⟩
  · intro x hx y hy
    exact ⟨Document.isAround_of_inSet h hx hy, Document.not_isAround_of_inSet h hx hy⟩
  · -- Lines that end before they start have no selection on them, whatever the last set is.
    intro hlines
    rw [find?_eq_none_iff_getLast?]
    cases hlast : around.getLast? with
    | none => exact .inl (List.getLast?_eq_none_iff.mp hlast)
    | some x =>
      have hx := (Document.mem_setsAround_iff.mp (List.mem_of_getLast? hlast)).1
      exact .inr ⟨x, rfl, .inr fun c hc => Document.isInside_eq_false h hx hlines hc⟩

end FragmentPlan

/-- A schema whose query type has fields `a`, `b` and `c` of its own type and numbers `x` and
`y`. -/
def nestedQueries : Schema :=
  ⟨[⟨"Query", none, .object []
      ([("a", "Query"), ("b", "Query"), ("c", "Query"), ("x", "Int"), ("y", "Int")].map
        fun (name, type) => ⟨none, name, [], .named type false, []⟩)⟩],
    [], [(.query, "Query")]⟩

/-- The text `{ a {`, `c { x } } b { y`, `} }` on three lines: the sets of `c` and `b` are both
around the second one. -/
def sharedLine : String := "\x7b a \x7b\n  c \x7b x \x7d \x7d b \x7b y\n\x7d \x7d"

namespace FragmentPlan

/-- The last set around the first two lines is that of `a`. That of the query, which it is in, is
around them too, and that of `c`, which is in it, is not; lines in the wrong order take nothing. -/
theorem find?_innermost_sharedLine :
    ∃ d x, Document.parse? sharedLine = some d ∧
      (d.setsAround nestedQueries (.ofString sharedLine) ⟨0, 1⟩).getLast? = some x ∧
      x.address = ⟨0, [0]⟩ ∧
      (∀ y ∈ d.sets nestedQueries,
        (y.address.InSet 0 x.address → y.isAround (.ofString sharedLine) ⟨0, 1⟩ = true) ∧
          (x.address.InSet 0 y.address → y.isAround (.ofString sharedLine) ⟨0, 1⟩ = false)) ∧
      find? nestedQueries d sharedLine ⟨1, 0⟩ = none := by
  have hlast : ((Document.parse? sharedLine).bind fun d =>
      (d.setsAround nestedQueries (.ofString sharedLine) ⟨0, 1⟩).getLast?.map (·.address)) =
        some ⟨0, [0]⟩ := by
    decide +kernel
  obtain ⟨d, hd, hlast⟩ := Option.bind_eq_some_iff.mp hlast
  obtain ⟨x, hx, haddress⟩ := Option.map_eq_some_iff.mp hlast
  obtain ⟨-, -, -, hinnermost, -⟩ := find?_innermost hd nestedQueries ⟨0, 1⟩
  obtain ⟨-, -, -, -, -, hnone⟩ := find?_innermost hd nestedQueries ⟨1, 0⟩
  exact ⟨d, x, hd, hx, haddress, hinnermost x hx, hnone (by decide)⟩

end FragmentPlan

end EmbeddedGraphQL
