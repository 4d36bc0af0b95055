import EmbeddedGraphQL.Record
import EmbeddedGraphQL.Proofs.Lists
import EmbeddedGraphQL.Proofs.Walk.Preorder

/-!
# The two lookups of a record

A record path may lead to several places of a document. `Record.locate?` takes the first of them,
`Record.find?` the first one whose type the schema knows. They take the same place exactly if the
first one has a known type.

* `Document.records`: all places that a path leads to, in document order.
* `Record.locate?_eq`, `Record.find?_eq_captured`: which of them the two lookups take.
* `Record.find?_of_records`, `Record.find?_eq_none_iff`: all that is told of the record found.
* `Record.locate?_eq_found_iff`: when they agree.
-/

namespace EmbeddedGraphQL

/-! ## The places of a path -/

namespace Standing

/-- The record path of something that stands in a document. -/
def path (s : Standing) : RecordPath :=
  match s.entry with
  | .node n => .ofLine (n :: s.ancestors)
  | .spread _ => .ofLine s.ancestors

/-- Whether something that stands in a document is a record: a spread is none, nor is an inline
fragment without a type condition. -/
def isRecord (s : Standing) : Bool :=
  match s.entry with
  | .node (.inline f _) => f.typeCondition.isSome
  | .node _ => true
  | .spread _ => false

/-- The type of a record: for a field the named type inside its declared type, else the type that
its set selects on. -/
def recordType? (schema : Schema) (s : Standing) : Option SchemaType :=
  match s.entry with
  | .node n => (schema.selectedType (n :: s.ancestors)).bind schema.type?
  | .spread _ => none

/-- The description of a record: a field is described by its declaration, any other record by its
type. -/
def description? (schema : Schema) (s : Standing) : Option String :=
  match s.entry with
  | .node (.field _ _) => (s.declaration? schema).bind (·.description)
  | _ => (s.recordType? schema).bind (·.description)

/-- Whether a record path leads to something that stands in a document. -/
def isRecordOf (path : String) (s : Standing) : Bool := s.isRecord && s.path.agreesWith path

end Standing

/-- The records of a path, in document order. -/
def Document.records (d : Document) (path : String) : List Standing :=
  d.standings.filter (Standing.isRecordOf path)

/-- What a path leads to is a node that stands in the document; an inline fragment has a type
condition then. -/
theorem Document.exists_node_of_mem_records {d : Document} {path : String} {s : Standing}
    (h : s ∈ d.records path) :
    ∃ n, s.entry = .node n ∧ Standing.In d ⟨s.address, s.ancestors, .node n⟩ ∧
      ∀ f set, n = .inline f set → f.typeCondition.isSome := by
  obtain ⟨hin, hrecord⟩ := List.mem_filter.mp h
  have hrecord : s.isRecord = true := (Bool.and_eq_true_iff.mp hrecord).1
  obtain ⟨address, ancestors, entry⟩ := s
  cases entry with
  | spread spread => cases hrecord
  | node n =>
    refine ⟨n, rfl, mem_standings_iff.mp hin, ?_⟩
    rintro f set rfl
    exact hrecord

/-- The records of a path come in the order of the document. -/
theorem Document.records_pairwise (d : Document) (path : String) :
    (d.records path).Pairwise fun s t => s.address.Before t.address :=
  d.standings_pairwise.filter _

/-! ## Lookups as folds over reports -/

namespace Record

/-- The candidate that a report is about, if it is about one. -/
def ofReport? (schema : Schema) (r : Report) : Option Candidate :=
  match r.visit with
  | .enterOperation o => some (.ofType (r.parentType.bind schema.type?) o.span)
  | .enterFragment f => some (.ofType (r.parentType.bind schema.type?) f.span)
  | .enterField f =>
    some ⟨r.fieldType.bind fun type => schema.type? type.innerName, r.declaration, f.span,
      r.declaration.bind (·.description)⟩
  | .enterInline f =>
    if f.typeCondition.isSome then some (.ofType (r.parentType.bind schema.type?) f.span) else none
  | _ => none

/-- Only visits that enter something show candidates. -/
theorem candidate?_eq (schema : Schema) (s : Sight) :
    candidate? schema s.info s.visit = s.report?.bind (ofReport? schema) := by
  obtain ⟨info, visit⟩ := s
  cases visit <;> rfl

/-- The candidate that something standing in a document is. -/
theorem ofReport?_report (schema : Schema) (s : Standing) :
    ofReport? schema (s.report schema) =
      if s.isRecord then
        some ⟨s.recordType? schema, s.declaration? schema, s.span, s.description? schema⟩
      else none := by
  obtain ⟨address, ancestors, entry⟩ := s
  -- Only fields and inline fragments with a type condition have records.
  cases entry with
  | spread spread => rfl
  | node n =>
    cases n with
    | operation o => rfl
    | fragment f => rfl
    | field f set =>
      simp only [ofReport?, Standing.report, Node.visit, Standing.isRecord, Standing.recordType?,
        Standing.declaration?, Standing.description?, Standing.span, Node.span,
        Schema.selectedType, Schema.innermostField, if_true]
      rw [Option.bind_map, Option.bind_map]
      rfl
    | inline f set =>
      cases h : f.typeCondition.isSome <;>
        simp [ofReport?, Standing.report, Node.visit, Standing.isRecord, Standing.recordType?,
          Standing.declaration?, Standing.description?, Standing.span, Node.span,
          Node.typingLine, Candidate.ofType, h]

/-- The path that is reported is that of the place. -/
theorem path_report (schema : Schema) (s : Standing) : (s.report schema).path = s.path := by
  obtain ⟨address, ancestors, entry⟩ := s
  cases entry <;> rfl

/-- The address that is reported is that of the place. -/
theorem address_report (schema : Schema) (s : Standing) :
    (s.report schema).address = s.address := by
  unfold Standing.report
  split <;> rfl

/-- A visitor that minds nothing but what is entered runs through the reports alone. -/
theorem run_eq_foldl {σ : Type} {visitor : Visitor σ} {step : σ → Report → σ}
    (h : ∀ (s : Sight) (state : σ), visitor s.info s.visit state =
      (s.report?.map (step state)).getD state)
    (schema : Schema) (d : Document) (state : σ) :
    Walk.document schema visitor d state =
      d.standings.foldl (fun state s => step state (s.report schema)) state := by
  rw [Walk.document_eq_run, Visitor.run]
  simp only [h]
  rw [← List.foldl_map, ← Visits.reports_ofDocument, Visits.reports, List.foldl_filterMap]
  congr 1
  funext state s
  cases s.report? <;> rfl

/-- What finding a record does with a report. -/
def captureReport (schema : Schema) (path : String) (found : Option Record) (r : Report) :
    Option Record :=
  match ofReport? schema r with
  | none => found
  | some c =>
    if r.path.agreesWith path then
      match found with
      | some record => some { record with description := record.description.or c.description }
      | none => c.type.map fun type => ⟨r.address, type, c.declaration, c.span, c.description⟩
    else found

/-- What locating a record does with a report. -/
def locateReport (schema : Schema) (path : String) (found : Option Address) (r : Report) :
    Option Address :=
  if found.isNone && (ofReport? schema r).isSome && r.path.agreesWith path then some r.address
  else found

/-- Finding a record goes through the reports. -/
theorem find?_eq_foldl (schema : Schema) (d : Document) (path : String) :
    find? schema d path =
      d.standings.foldl (fun found s => captureReport schema path found (s.report schema))
        none := by
  refine run_eq_foldl (fun s found => ?_) schema d none
  rw [capture, candidate?_eq]
  cases hreport : s.report? with
  | none => rfl
  | some r =>
    obtain ⟨-, rfl⟩ : s.visit.isEntry = true ∧ _ := by simpa [Sight.report?] using hreport
    rfl

/-- Locating a record goes through the reports. -/
theorem locate?_eq_foldl (schema : Schema) (d : Document) (path : String) :
    locate? schema d path =
      d.standings.foldl (fun found s => locateReport schema path found (s.report schema))
        none := by
  refine run_eq_foldl (fun s found => ?_) schema d none
  rw [locator, candidate?_eq]
  cases hreport : s.report? with
  | none => simp
  | some r =>
    obtain ⟨-, rfl⟩ : s.visit.isEntry = true ∧ _ := by simpa [Sight.report?] using hreport
    rfl

/-! ## Which record the lookups take -/

/-- The record that a place is on its own, if its type is known. -/
def ofStanding? (schema : Schema) (s : Standing) : Option Record :=
  (s.recordType? schema).map fun type =>
    ⟨s.address, type, s.declaration? schema, s.span, s.description? schema⟩

/-- What another place of a path changes in what is found: the first one whose type is known is
taken, and after that only a missing description is. -/
def capturePlace (schema : Schema) (found : Option Record) (s : Standing) : Option Record :=
  match found with
  | some r => some { r with description := r.description.or (s.description? schema) }
  | none => ofStanding? schema s

/-- What a report changes in what is found. -/
theorem captureReport_report (schema : Schema) (path : String) (found : Option Record)
    (s : Standing) :
    captureReport schema path found (s.report schema) =
      if s.isRecordOf path then capturePlace schema found s else found := by
  rw [captureReport, ofReport?_report, path_report, address_report, Standing.isRecordOf]
  cases s.isRecord with
  | false => rfl
  | true => cases s.path.agreesWith path <;> cases found <;> rfl

/-- What a report changes in the place of what is located. -/
theorem locateReport_report (schema : Schema) (path : String) (found : Option Address)
    (s : Standing) :
    locateReport schema path found (s.report schema) =
      found.or (if s.isRecordOf path then some s.address else none) := by
  have hrecord : (ofReport? schema (s.report schema)).isSome = s.isRecord := by
    rw [ofReport?_report]
    cases s.isRecord <;> rfl
  rw [locateReport, path_report, address_report, hrecord, Standing.isRecordOf]
  cases found <;> simp

/-- The first result among some of the places is that among those a path leads to. -/
theorem findSome?_records {β : Type} (f : Standing → Option β) (d : Document) (path : String) :
    d.standings.findSome? (fun s => if s.isRecordOf path then f s else none) =
      (d.records path).findSome? f := by
  rw [Document.records]
  induction d.standings with
  | nil => rfl
  | cons s rest ih =>
    rw [List.findSome?_cons, List.filter_cons]
    cases hs : s.isRecordOf path <;> simp [ih, List.findSome?_cons]

/-- Locating takes the first place of a path. -/
theorem locate?_eq (schema : Schema) (d : Document) (path : String) :
    locate? schema d path = (d.records path).head?.map (·.address) := by
  rw [locate?_eq_foldl]
  simp only [locateReport_report]
  rw [foldl_or_eq, Option.none_or, findSome?_records]
  cases d.records path <;> rfl

/-- Finding goes through the places of a path. -/
theorem find?_eq_captured (schema : Schema) (d : Document) (path : String) :
    find? schema d path = (d.records path).foldl (capturePlace schema) none := by
  rw [find?_eq_foldl, Document.records, List.foldl_filter]
  simp only [captureReport_report]

/-- A record that is found takes the first description there is among itself and later places. -/
theorem foldl_capturePlace_some (schema : Schema) (places : List Standing) (r : Record) :
    places.foldl (capturePlace schema) (some r) =
      some { r with
        description := r.description.or (places.findSome? (Standing.description? schema)) } := by
  induction places generalizing r with
  | nil => simp
  | cons s places ih =>
    rw [List.foldl_cons, capturePlace, ih, List.findSome?_cons]
    cases r.description <;> cases s.description? schema <;> rfl

/-- Places of unknown type are passed over. -/
theorem foldl_capturePlace_none {schema : Schema} {places : List Standing}
    (h : ∀ s ∈ places, s.recordType? schema = none) :
    places.foldl (capturePlace schema) none = none := by
  induction places with
  | nil => rfl
  | cons s places ih =>
    obtain ⟨hs, hrest⟩ := List.forall_mem_cons.mp h
    rw [List.foldl_cons, capturePlace, ofStanding?, hs, Option.map_none]
    exact ih hrest

/-- All that is told of the record found: the first place of the path whose type is known gives its
address, type, declaration and span, and that place or else a later one its description. -/
theorem find?_of_records {schema : Schema} {d : Document} {path : String}
    {before after : List Standing} {s : Standing} {type : SchemaType}
    (hrecords : d.records path = before ++ s :: after)
    (hbefore : ∀ t ∈ before, t.recordType? schema = none) (htype : s.recordType? schema = some type) :
    find? schema d path =
      some ⟨s.address, type, s.declaration? schema, s.span,
        (s :: after).findSome? (Standing.description? schema)⟩ := by
  rw [find?_eq_captured, hrecords, List.foldl_append, foldl_capturePlace_none hbefore,
    List.foldl_cons, capturePlace, ofStanding?, htype, Option.map_some, foldl_capturePlace_some,
    List.findSome?_cons]
  cases s.description? schema <;> rfl

/-- Nothing is found exactly if the path leads to no place of known type. -/
theorem find?_eq_none_iff {schema : Schema} {d : Document} {path : String} :
    find? schema d path = none ↔ ∀ s ∈ d.records path, s.recordType? schema = none := by
  rw [← List.findSome?_eq_none_iff]
  cases hfirst : (d.records path).findSome? (Standing.recordType? schema) with
  | none =>
    rw [find?_eq_captured, foldl_capturePlace_none (List.findSome?_eq_none_iff.mp hfirst)]
    exact iff_of_true rfl rfl
  | some type =>
    obtain ⟨before, s, after, hrecords, htype, hbefore⟩ := List.findSome?_eq_some_iff.mp hfirst
    rw [find?_of_records hrecords hbefore htype]
    simp

/-- A record that is found comes from the first place of the path whose type is known. -/
theorem exists_records_of_find? {schema : Schema} {d : Document} {path : String} {r : Record}
    (h : find? schema d path = some r) :
    ∃ before s after, d.records path = before ++ s :: after ∧
      (∀ t ∈ before, t.recordType? schema = none) ∧ s.recordType? schema = some r.type ∧
      r = ⟨s.address, r.type, s.declaration? schema, s.span,
        (s :: after).findSome? (Standing.description? schema)⟩ := by
  cases hfirst : (d.records path).findSome? (Standing.recordType? schema) with
  | none =>
    rw [find?_eq_none_iff.mpr (List.findSome?_eq_none_iff.mp hfirst)] at h
    cases h
  | some type =>
    obtain ⟨before, s, after, hrecords, htype, hbefore⟩ := List.findSome?_eq_some_iff.mp hfirst
    rw [find?_of_records hrecords hbefore htype] at h
    cases h
    exact ⟨before, s, after, hrecords, hbefore, htype, rfl⟩

/-- The place and the type of a record. -/
def key (r : Record) : Address × SchemaType := (r.address, r.type)

/-- The place and the type that a record would be found with. -/
def key? (schema : Schema) (s : Standing) : Option (Address × SchemaType) :=
  (s.recordType? schema).map (s.address, ·)

/-- The place, the type and the span of a record. -/
def trace (r : Record) : (Address × SchemaType) × Option Span := (r.key, r.span)

/-- The place, the type and the span that a record would be found with. -/
def trace? (schema : Schema) (s : Standing) : Option ((Address × SchemaType) × Option Span) :=
  (key? schema s).map (·, s.span)

/-- Finding takes the first place of a path with a known type, and its span. -/
theorem find?_trace (schema : Schema) (d : Document) (path : String) :
    (find? schema d path).map trace = (d.records path).findSome? (trace? schema) := by
  have htrace : ∀ t, t.recordType? schema = none → trace? schema t = none := fun t ht => by
    rw [trace?, key?, ht, Option.map_none, Option.map_none]
  cases hfirst : (d.records path).findSome? (Standing.recordType? schema) with
  | none =>
    have hnone := List.findSome?_eq_none_iff.mp hfirst
    rw [find?_eq_none_iff.mpr hnone, Option.map_none, eq_comm, List.findSome?_eq_none_iff]
    exact fun t ht => htrace t (hnone t ht)
  | some type =>
    obtain ⟨before, s, after, hrecords, htype, hbefore⟩ := List.findSome?_eq_some_iff.mp hfirst
    have hpassed : before.findSome? (trace? schema) = none :=
      List.findSome?_eq_none_iff.mpr fun t ht => htrace t (hbefore t ht)
    have hfound : (s :: after).findSome? (trace? schema) = some ((s.address, type), s.span) := by
      rw [List.findSome?_cons, trace?, key?, htype, Option.map_some, Option.map_some]
    rw [find?_of_records hrecords hbefore htype, hrecords, List.findSome?_append, hpassed,
      Option.none_or, hfound]
    rfl

/-- A record that is found is the first one of its path whose type is known. -/
theorem exists_of_find? {schema : Schema} {d : Document} {path : String} {m : Record}
    (h : find? schema d path = some m) :
    ∃ s, (d.records path).find? (fun s => (s.recordType? schema).isSome) = some s ∧
      m.span = s.span := by
  obtain ⟨before, s, after, hrecords, hbefore, htype, hm⟩ := exists_records_of_find? h
  refine ⟨s, List.find?_eq_some_iff_append.mpr ⟨?_, before, after, hrecords, ?_⟩, by rw [hm]⟩
  · rw [htype]
    rfl
  · intro t ht
    rw [hbefore t ht]
    rfl

/-- Finding takes the first place of a path with a known type. -/
theorem find?_eq (schema : Schema) (d : Document) (path : String) :
    (find? schema d path).map key = (d.records path).findSome? (key? schema) := by
  have htrace := congrArg (Option.map Prod.fst) (find?_trace schema d path)
  rw [Option.map_map, List.map_findSome?] at htrace
  have hkey : Option.map Prod.fst ∘ trace? schema = key? schema := by
    funext s
    simp [trace?, Function.comp_def]
  rw [← hkey, ← htrace]
  rfl

/-- A record that is found stands at one of the places of its path, with its type. -/
theorem exists_standing_of_find? {schema : Schema} {d : Document} {path : String} {m : Record}
    (h : find? schema d path = some m) :
    ∃ s ∈ d.records path, s.address = m.address ∧ s.recordType? schema = some m.type := by
  obtain ⟨before, s, after, hrecords, -, htype, hm⟩ := exists_records_of_find? h
  exact ⟨s, by simp [hrecords], by rw [hm], htype⟩

/-- If a record is found, its path leads somewhere; and the first place it leads to, if that has a
known type, has the type of the record. -/
theorem exists_head_of_find? {schema : Schema} {d : Document} {path : String} {m : Record}
    (h : find? schema d path = some m) :
    ∃ s, (d.records path).head? = some s ∧ ∀ type ∈ s.recordType? schema, m.type = type := by
  have hkey := find?_eq schema d path
  rw [h, Option.map_some] at hkey
  cases hrecords : d.records path with
  | nil => simp [hrecords] at hkey
  | cons s rest =>
    refine ⟨s, rfl, fun type htype => ?_⟩
    rw [hrecords, List.findSome?_cons, key?, Option.mem_def.mp htype, Option.map_some] at hkey
    exact congrArg Prod.snd (Option.some.inj hkey)

/-- Suppose that a record is found. Locating takes the first place of the path, in document order.
This is the place of the record exactly if the type of what stands there is known, and only then is
the type of the record, on which a field to be added is looked up, the type of the node that it is
added to. -/
theorem locate?_eq_found_iff {schema : Schema} {d : Document} {path : String} {m : Record}
    (h : find? schema d path = some m) :
    ∃ s, (d.records path).head? = some s ∧ s.Resolves d ∧
      locate? schema d path = some s.address ∧
      (s.address = m.address ↔ (s.recordType? schema).isSome) ∧
      (s.recordType? schema = some m.type ↔ (s.recordType? schema).isSome) := by
  have hkey : (d.records path).findSome? (key? schema) = some (key m) := by
    rw [← find?_eq, h, Option.map_some]
  cases hrecords : d.records path with
  | nil => simp [hrecords] at hkey
  | cons s rest =>
    have hin : s.In d := by
      have hs : s ∈ d.records path := hrecords ▸ List.mem_cons_self
      exact Document.mem_standings_iff.mp (List.mem_filter.mp hs).1
    refine ⟨s, rfl, hin.resolves, by rw [locate?_eq, hrecords]; rfl, ?_⟩
    rw [hrecords, List.findSome?_cons] at hkey
    cases htype : s.recordType? schema with
    | some type =>
      have hsome : key? schema s = some (s.address, type) := by rw [key?, htype, Option.map_some]
      simp only [hsome, Option.some.injEq, key, Prod.mk.injEq] at hkey
      simp [hkey]
    | none =>
      have hnone : key? schema s = none := by rw [key?, htype, Option.map_none]
      simp only [hnone] at hkey
      obtain ⟨t, ht, htkey⟩ := List.exists_of_findSome?_eq_some hkey
      obtain ⟨type, -, htm⟩ := Option.map_eq_some_iff.mp htkey
      have htaddress : t.address = m.address := congrArg Prod.fst htm
      -- The record found stands after the first one, so that it cannot have the same address.
      have hbefore : s.address.Before t.address :=
        (List.pairwise_cons.mp (hrecords ▸ d.records_pairwise path)).1 t ht
      have hne : s.address ≠ m.address := by
        intro heq
        rw [heq, ← htaddress] at hbefore
        exact t.address.not_before_self hbefore
      simp [hne]

/-- A schema with a query type only. -/
def queriesOnly : Schema := ⟨[⟨"Query", none, .object [] []⟩], [], [(.query, "Query")]⟩

/-- The document `mutation { x } query { b }`. -/
def mutationFirst : Document :=
  ⟨[.operation ⟨.mutation, none, [], [], [.newField "x" []], none⟩,
    .operation ⟨.query, none, [], [], [.newField "b" []], none⟩]⟩

/-- The root path leads to the mutation and to the query; the query is found, as the type of the
mutation is not known, and the mutation is located. -/
theorem locate?_eq_found_iff_mutationFirst :
    ∃ m s, find? queriesOnly mutationFirst "fragment" = some m ∧ m.type.name = "Query" ∧
      (mutationFirst.records "fragment").head? = some s ∧
      locate? queriesOnly mutationFirst "fragment" = some s.address ∧
      (s.address = m.address ↔ (s.recordType? queriesOnly).isSome) := by
  obtain ⟨s, hs, -, hlocate, hiff, -⟩ :=
    locate?_eq_found_iff (m := ⟨⟨1, []⟩, ⟨"Query", none, .object [] []⟩, none, none, none⟩)
      (rfl : find? queriesOnly mutationFirst "fragment" = _)
  exact ⟨_, s, rfl, rfl, hs, hlocate, hiff⟩

/-- The lookups do not always agree on the place. -/
theorem not_locate?_eq_found :
    ¬ ∀ (schema : Schema) (d : Document) (path : String) (m : Record),
      find? schema d path = some m → locate? schema d path = some m.address := by
  intro h
  have hagree := h queriesOnly mutationFirst "fragment" _ rfl
  have hlocate : locate? queriesOnly mutationFirst "fragment" = some ⟨0, []⟩ := rfl
  rw [hlocate] at hagree
  exact absurd hagree (by decide)

end Record
end EmbeddedGraphQL
