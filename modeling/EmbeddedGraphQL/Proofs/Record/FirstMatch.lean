import EmbeddedGraphQL.Proofs.Record.Uniqueness

/-!
# First matches

The two lookups of a record, said of the list of all nodes that a record path may lead to. Locating
takes the first node of the path. Finding takes the first one of known type and keeps it: the nodes
of the same path behind it can only add a description where there was none.

* `Document.candidates`: the nodes that record paths lead to, in document order.
* `Record.find?_eq_some_iff`: what is found, by a split of that list at the node that is taken.
* `Record.lookups_eq_first`: the contract of both lookups.
-/

namespace EmbeddedGraphQL

/-- The nodes that record paths lead to, in document order: operations, fragments, fields, and
inline fragments with a type condition. -/
def Document.candidates (d : Document) : List Standing := d.standings.filter Standing.isRecord

namespace Document

variable {d : Document}

/-- The candidates are the records that stand in the document. -/
theorem mem_candidates_iff {s : Standing} : s ∈ d.candidates ↔ s.In d ∧ s.isRecord = true := by
  rw [candidates, List.mem_filter, mem_standings_iff]

/-- The candidates come in the order of the document. -/
theorem candidates_pairwise (d : Document) :
    d.candidates.Pairwise fun s t => s.address.Before t.address :=
  d.standings_pairwise.filter _

/-- The records of a path are the candidates with that joined path. -/
theorem records_eq_filter (d : Document) (path : String) :
    d.records path = d.candidates.filter (·.path.display = path) := by
  rw [records, candidates, List.filter_filter]
  apply List.filter_congr
  intro s _
  rw [Standing.isRecordOf, Bool.and_comm, Bool.eq_iff_iff, Bool.and_eq_true, Bool.and_eq_true,
    RecordPath.agreesWith_iff, decide_eq_true_iff]

end Document

namespace Record

variable {schema : Schema} {d : Document} {path : String}

/-- Locating takes the first candidate of the path. -/
theorem locate?_eq_find? (schema : Schema) (d : Document) (path : String) :
    locate? schema d path = (d.candidates.find? (·.path.display = path)).map (·.address) := by
  rw [locate?_eq, d.records_eq_filter, List.head?_filter]

/-- A record is found exactly if there is a candidate of the path with a known type that comes after
ones of unknown type only. It is that candidate, with the first description among it and those of
the path behind it. -/
theorem find?_eq_some_iff {r : Record} :
    find? schema d path = some r ↔
      ∃ before s after, d.candidates = before ++ s :: after ∧ s.path.display = path ∧
        (∀ t ∈ before, t.path.display = path → t.recordType? schema = none) ∧
        s.recordType? schema = some r.type ∧
        r = ⟨s.address, r.type, s.declaration? schema, s.span,
          (s :: after.filter (·.path.display = path)).findSome?
            (Standing.description? schema)⟩ := by
  constructor
  · intro h
    obtain ⟨before, s, after, hrecords, hbefore, htype, hr⟩ := exists_records_of_find? h
    -- A split of the filtered list comes from one of the whole list.
    rw [d.records_eq_filter, List.filter_eq_append_iff] at hrecords
    obtain ⟨first, second, hcandidates, rfl, hsecond⟩ := hrecords
    obtain ⟨passed, rest, rfl, hpassed, hs, rfl⟩ := List.filter_eq_cons_iff.mp hsecond
    refine ⟨first ++ passed, s, rest, by rw [hcandidates, List.append_assoc], by simpa using hs,
      ?_, htype, hr⟩
    intro t ht hpath
    rcases List.mem_append.mp ht with ht | ht
    · exact hbefore t (List.mem_filter.mpr ⟨ht, by simpa using hpath⟩)
    · exact absurd (by simpa using hpath) (hpassed t ht)
  · rintro ⟨before, s, after, hcandidates, hs, hbefore, htype, hr⟩
    have hrecords : d.records path = before.filter (·.path.display = path) ++
        s :: after.filter (·.path.display = path) := by
      rw [d.records_eq_filter, hcandidates, List.filter_append,
        List.filter_cons_of_pos (by simpa using hs)]
    rw [find?_of_records hrecords ?_ htype, ← hr]
    intro t ht
    obtain ⟨ht, hpath⟩ := List.mem_filter.mp ht
    exact hbefore t ht (by simpa using hpath)

/-- A record is found exactly if a candidate of the path has a known type. -/
theorem isSome_find?_iff :
    (find? schema d path).isSome = true ↔
      ∃ s ∈ d.candidates, s.path.display = path ∧ (s.recordType? schema).isSome = true := by
  rw [← not_iff_not, Bool.not_eq_true, Option.isSome_eq_false_iff, Option.isNone_iff_eq_none,
    find?_eq_none_iff, d.records_eq_filter]
  simp [List.mem_filter]

/-- Once a record is found, no visit changes anything but its description. -/
theorem exists_capture_some (schema : Schema) (path : String) (info : TypeInfo) (visit : Visit)
    (r : Record) :
    ∃ description, capture schema path info visit (some r) =
      some { r with description := description } := by
  unfold capture
  split
  · exact ⟨r.description, rfl⟩
  · split
    · exact ⟨_, rfl⟩
    · exact ⟨r.description, rfl⟩

/-- Both lookups go by the list of the nodes that record paths lead to, in document order. Locating
takes the address of the first one with the joined path, and finds nothing exactly if there is
none. Finding takes the first one with the joined path whose type the schema has, and finds nothing
exactly if there is none: the record has the address, the type, the span and the declaration of that
node, and the first description among it and the later ones of the path. No visit after that changes
more than the description. -/
theorem lookups_eq_first (schema : Schema) (d : Document) (path : String) :
    (∀ s, s ∈ d.candidates ↔ s.In d ∧ s.isRecord = true) ∧
      d.candidates.Pairwise (fun s t => s.address.Before t.address) ∧
      locate? schema d path = (d.candidates.find? (·.path.display = path)).map (·.address) ∧
      (locate? schema d path = none ↔ ∀ s ∈ d.candidates, s.path.display ≠ path) ∧
      ((find? schema d path).isSome = true ↔
        ∃ s ∈ d.candidates, s.path.display = path ∧ (s.recordType? schema).isSome = true) ∧
      (∀ r, find? schema d path = some r ↔
        ∃ before s after, d.candidates = before ++ s :: after ∧ s.path.display = path ∧
          (∀ t ∈ before, t.path.display = path → t.recordType? schema = none) ∧
          s.recordType? schema = some r.type ∧
          r = ⟨s.address, r.type, s.declaration? schema, s.span,
            (s :: after.filter (·.path.display = path)).findSome?
              (Standing.description? schema)⟩) ∧
      ∀ info visit r, ∃ description, capture schema path info visit (some r) =
        some { r with description := description } := by
  have hlocate := locate?_eq_find? schema d path
  refine ⟨fun s => Document.mem_candidates_iff, d.candidates_pairwise, hlocate, ?_,
    isSome_find?_iff, fun r => find?_eq_some_iff, exists_capture_some schema path⟩
  rw [hlocate, Option.map_eq_none_iff, List.find?_eq_none]
  simp

/-- A schema with a query type and a described type of notes. -/
def queriesAndNotes : Schema :=
  ⟨[⟨"Query", none, .object [] []⟩, ⟨"Note", some "A note", .object [] []⟩], [],
    [(.query, "Query")]⟩

/-- The document `mutation { x } query { b } fragment N on Note { c }`. -/
def threeRoots : Document :=
  ⟨[.operation ⟨.mutation, none, [], [], [.newField "x" []], none⟩,
    .operation ⟨.query, none, [], [], [.newField "b" []], none⟩,
    .fragment ⟨"N", "Note", [], [.newField "c" []], none⟩]⟩

/-- All three definitions have the root path. The mutation is located; the query is found, as the
type of the mutation is not known, and it takes its description from the fragment behind it. -/
theorem lookups_eq_first_threeRoots :
    ∃ r, find? queriesAndNotes threeRoots "fragment" = some r ∧ r.address = ⟨1, []⟩ ∧
      r.type.name = "Query" ∧ r.description = some "A note" ∧
      locate? queriesAndNotes threeRoots "fragment" = some ⟨0, []⟩ := by
  obtain ⟨-, -, hlocate, -, -, hfind, -⟩ := lookups_eq_first queriesAndNotes threeRoots "fragment"
  have hunknown : ∀ t ∈ threeRoots.candidates.take 2,
      (t.recordType? queriesAndNotes).isNone = true := by decide
  refine ⟨⟨⟨1, []⟩, ⟨"Query", none, .object [] []⟩, none, none, some "A note"⟩,
    (hfind _).mpr ⟨threeRoots.candidates.take 2, threeRoots.candidates.get ⟨2, by decide⟩,
      threeRoots.candidates.drop 3, rfl, rfl, ?_, rfl, rfl⟩, rfl, rfl, rfl, hlocate⟩
  exact fun t ht _ => Option.isNone_iff_eq_none.mp (hunknown t ht)

end Record
end EmbeddedGraphQL
