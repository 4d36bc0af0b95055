import EmbeddedGraphQL.Proofs.Lists
import EmbeddedGraphQL.Proofs.Record.FirstMatch
import EmbeddedGraphQL.Proofs.Walk.Growth

/-!
# Lookups in growing documents

In a document that grows, the records that were there keep their addresses, paths and types. A
lookup goes on to lead to the same place as long as no new record of the path comes before it.

* `Standing.Alike`: nodes that have the same outline, among nodes that have.
* `Record.locate?_eq_some_iff`, `Record.exists_isFirst`: both lookups by the order of addresses.
* `Document.Grows.locate?_eq_some`, `Document.Grows.locate?_eq`, `Document.Grows.exists_find?`: what
  the lookups give in a document that has grown.
-/

namespace EmbeddedGraphQL

/-! ## Nodes of the same outlines -/

namespace Outline

/-- Whether a node of an outline is a record. -/
def isRecord : Outline → Bool
  | .inline typeCondition => typeCondition.isSome
  | .operation _ | .fragment _ | .field _ => true

/-- The declaration of a node of an outline in a set on a type, if it is a field that has one. -/
def declaration? (schema : Schema) (outer : Option String) : Outline → Option FieldDeclaration
  | .field name => (outer.bind (schema.fieldType? · name)).bind (·.1)
  | .operation _ | .fragment _ | .inline _ => none

end Outline

namespace Standing

/-- Whether two things that stand somewhere are nodes of the same outline, among nodes of the same
outlines. -/
def Alike (s t : Standing) : Prop :=
  ∃ m n, s.entry = .node m ∧ t.entry = .node n ∧ m.outline = n.outline ∧
    s.ancestors.map Node.outline = t.ancestors.map Node.outline

variable {s t : Standing}

/-- Whether a node opens a record is read off its outline. -/
theorem isRecord_of_node {n : Node} (h : s.entry = .node n) : s.isRecord = n.outline.isRecord := by
  rw [isRecord, h]
  cases n <;> rfl

/-- The declaration of a node is read off its outline and the type around it. -/
theorem declaration?_of_node {schema : Schema} {n : Node} (h : s.entry = .node n) :
    s.declaration? schema = n.outline.declaration? schema (schema.selectedType s.ancestors) := by
  rw [declaration?, h]
  cases n <;> rfl

namespace Alike

variable (h : s.Alike t)
include h

/-- Standings that agree have one path. -/
theorem path : s.path = t.path := by
  obtain ⟨m, n, hm, hn, houtline, hline⟩ := h
  rw [Standing.path, Standing.path, hm, hn]
  simp only [RecordPath.ofLine_eq_outlines, List.map_cons, houtline, hline]

/-- Standings that agree open a record both or neither. -/
theorem isRecord : s.isRecord = t.isRecord := by
  obtain ⟨m, n, hm, hn, houtline, -⟩ := h
  rw [isRecord_of_node hm, isRecord_of_node hn, houtline]

/-- Standings that agree have one record type. -/
theorem recordType? (schema : Schema) : s.recordType? schema = t.recordType? schema := by
  obtain ⟨m, n, hm, hn, houtline, hline⟩ := h
  rw [Standing.recordType?, Standing.recordType?, hm, hn]
  simp only [Schema.selectedType_eq_outlines, List.map_cons, houtline, hline]

/-- Standings that agree have one declaration. -/
theorem declaration? (schema : Schema) : s.declaration? schema = t.declaration? schema := by
  obtain ⟨m, n, hm, hn, houtline, hline⟩ := h
  rw [declaration?_of_node hm, declaration?_of_node hn, Schema.selectedType_eq_outlines,
    Schema.selectedType_eq_outlines, houtline, hline]

end Alike
end Standing

/-! ## Lookups by the order of addresses -/

/-- A record is a node of the document. -/
theorem Document.exists_node_of_mem_candidates {d : Document} {s : Standing}
    (h : s ∈ d.candidates) : ∃ n, s.entry = .node n ∧ d.get? s.address = some n := by
  obtain ⟨hin, hrecord⟩ := mem_candidates_iff.mp h
  obtain ⟨address, line, entry⟩ := s
  cases entry with
  | spread spread => cases hrecord
  | node n => exact ⟨n, rfl, get?_eq_some_iff.mpr ⟨line, hin⟩⟩

/-- Where a node with more selections is written, all records that are new come after it. -/
theorem Document.not_before_of_new {d d' : Document} {a : Address} {n m : Node} {t : Standing}
    (hn : d.get? a = some n) (h : d.set? a m = some d') (hmore : n.selections <+: m.selections)
    (ht : t ∈ d'.candidates) (hnew : d.get? t.address = none) : ¬ t.address.Before a := by
  obtain ⟨k, -, hk⟩ := exists_node_of_mem_candidates ht
  have hbefore := (inSet_of_new hn h hmore (Option.isSome_of_eq_some hk) hnew).before
  exact List.lt_asymm hbefore

/-- Everything that stands in a document has the path of some record: spreads and inline fragments
without a type condition have the path of what is around them. -/
theorem Standing.In.exists_candidate {d : Document} {s : Standing} (h : s.In d) :
    ∃ t ∈ d.candidates, t.path = s.path := by
  -- Going down from a definition, the path stays that of the last field or condition that was
  -- passed.
  induction h with
  | @definition index root hroot =>
    refine ⟨_, Document.mem_candidates_iff.mpr ⟨.definition hroot, ?_⟩, rfl⟩
    obtain ⟨x, -, hx⟩ := Option.bind_eq_some_iff.mp hroot
    cases x <;> cases hx <;> rfl
  | @selection address line parent index s hparent hs ih =>
    obtain ⟨t, ht, hpath⟩ := ih
    have hin := Standing.In.selection hparent hs
    cases s with
    | field f set => exact ⟨_, Document.mem_candidates_iff.mpr ⟨hin, rfl⟩, rfl⟩
    | spread spread => exact ⟨t, ht, hpath⟩
    | inline f set =>
      cases hcondition : f.typeCondition with
      | some condition =>
        refine ⟨_, Document.mem_candidates_iff.mpr ⟨hin, ?_⟩, rfl⟩
        simp [isRecord, Entry.ofSelection, hcondition]
      | none =>
        refine ⟨t, ht, hpath.trans ?_⟩
        simp [path, Entry.ofSelection, RecordPath.ofLine, Node.segment?, hcondition]

namespace Record

variable {schema : Schema} {d : Document} {path : String}

/-- Locating takes the address of the record of the path that no other one comes before. -/
theorem locate?_eq_some_iff {a : Address} : locate? schema d path = some a ↔
    ∃ s ∈ d.candidates, s.address = a ∧ s.path.display = path ∧
      ∀ t ∈ d.candidates, t.path.display = path → ¬ t.address.Before a := by
  simp only [locate?_eq_find?, Option.map_eq_some_iff,
    find?_eq_some_iff_of_pairwise d.candidates_pairwise fun hlt => List.lt_asymm hlt,
    decide_eq_true_eq]
  constructor
  · rintro ⟨s, ⟨hs, hpath, hfirst⟩, rfl⟩
    exact ⟨s, hs, rfl, hpath, hfirst⟩
  · rintro ⟨s, hs, rfl, hpath, hfirst⟩
    exact ⟨s, ⟨hs, hpath, hfirst⟩, rfl⟩

/-- No record is located exactly if no candidate has the path. -/
theorem locate?_eq_none_iff :
    locate? schema d path = none ↔ ∀ s ∈ d.candidates, s.path.display ≠ path := by
  simp [locate?_eq_find?]

/-- Nothing is located exactly if nothing in the document has the path. -/
theorem locate?_eq_none_iff_in (schema : Schema) :
    locate? schema d path = none ↔ ∀ s : Standing, s.In d → s.path.display ≠ path := by
  rw [locate?_eq_none_iff]
  constructor
  · intro h s hs
    obtain ⟨t, ht, hpath⟩ := hs.exists_candidate
    exact hpath ▸ h t ht
  · exact fun h s hs => h s (Document.mem_candidates_iff.mp hs).1

/-- There is a node at an address that is located. -/
theorem exists_get?_of_locate? {a : Address} (h : locate? schema d path = some a) :
    ∃ n, d.get? a = some n := by
  obtain ⟨s, hs, rfl, -⟩ := locate?_eq_some_iff.mp h
  obtain ⟨n, -, hn⟩ := Document.exists_node_of_mem_candidates hs
  exact ⟨n, hn⟩

/-- Whether something that stands in a document is the first record of a path with a known type. -/
structure IsFirst (schema : Schema) (d : Document) (path : String) (s : Standing)
    (type : SchemaType) : Prop where
  mem : s ∈ d.candidates
  display : s.path.display = path
  type : s.recordType? schema = some type
  first : ∀ t ∈ d.candidates, t.path.display = path → t.address.Before s.address →
    t.recordType? schema = none

/-- A record that is found is the first one of the path with a known type. -/
theorem exists_isFirst {r : Record} (h : find? schema d path = some r) :
    ∃ s, IsFirst schema d path s r.type ∧ r.address = s.address ∧
      r.declaration = s.declaration? schema := by
  obtain ⟨before, s, after, hcandidates, hpath, hbefore, htype, hr⟩ := find?_eq_some_iff.mp h
  have hmem : s ∈ d.candidates := by simp [hcandidates]
  refine ⟨s, ⟨hmem, hpath, htype, fun t ht htpath hlt => ?_⟩, by rw [hr], by rw [hr]⟩
  have hordered := d.candidates_pairwise
  rw [hcandidates] at ht hordered
  obtain ⟨-, hafter, -⟩ := List.pairwise_append.mp hordered
  rcases List.mem_append.mp ht with ht | ht
  · exact hbefore t ht htpath
  · -- Neither the record itself nor what comes after it comes before it.
    rcases List.mem_cons.mp ht with rfl | ht
    · exact absurd hlt t.address.not_before_self
    · exact absurd hlt (List.lt_asymm ((List.pairwise_cons.mp hafter).1 t ht))

/-- The first record of a path with a known type is found. -/
theorem IsFirst.exists_find? {s : Standing} {type : SchemaType}
    (h : IsFirst schema d path s type) :
    ∃ r, find? schema d path = some r ∧ r.address = s.address ∧ r.type = type ∧
      r.declaration = s.declaration? schema := by
  obtain ⟨before, after, hcandidates⟩ := List.append_of_mem h.mem
  have hbefore : ∀ t ∈ before, t.path.display = path → t.recordType? schema = none := by
    intro t ht htpath
    have hordered := d.candidates_pairwise
    rw [hcandidates] at hordered
    refine h.first t (by simp [hcandidates, ht]) htpath ?_
    exact (List.pairwise_append.mp hordered).2.2 t ht s List.mem_cons_self
  exact ⟨⟨s.address, type, s.declaration? schema, s.span,
    (s :: after.filter (·.path.display = path)).findSome? (Standing.description? schema)⟩,
    find?_eq_some_iff.mpr ⟨before, s, after, hcandidates, h.display, hbefore, h.type, rfl⟩,
    rfl, rfl, rfl⟩

end Record

/-! ## Lookups after growth -/

namespace Document.Grows

variable {d d' : Document} {s t : Standing} {schema : Schema} {path : String}

/-- A record of a document is one of the grown document, at the same address. -/
theorem exists_candidate (h : d.Grows d') (hs : s ∈ d.candidates) :
    ∃ t ∈ d'.candidates, t.address = s.address ∧ t.Alike s := by
  obtain ⟨hin, hrecord⟩ := mem_candidates_iff.mp hs
  obtain ⟨n, hentry, -⟩ := exists_node_of_mem_candidates hs
  obtain ⟨address, line, entry⟩ := s
  subst hentry
  obtain ⟨line', n', hin', hline⟩ := h.exists_standing hin
  obtain ⟨houtline, hline⟩ := List.cons.inj hline
  have halike : Standing.Alike ⟨address, line', .node n'⟩ ⟨address, line, .node n⟩ :=
    ⟨n', n, rfl, rfl, houtline, hline⟩
  exact ⟨_, mem_candidates_iff.mpr ⟨hin', halike.isRecord.trans hrecord⟩, rfl, halike⟩

/-- A record of the grown document is a new one, or one of the document at the same address. -/
theorem new_or_exists_candidate (h : d.Grows d') (ht : t ∈ d'.candidates) :
    d.get? t.address = none ∨ ∃ s ∈ d.candidates, s.address = t.address ∧ t.Alike s := by
  obtain ⟨hin, hrecord⟩ := mem_candidates_iff.mp ht
  cases hn : d.get? t.address with
  | none => exact .inl rfl
  | some n =>
    right
    obtain ⟨line, hold⟩ := get?_eq_some_iff.mp hn
    obtain ⟨line', n', hin', hline⟩ := h.exists_standing hold
    obtain ⟨houtline, hline⟩ := List.cons.inj hline
    have ht : t = ⟨t.address, line', .node n'⟩ := hin.eq_of_address hin' rfl
    have halike : t.Alike ⟨t.address, line, .node n⟩ := by
      rw [ht]
      exact ⟨n', n, rfl, rfl, houtline, hline⟩
    exact ⟨_, mem_candidates_iff.mpr ⟨hold, halike.isRecord.symm.trans hrecord⟩, rfl, halike⟩

/-- What is located stays where it is as long as no new record of the path comes before it. -/
theorem locate?_eq_some (h : d.Grows d') {a : Address}
    (hlocate : Record.locate? schema d path = some a)
    (hnew : ∀ t ∈ d'.candidates, d.get? t.address = none → t.path.display = path →
      ¬ t.address.Before a) : Record.locate? schema d' path = some a := by
  obtain ⟨s, hs, rfl, hpath, hfirst⟩ := Record.locate?_eq_some_iff.mp hlocate
  obtain ⟨s', hs', haddress, halike⟩ := h.exists_candidate hs
  refine Record.locate?_eq_some_iff.mpr ⟨s', hs', haddress, halike.path ▸ hpath, ?_⟩
  intro t ht htpath
  rcases h.new_or_exists_candidate ht with hnone | ⟨old, hold, holdAddress, holdAlike⟩
  · exact hnew t ht hnone htpath
  · rw [← holdAddress]
    exact hfirst old hold (holdAlike.path ▸ htpath)

/-- A path that no new record has leads where it led before. -/
theorem locate?_eq (h : d.Grows d')
    (hnew : ∀ t ∈ d'.candidates, d.get? t.address = none → t.path.display ≠ path) :
    Record.locate? schema d' path = Record.locate? schema d path := by
  cases hlocate : Record.locate? schema d path with
  | some a => exact h.locate?_eq_some hlocate fun t ht hnone hpath => absurd hpath (hnew t ht hnone)
  | none =>
    rw [Record.locate?_eq_none_iff] at hlocate ⊢
    intro t ht htpath
    rcases h.new_or_exists_candidate ht with hnone | ⟨old, hold, -, halike⟩
    · exact hnew t ht hnone htpath
    · exact hlocate old hold (halike.path ▸ htpath)

/-- What is found is found again as long as no new record of the path comes before it. -/
theorem exists_find? (h : d.Grows d') {r : Record} (hfind : Record.find? schema d path = some r)
    (hnew : ∀ t ∈ d'.candidates, d.get? t.address = none → t.path.display = path →
      ¬ t.address.Before r.address) :
    ∃ r', Record.find? schema d' path = some r' ∧ r'.address = r.address ∧ r'.type = r.type ∧
      r'.declaration = r.declaration := by
  obtain ⟨s, hs, haddress, hdeclaration⟩ := Record.exists_isFirst hfind
  obtain ⟨s', hs', haddress', halike⟩ := h.exists_candidate hs.mem
  have hfirst : Record.IsFirst schema d' path s' r.type := by
    refine ⟨hs', halike.path ▸ hs.display, (halike.recordType? schema).trans hs.type, ?_⟩
    intro t ht htpath hlt
    rcases h.new_or_exists_candidate ht with hnone | ⟨old, hold, holdAddress, holdAlike⟩
    · rw [haddress', ← haddress] at hlt
      exact absurd hlt (hnew t ht hnone htpath)
    · rw [holdAlike.recordType?]
      refine hs.first old hold (holdAlike.path ▸ htpath) ?_
      rwa [holdAddress, ← haddress']
  obtain ⟨r', hr', hr'address, hr'type, hr'declaration⟩ := hfirst.exists_find?
  refine ⟨r', hr', by rw [hr'address, haddress', haddress], hr'type, ?_⟩
  rw [hr'declaration, hdeclaration, halike.declaration?]

end Document.Grows
end EmbeddedGraphQL
