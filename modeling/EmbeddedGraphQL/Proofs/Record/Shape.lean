import EmbeddedGraphQL.Proofs.Record.Moved

/-!
# Lookups and the shape of a document

The shape of a document is what is left of it when aliases, arguments, directives, variables, spans
and the names and types of definitions are taken away: which definitions there are, and how fields
of some names and inline fragments on some types are nested in them. Locating a record depends on
the shape only, and on no schema. Finding one depends besides on the kinds of operations and on the
types of fragment definitions, from which all other types follow.

* `Selection.shape`, `Document.shape`, `Document.rootOutlines`: the shape, and the outlines of
  definitions.
* `Node.exists_at?_of_shapes`, `Document.exists_get?_of_shape`: nodes of the same shape are found at
  the same addresses.
* `Document.moves_of_shape`, `Document.grows_of_shape`: what carries lookups over.
* `Record.map_unplaced_find?`: what is found, without its span, by what is told of the candidates.
* `Record.lookups_of_shape`: the lookups in documents of the same shape.
-/

namespace EmbeddedGraphQL

/-! ## Shapes -/

/-- The shape of a selection: names and type conditions, and how they are nested. -/
inductive Shape where
  /-- A field of a name or an inline fragment on a type, and what is selected in it. -/
  | node (outline : Outline) (set : List Shape)
  /-- A spread, whatever its name. -/
  | spread

namespace Selection

mutual

/-- The shape of a selection. -/
def shape : Selection → Shape
  | .field f set => .node (.field f.name) (shapes set)
  | .inline f set => .node (.inline f.typeCondition) (shapes set)
  | .spread _ => .spread

/-- The shapes of the selections of a set. -/
def shapes : List Selection → List Shape
  | [] => []
  | s :: rest => s.shape :: shapes rest

end

/-- The shapes of selections are those of each. -/
theorem shapes_eq_map (set : List Selection) : shapes set = set.map shape := by
  induction set with
  | nil => rfl
  | cons s rest ih => rw [shapes, ih, List.map_cons]

end Selection

namespace Document

/-- What is told of each definition that is a node. -/
def ofRoots {β : Type} (tell : Node → β) (d : Document) : List (Option β) :=
  d.definitions.map fun x => (Node.ofDefinition? x).map tell

/-- The shape of a document: for each operation or fragment definition what is selected in it, and
for each other definition that it is there. -/
def shape (d : Document) : List (Option (List Shape)) :=
  d.ofRoots fun n => Selection.shapes n.selections

/-- The kinds of the operations and the types of the fragments of a document. -/
def rootOutlines (d : Document) : List (Option Outline) := d.ofRoots Node.outline

end Document

/-! ## Nodes of the same shape -/

namespace Node

variable {m n k : Node}

/-- A selection of the same shape as one that is a node is a node too, of the same outline and with
selections of the same shapes. -/
theorem exists_ofSelection?_of_shape {s t : Selection} (h : s.shape = t.shape)
    (hs : ofSelection? s = some m) :
    ∃ n, ofSelection? t = some n ∧ n.outline = m.outline ∧
      Selection.shapes m.selections = Selection.shapes n.selections := by
  -- Shapes tell fields, inline fragments and spreads apart.
  cases s with
  | spread s => cases hs
  | field f set =>
    cases hs
    cases t with
    | field f' set' =>
      obtain ⟨houtline, hset⟩ := (Shape.node.injEq ..).mp h
      exact ⟨_, rfl, houtline.symm, hset⟩
    | inline f' set' => cases h
    | spread t => cases h
  | inline f set =>
    cases hs
    cases t with
    | inline f' set' =>
      obtain ⟨houtline, hset⟩ := (Shape.node.injEq ..).mp h
      exact ⟨_, rfl, houtline.symm, hset⟩
    | field f' set' => cases h
    | spread t => cases h

/-- What is below a node is below every node with selections of the same shapes. The outlines are
the same, except that nothing is said of the two nodes themselves. -/
theorem exists_at?_of_shapes {p : List Nat}
    (h : Selection.shapes m.selections = Selection.shapes n.selections) (hk : m.at? p = some k) :
    ∃ k', n.at? p = some k' ∧ (p ≠ [] → k'.outline = k.outline) := by
  induction p generalizing m n with
  | nil => exact ⟨n, rfl, fun hne => absurd rfl hne⟩
  | cons index rest ih =>
    obtain ⟨inner, hinner, hrest⟩ := Option.bind_eq_some_iff.mp hk
    obtain ⟨s, hs, hnode⟩ := Option.bind_eq_some_iff.mp hinner
    -- The selection of the same number has the same shape.
    have hshape : (m.selections[index]?).map Selection.shape =
        (n.selections[index]?).map Selection.shape := by
      rw [← List.getElem?_map, ← List.getElem?_map, ← Selection.shapes_eq_map,
        ← Selection.shapes_eq_map, h]
    rw [hs, Option.map_some] at hshape
    obtain ⟨t, ht, hst⟩ := Option.map_eq_some_iff.mp hshape.symm
    obtain ⟨other, hother, houtline, hshapes⟩ := exists_ofSelection?_of_shape hst.symm hnode
    obtain ⟨k', hk', hsame⟩ := ih hshapes hrest
    refine ⟨k', ?_, fun _ => ?_⟩
    · rw [at?_cons, ht, Option.bind_some, hother, Option.bind_some, hk']
    · cases rest with
      | nil =>
        obtain rfl : inner = k := Option.some.inj hrest
        obtain rfl : other = k' := Option.some.inj hk'
        exact houtline
      | cons next rest => exact hsame (by simp)

end Node

namespace Document

variable {d d' : Document} {a : Address} {n k : Node}

/-- What is told of a definition is found by its number. -/
theorem map_root? {β : Type} (tell : Node → β) (d : Document) (index : Nat) :
    (d.root? index).map tell = ((d.ofRoots tell)[index]?).join := by
  rw [root?, ofRoots, List.getElem?_map]
  cases d.definitions[index]? <;> rfl

/-- Operations and fragments are records and add no segment to paths. -/
theorem mark_of_root? {index : Nat} (h : d.root? index = some n) : n.mark = (none, true) := by
  obtain ⟨x, -, hx⟩ := Option.bind_eq_some_iff.mp h
  cases x <;> cases hx <;> rfl

/-- Where a node stands in a document, one stands in every document of the same shape. It is a
definition too, or it has the same outline. -/
theorem exists_get?_of_shape (h : d.shape = d'.shape) (hk : d.get? a = some k) :
    ∃ k', d'.get? a = some k' ∧ (a.selections ≠ [] → k'.outline = k.outline) := by
  rw [get?_eq_at?] at hk
  obtain ⟨root, hroot, hat⟩ := Option.bind_eq_some_iff.mp hk
  -- The definitions of the same number have selections of the same shapes.
  have hroots : (d.root? a.definition).map (fun n => Selection.shapes n.selections) =
      (d'.root? a.definition).map (fun n => Selection.shapes n.selections) := by
    rw [map_root?, map_root?]
    exact congrArg (fun shape => (shape[a.definition]?).join) h
  rw [hroot, Option.map_some] at hroots
  obtain ⟨root', hroot', hshapes⟩ := Option.map_eq_some_iff.mp hroots.symm
  obtain ⟨k', hk', houtline⟩ := Node.exists_at?_of_shapes hshapes.symm hat
  refine ⟨k', ?_, houtline⟩
  rw [get?_eq_at?, hroot', Option.bind_some, hk']

/-- The node at the address of a definition is the definition. -/
theorem root?_of_get? (h : d.get? a = some n) (ha : a.selections = []) :
    d.root? a.definition = some n := by
  rw [get?_eq_at?, ha] at h
  obtain ⟨root, hroot, hat⟩ := Option.bind_eq_some_iff.mp h
  rwa [hroot]

/-- Documents of the same shape have nodes of the same marks, each at the same address. -/
theorem moves_of_shape (h : d.shape = d'.shape) : d.Moves id d' where
  definition _ := rfl
  child _ index := ⟨index, rfl⟩
  before := id
  node a n hn := by
    obtain ⟨n', hn', houtline⟩ := exists_get?_of_shape h hn
    refine ⟨n', hn', ?_⟩
    by_cases ha : a.selections = []
    · rw [mark_of_root? (root?_of_get? hn' ha), mark_of_root? (root?_of_get? hn ha)]
    · exact Node.mark_of_outline (houtline ha)
  back b n' hn' := by
    obtain ⟨n, hn, -⟩ := exists_get?_of_shape h.symm hn'
    exact ⟨b, n, rfl, hn⟩

/-- If the outlines of the definitions are the same as well, so are those of all nodes. -/
theorem grows_of_shape (h : d.shape = d'.shape) (hroots : d.rootOutlines = d'.rootOutlines) :
    d.Grows d' := by
  intro a n hn
  obtain ⟨n', hn', houtline⟩ := exists_get?_of_shape h hn
  refine ⟨n', hn', ?_⟩
  by_cases ha : a.selections = []
  · -- The outline of a definition is what its shape does not tell.
    have houtlines : (d.root? a.definition).map Node.outline =
        (d'.root? a.definition).map Node.outline := by
      rw [map_root?, map_root?]
      exact congrArg (fun outlines => (outlines[a.definition]?).join) hroots
    rw [root?_of_get? hn ha, root?_of_get? hn' ha] at houtlines
    exact (Option.some.inj houtlines).symm
  · exact houtline ha

end Document

/-! ## What is told of candidates -/

/-- The description of a record is that of its declaration or of its type, by its outline. -/
theorem Standing.Alike.description? {s t : Standing} (h : s.Alike t) (schema : Schema) :
    s.description? schema = t.description? schema := by
  have htype := h.recordType? schema
  have hdeclaration := h.declaration? schema
  obtain ⟨m, n, hm, hn, houtline, -⟩ := h
  unfold Standing.description?
  rw [hm, hn, htype, hdeclaration]
  cases m <;> cases n <;> first | rfl | cases houtline

/-- The address and the path of something that stands in a document, and what is told of it as a
candidate, without its span. -/
def Standing.told (schema : Schema) (s : Standing) : Address × RecordPath × Record.Candidate :=
  (s.address, s.path, ⟨s.recordType? schema, s.declaration? schema, none, s.description? schema⟩)

/-- Of documents that have nodes of the same outlines at the same addresses, the same is told. -/
theorem Document.map_told_candidates {d d' : Document} (h : d.Grows d') (h' : d'.Grows d)
    (schema : Schema) :
    d.candidates.map (Standing.told schema) = d'.candidates.map (Standing.told schema) := by
  have htold : ∀ {s t : Standing}, t.address = s.address → t.Alike s →
      t.told schema = s.told schema := by
    intro s t haddress halike
    simp only [Standing.told, haddress, halike.path, halike.recordType?, halike.declaration?,
      halike.description?]
  -- Both lists are in document order, so that only their entries have to be compared.
  apply eq_of_mem_iff_of_before
  · exact List.pairwise_map.mpr d.candidates_pairwise
  · exact List.pairwise_map.mpr d'.candidates_pairwise
  · intro x
    simp only [List.mem_map]
    constructor
    · rintro ⟨s, hs, rfl⟩
      obtain ⟨t, ht, haddress, halike⟩ := h.exists_candidate hs
      exact ⟨t, ht, htold haddress halike⟩
    · rintro ⟨s, hs, rfl⟩
      obtain ⟨t, ht, haddress, halike⟩ := h'.exists_candidate hs
      exact ⟨t, ht, htold haddress halike⟩

namespace Record

/-- A record without its place in the source. -/
def unplaced (r : Record) : Record := { r with span := none }

/-- What another candidate of a path changes in what is found, by what is told of it. -/
def captureTold (found : Option Record) (x : Address × RecordPath × Candidate) : Option Record :=
  match found with
  | some r => some { r with description := r.description.or x.2.2.description }
  | none =>
    x.2.2.type.map fun type => ⟨x.1, type, x.2.2.declaration, none, x.2.2.description⟩

/-- What is found, without its span, depends on what is told of the candidates of the path. -/
theorem map_unplaced_find? (schema : Schema) (d : Document) (path : String) :
    (find? schema d path).map unplaced =
      ((d.candidates.map (Standing.told schema)).filter (·.2.1.display = path)).foldl
        captureTold none := by
  -- One candidate after the other: the span goes along but has no say in what is kept.
  have hstep : ∀ (found : Option Record) (s : Standing),
      captureTold (found.map unplaced) (s.told schema) =
        (capturePlace schema found s).map unplaced := by
    intro found s
    cases found with
    | some r => rfl
    | none =>
      change (s.recordType? schema).map _ = ((s.recordType? schema).map _).map unplaced
      rw [Option.map_map]
      rfl
  rw [find?_eq_captured, d.records_eq_filter, List.filter_map, List.foldl_map]
  exact (List.foldl_hom (Option.map unplaced) hstep).symm

/-- In two documents of the same shape, with whatever aliases, arguments, directives, variables,
kinds of operations and names of definitions, a record path is located at the same address, whatever
the schemas are. If the operations are of the same kinds as well, and the fragments on the same
types, the same record is found with a schema: at the same address, of the same type, with the same
declaration and with the same description. -/
theorem lookups_of_shape {d₁ d₂ : Document} (h : d₁.shape = d₂.shape) (path : String) :
    (∀ schema₁ schema₂, locate? schema₁ d₁ path = locate? schema₂ d₂ path) ∧
      (d₁.rootOutlines = d₂.rootOutlines → ∀ schema,
        (find? schema d₁ path).map (fun r => (r.address, r.type, r.declaration, r.description)) =
          (find? schema d₂ path).map
            fun r => (r.address, r.type, r.declaration, r.description)) := by
  constructor
  · intro schema₁ schema₂
    rw [(Document.moves_of_shape h).locate?_eq schema₁ schema₂ path, Option.map_id, id_eq]
  · intro hroots schema
    have htold := Document.map_told_candidates (Document.grows_of_shape h hroots)
      (Document.grows_of_shape h.symm hroots.symm) schema
    have hunplaced : (find? schema d₁ path).map unplaced = (find? schema d₂ path).map unplaced := by
      rw [map_unplaced_find?, map_unplaced_find?, htold]
    -- The four parts are those of the record without its span.
    have hparts := congrArg
      (Option.map fun r : Record => (r.address, r.type, r.declaration, r.description)) hunplaced
    rw [Option.map_map, Option.map_map] at hparts
    exact hparts

/-- A schema of users with a described name. -/
def users : Schema :=
  ⟨[⟨"Query", none, .object [] [⟨none, "user", [], .named "User" false, []⟩]⟩,
    ⟨"User", none, .object [] [⟨some "What to call them", "name", [], .named "String" false, []⟩]⟩,
    ⟨"String", none, .scalar⟩], [], [(.query, "Query")]⟩

/-- The document `{ user { ... on User { name } ...F } }`. -/
def plainUser : Document :=
  ⟨[.operation ⟨.query, none, [], [],
    [.newField "user" [.inline ⟨some "User", [], none⟩ [.newField "name" []],
      .spread ⟨"F", [], none⟩]], none⟩]⟩

/-- The document `query One($v: ID) @live { u: user(id: $v) { ... on User @skip { n: name } ...G }}`,
as if it had been read from somewhere. -/
def dressedUser : Document :=
  ⟨[.operation ⟨.query, some "One", [⟨"v", .named "ID" false, none, []⟩], [⟨"live", []⟩],
    [.field ⟨some "u", "user", [⟨"id", .var "v" none⟩], [], some ⟨25, 78⟩⟩
      [.inline ⟨some "User", [⟨"skip", []⟩], some ⟨41, 70⟩⟩
        [.field ⟨some "n", "name", [], [], some ⟨61, 68⟩⟩ []],
      .spread ⟨"G", [], some ⟨71, 75⟩⟩]], some ⟨0, 80⟩⟩]⟩

/-- The name of the user is located and found alike, although the documents have only their shape in
common; it is located even without a schema. -/
theorem lookups_of_shape_users :
    plainUser.shape = dressedUser.shape ∧ plainUser.rootOutlines = dressedUser.rootOutlines ∧
      locate? ⟨[], [], []⟩ dressedUser "fragment_user_User_name" = some ⟨0, [0, 0, 0]⟩ ∧
      ∃ r, find? users dressedUser "fragment_user_User_name" = some r ∧ r.address = ⟨0, [0, 0, 0]⟩ ∧
        r.type.name = "String" ∧ r.description = some "What to call them" := by
  have hshape : plainUser.shape = dressedUser.shape := rfl
  obtain ⟨hlocate, hfind⟩ := lookups_of_shape hshape "fragment_user_User_name"
  have hplain : find? users plainUser "fragment_user_User_name" = some _ := rfl
  obtain ⟨r, hr, hparts⟩ := Option.map_eq_some_iff.mp
    ((hfind rfl users).symm.trans (congrArg _ hplain))
  obtain ⟨haddress, htype, -, hdescription⟩ := by simpa only [Prod.mk.injEq] using hparts
  exact ⟨hshape, rfl, (hlocate users ⟨[], [], []⟩).symm, r, hr, haddress, congrArg _ htype,
    hdescription⟩

end Record
end EmbeddedGraphQL
