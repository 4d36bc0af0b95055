import EmbeddedGraphQL.Edit.Paginate
import EmbeddedGraphQL.Proofs.Record.Lookup
import EmbeddedGraphQL.Proofs.Typing.Scaffold

/-!
# Typing of paginated connections

Paginating a connection changes arguments and directives, which typing does not look at, and adds
the selection `edges { node { .. } }` to the connection unless `edges` is selected there already.
Selections are put under `node` whatever its type is.

* `Schema.Lawful.wellTyped_edgesSelection_iff`: when that selection is well typed.
* `Standing.In.exists_of_exchange`: the nodes of a document stay where they are, and keep their
  types, when a definition is exchanged for one that selects the same.
* `Document.wellTyped_paginate?_iff`: when a document is still well typed after it.
-/

namespace EmbeddedGraphQL

/-! ## The new selection -/

namespace Schema

variable {schema : Schema}

/-- A type with a field other than `__typename` is no leaf. -/
theorem isLeaf_of_fieldType? {typeName name : String}
    {found : Option FieldDeclaration × TypeRef} (hname : name ≠ typenameField)
    (h : schema.fieldType? typeName name = some found) : schema.isLeaf typeName = false := by
  rw [fieldType?, if_neg hname] at h
  obtain ⟨f, hf, -⟩ := Option.map_eq_some_iff.mp h
  obtain ⟨fields, hfields, -⟩ := Option.bind_eq_some_iff.mp hf
  obtain ⟨type, htype, hbody⟩ := Option.bind_eq_some_iff.mp hfields
  rw [isLeaf, kind?, htype]
  cases hkind : type.body <;> simp_all [TypeBody.kind, TypeBody.fields?]

/-- The parts of a connection type. -/
theorem connectionNode?_eq_some {typeName : String} {nodeType : TypeRef}
    (h : schema.connectionNode? typeName = some nodeType) :
    ∃ edges node, schema.fieldType? typeName "edges" = some edges ∧
      schema.fieldType? edges.2.innerName "node" = some node ∧ node.2 = nodeType := by
  obtain ⟨edges, hedges, h⟩ := Option.bind_eq_some_iff.mp h
  obtain ⟨node, hnode, h⟩ := Option.bind_eq_some_iff.mp h
  exact ⟨edges, node, hedges, hnode, Option.some.inj h⟩

/-- The selection of the nodes of a connection is well typed exactly if their type is no leaf. -/
theorem Lawful.wellTyped_edgesSelection_iff (h : schema.Lawful) {typeName : String}
    {nodeType : TypeRef} (hconnection : schema.connectionNode? typeName = some nodeType) :
    (Pagination.edgesSelection schema nodeType).WellTyped schema (some typeName) ↔
      schema.isLeaf nodeType.innerName = false := by
  obtain ⟨edges, node, hedges, hnode, rfl⟩ := connectionNode?_eq_some hconnection
  have hedge : schema.isLeaf edges.2.innerName = false := isLeaf_of_fieldType? (by decide) hnode
  have hnodes : (Selection.newField "node" (schema.scaffold node.2.innerName 0)).WellTyped schema
      (some edges.2.innerName) ↔ schema.isLeaf node.2.innerName = false := by
    have hsome : schema.scaffold node.2.innerName 0 ≠ [] := scaffoldLevels_ne_nil _ _
    have hscaffold : Selection.SetWellTyped schema (some node.2.innerName)
        (schema.scaffold node.2.innerName 0) := h.wellTyped_scaffoldLevels _ _
    simp [wellTyped_newField_iff hnode, hsome, hscaffold]
  rw [Pagination.edgesSelection, wellTyped_newField_iff hedges, Selection.SetWellTyped, hnodes]
  simp [hedge, Selection.SetWellTyped]

end Schema

/-! ## Exchanging a definition -/

/-- Everything that stands in a document stands in the one with a definition exchanged for another
that selects the same on the same type, with the same selections and on the same type. -/
theorem Standing.In.exists_of_exchange {schema : Schema} {d d' : Document} {index : Nat}
    {root new : Node} (hroot : d.root? index = some root)
    (hset : d.set? (.ofDefinition index) new = some d')
    (htype : schema.typeInside none new = schema.typeInside none root)
    (hselections : new.selections = root.selections) {a : Address} {line : List Node} {n : Node}
    (hin : Standing.In d ⟨a, line, .node n⟩) :
    ∃ line' n', Standing.In d' ⟨a, line', .node n'⟩ ∧
      schema.selectedType (n' :: line') = schema.selectedType (n :: line) ∧
      n'.selections = n.selections := by
  generalize ht : (⟨a, line, .node n⟩ : Standing) = t at hin
  -- What is below the exchanged definition is literally the same, only the nodes around it differ.
  induction hin generalizing a line n with
  | @definition i k hk =>
    cases ht
    have hnew := Document.root?_set? hset i
    split at hnew
    · rename_i hi
      obtain rfl : root = k := Option.some.inj (hroot.symm.trans (hi ▸ hk))
      refine ⟨[], new, .definition hnew, ?_, hselections⟩
      rw [Schema.selectedType_cons, Schema.selectedType_cons]
      exact htype
    · exact ⟨[], k, .definition (hnew.trans hk), rfl, rfl⟩
  | @selection address ancestors parent i s hparent hs ih =>
    obtain ⟨rfl, rfl, hentry⟩ := (Standing.mk.injEq ..).mp ht
    obtain ⟨line', parent', hin', hparentType, hparentSelections⟩ := ih rfl
    refine ⟨parent' :: line', n, ?_, ?_, rfl⟩
    · rw [← hparentSelections] at hs
      exact hentry ▸ .selection hin' hs
    · rw [Schema.selectedType_cons, hparentType, ← Schema.selectedType_cons]

/-! ## Paginated documents -/

/-- The arguments and directives that a paginated field gets do not matter to typing. -/
theorem Pagination.wellTyped_paginateField_iff {schema : Schema} {outer : Option String}
    {name : String} {nodeType : TypeRef} {f : Field} {set : List Selection} :
    (paginateField schema name nodeType (.field f set)).WellTyped schema outer ↔
      (Node.field f (set ++ if Selection.hasField set "edges" then []
        else [edgesSelection schema nodeType])).WellTyped schema outer :=
  ⟨fun h => ⟨h.fits, h.selections⟩, fun h => ⟨h.fits, h.selections⟩⟩

namespace Document

variable {schema : Schema} {d d' : Document} {path : String}

/-- What paginating a connection does: the fragment around it gets other directives, and then the
connection is paginated. -/
theorem paginate?_eq_some (h : d.paginate? schema path = some d') :
    ∃ m nodeType g directives mid f set, Record.find? schema d path = some m ∧
      schema.connectionNode? m.type.name = some nodeType ∧
      d.root? m.address.definition = some (.fragment g) ∧
      d.set? (.ofDefinition m.address.definition)
        (.fragment { g with directives := directives }) = some mid ∧
      mid.get? m.address = some (.field f set) ∧
      mid.set? m.address (Pagination.paginateField schema g.name nodeType (.field f set)) =
        some d' := by
  -- Each step of the computation has given something.
  obtain ⟨m, hfind, h⟩ := Option.bind_eq_some_iff.mp h
  obtain ⟨-, -, h⟩ := Option.bind_eq_some_iff.mp h
  obtain ⟨nodeType, hconnection, h⟩ := Option.bind_eq_some_iff.mp h
  obtain ⟨name, hname, h⟩ := Option.bind_eq_some_iff.mp h
  obtain ⟨mid, hmid, h⟩ := Option.bind_eq_some_iff.mp h
  -- The name is that of the fragment around the connection.
  obtain ⟨g, hg, rfl⟩ : ∃ g, d.root? m.address.definition = some (.fragment g) ∧ g.name = name := by
    rw [fragmentName?] at hname
    split at hname
    · rename_i g hdefinition
      exact ⟨g, by rw [root?, hdefinition]; rfl, Option.some.inj hname⟩
    · cases hname
  rw [modify?_eq_set? ((d.get?_ofDefinition _).trans hg)] at hmid
  split at h
  · rename_i f set hfield
    rw [modify?_eq_set? hfield] at h
    exact ⟨m, nodeType, g, _, mid, f, set, hfind, hconnection, hg, hmid, hfield, h⟩
  · cases h

/-- Suppose that a connection of a well-typed document is paginated. The document is still well
typed exactly if `edges` was selected on the connection already, or if the type of its nodes is no
leaf. -/
theorem wellTyped_paginate?_iff {documents : List Document}
    (hschema : Schema.ofDocuments? documents = some schema) (htypename : schema.KeepsTypename)
    (hd : d.WellTyped schema) (h : d.paginate? schema path = some d') :
    ∃ m n nodeType, Record.find? schema d path = some m ∧ d.get? m.address = some n ∧
      schema.connectionNode? m.type.name = some nodeType ∧
      (d'.WellTyped schema ↔ Selection.hasField n.selections "edges" = true ∨
        schema.isLeaf nodeType.innerName = false) := by
  have hlawful := Schema.lawful_of_ofDocuments? hschema htypename
  obtain ⟨m, nodeType, g, directives, mid, f, set, hfind, hconnection, hg, hmid, hfield, hset⟩ :=
    paginate?_eq_some h
  obtain ⟨s, hs, haddress, hrecord⟩ := Record.exists_standing_of_find? hfind
  obtain ⟨n, hentry, hin, -⟩ := exists_node_of_mem_records hs
  rw [haddress] at hin
  refine ⟨m, n, nodeType, hfind, get?_eq_some_iff.mpr ⟨_, hin⟩, hconnection, ?_⟩
  -- The connection stands in the document with the new fragment as it did before.
  obtain ⟨line, n', hin', htype, hselections⟩ := hin.exists_of_exchange hg hmid rfl rfl
  obtain rfl : n' = .field f set :=
    Option.some.inj ((get?_eq_some_iff.mpr ⟨_, hin'⟩).symm.trans hfield)
  have hwelltyped : mid.WellTyped schema := by
    refine (wellTyped_set?_iff hd (.definition hg) hmid).mpr ?_
    have hroot := hd.node (.definition hg)
    exact ⟨hroot.fits, hroot.selections⟩
  have hconnectionType : schema.typeInside (schema.selectedType line) (.field f set) =
      some m.type.name := by
    rw [← Schema.selectedType_cons, htype]
    rw [Standing.recordType?, hentry] at hrecord
    obtain ⟨type, hselected, hknown⟩ := Option.bind_eq_some_iff.mp hrecord
    rw [hselected, (Schema.declared_of_type? hknown).2]
  have hnode := hwelltyped.node hin'
  rw [wellTyped_set?_iff hwelltyped hin' hset, ← hselections,
    Pagination.wellTyped_paginateField_iff]
  split
  · rename_i hedges
    rw [List.append_nil]
    exact iff_of_true hnode (.inl hedges)
  · rename_i hedges
    have hleaf : schema.isLeaf m.type.name = false := by
      obtain ⟨edges, -, hfound, -⟩ := Schema.connectionNode?_eq_some hconnection
      exact Schema.isLeaf_of_fieldType? (by decide) hfound
    have hadded := Node.wellTyped_append_iff hconnectionType hnode (by simp)
      (Pagination.edgesSelection schema nodeType)
    rw [hlawful.wellTyped_edgesSelection_iff hconnection] at hadded
    exact hadded.trans ((and_iff_right hleaf).trans (or_iff_right hedges).symm)

/-- The definition of an object type with fields of the given names and types. -/
def objectType (name : String) (fields : List (String × TypeRef)) : Definition :=
  .type none ⟨name, [], .object [] (fields.map fun (name, type) => ⟨none, name, [], type, []⟩)⟩ none

/-- Two connections: the nodes of `letters` are objects, those of `digits` are numbers. -/
def pagesTypes : Document :=
  ⟨[objectType "Query" [("letters", .named "Letters" false), ("digits", .named "Digits" false)],
    objectType "Letters" [("edges", .list (.named "LetterEdge" false) false)],
    objectType "LetterEdge" [("node", .named "Letter" false)],
    objectType "Letter" [("name", .named "String" false)],
    objectType "Digits" [("edges", .list (.named "DigitEdge" false) false)],
    objectType "DigitEdge" [("node", .named "Int" false)]]⟩

/-- The schema with these types. -/
def pages : Schema := (Schema.ofDocuments? [pagesTypes]).get (by decide +kernel)

/-- The types with pages build their schema. -/
theorem ofDocuments?_pagesTypes : Schema.ofDocuments? [pagesTypes] = some pages :=
  (Option.some_get _).symm

/-- The document `fragment Pages on Query { letters { __typename } digits { __typename } }`. -/
def pagesFragment : Document :=
  ⟨[.fragment ⟨"Pages", "Query", [],
    [.newField "letters" [Schema.typenameSelection], .newField "digits" [Schema.typenameSelection]],
    none⟩]⟩

/-- The connection of letters is paginated, and the fragment stays well typed. -/
theorem wellTyped_paginate?_iff_letters :
    ∃ d', pagesFragment.paginate? pages "fragment_letters" = some d' ∧ d'.WellTyped pages := by
  have hpaginate : pagesFragment.paginate? pages "fragment_letters" = some _ := rfl
  obtain ⟨m, n, nodeType, hfind, -, hconnection, hiff⟩ :=
    wellTyped_paginate?_iff ofDocuments?_pagesTypes (by decide +kernel) (by decide +kernel)
      hpaginate
  obtain rfl := Option.some.inj hfind
  obtain rfl := Option.some.inj hconnection
  exact ⟨_, hpaginate, hiff.mpr (.inr rfl)⟩

/-- The connection of digits is paginated as well, and then a number is selected from. -/
theorem not_wellTyped_paginate? :
    ¬ ∀ (documents : List Document) (schema : Schema) (d d' : Document) (path : String),
      Schema.ofDocuments? documents = some schema → d.WellTyped schema →
      d.paginate? schema path = some d' → d'.WellTyped schema := by
  intro h
  have hpaginate : pagesFragment.paginate? pages "fragment_digits" = some _ := rfl
  have hd := h _ _ _ _ _ ofDocuments?_pagesTypes (by decide +kernel) hpaginate
  exact absurd hd (by decide +kernel)

end Document
end EmbeddedGraphQL
