import EmbeddedGraphQL.Edit.AddField
import EmbeddedGraphQL.Proofs.Record.Lookup
import EmbeddedGraphQL.Proofs.Typing.Scaffold

/-!
# Typing of added fields

A field that is added to a record is looked up on the type of the record that is found, scaffolded
as its own type asks, and put into the first node of the record path. Whether that node takes
selections at all is not asked.

* `Schema.Lawful.wellTyped_newSelection`: a new field is well typed on the type it was looked up on.
* `Document.addField_eq_ok`: what adding a field does to a document.
* `Document.wellTyped_addField_iff`: when a document is still well typed after it.
-/

namespace EmbeddedGraphQL

/-! ## New selections -/

namespace Schema

variable {schema : Schema}

/-- A new selection is a field that its type has, with selections scaffolded under it. -/
theorem newSelection_eq_ok {typeName fieldName : String} {s : Selection}
    (h : schema.newSelection typeName fieldName = .ok s) :
    ∃ declaration type, schema.fieldType? typeName fieldName = some (declaration, type) ∧
      s = Selection.newField fieldName (schema.scaffoldUnder type) := by
  rw [newSelection] at h
  split at h
  · cases h
  · rename_i declaration type hfound
    refine ⟨declaration, type, hfound, ?_⟩
    rw [checkedName] at h
    split at h <;> cases h
    rfl

/-- A new selection is well typed on every type that has a field of its name and type. -/
theorem Lawful.wellTyped_newSelection (h : schema.Lawful) {typeName fieldName : String}
    {declaration : Option FieldDeclaration} {type : TypeRef}
    (hfound : schema.fieldType? typeName fieldName = some (declaration, type)) :
    (Selection.newField fieldName (schema.scaffoldUnder type)).WellTyped schema
      (some typeName) := by
  obtain ⟨hset, hempty⟩ := h.wellTyped_scaffoldUnder type
  exact wellTyped_newField hfound hset hempty

/-- A type that the schema does not have has no field but `__typename`. -/
theorem fieldType?_of_unknown {typeName fieldName : String}
    (hunknown : schema.type? typeName = none) :
    schema.fieldType? typeName fieldName =
      if fieldName = typenameField then some (none, .named "String" true) else none := by
  rw [fieldType?, field?, fields?, hunknown]
  rfl

end Schema

/-! ## Where the field goes -/

/-- A node that fits selects on some type, unless it is an inline fragment without a type
condition. -/
theorem Node.Fits.exists_typeInside {schema : Schema} {outer : Option String} {n : Node}
    (h : n.Fits schema outer) (hinline : ∀ f set, n = .inline f set → f.typeCondition.isSome) :
    ∃ type, schema.typeInside outer n = some type := by
  cases n with
  | operation o => exact h.imp fun _ h => h.1
  | fragment f => exact ⟨_, rfl⟩
  | field f set => exact h.imp fun _ h => h.1
  | inline f set =>
    obtain ⟨condition, hcondition⟩ := Option.isSome_iff_exists.mp (hinline f set rfl)
    exact ⟨condition, by rw [Schema.typeInside, hcondition, Option.some_or]⟩

namespace Document

/-- What adding a field to the first record of a path does: nothing if the field is there, and
otherwise a new selection comes last. -/
theorem addField_eq_ok {schema : Schema} {d d' : Document} {path typeName fieldName : String}
    {s : Standing} {n : Node} (hs : (d.records path).head? = some s)
    (hn : d.get? s.address = some n)
    (h : d.addField schema path typeName fieldName = .ok (some d')) :
    (Selection.hasField n.selections fieldName = true ∧ d' = d) ∨
      (Selection.hasField n.selections fieldName = false ∧
        ∃ field, schema.newSelection typeName fieldName = .ok field ∧
          d.set? s.address (n.withSelections (n.selections ++ [field])) = some d') := by
  rw [addField, Record.locate?_eq, hs, Option.map_some] at h
  simp only [hn] at h
  -- A field that is there is not added again.
  split at h
  · rename_i hfield
    exact .inl ⟨hfield, by simpa using h.symm⟩
  · rename_i hfield
    refine .inr ⟨by simpa using hfield, ?_⟩
    cases hnew : schema.newSelection typeName fieldName with
    | error e =>
      rw [hnew] at h
      cases h
    | ok field =>
      rw [hnew] at h
      -- The node was found in the document, so that its set can be changed.
      obtain ⟨changed, hset⟩ :=
        exists_set? hn (n.sameKind_withSelections (n.selections ++ [field]))
      have hd' : (d.modify? s.address fun n => n.withSelections (n.selections ++ [field])).getD d =
          d' := by simpa [bind, Except.bind, pure, Except.pure] using h
      rw [modify?_eq_set? hn, hset] at hd'
      exact ⟨field, rfl, hd' ▸ hset⟩

/-- Suppose that a well-typed document has a record, and that a field of the record's type is added
to it. The field goes to the first node of the path. The document is still well typed exactly if
that node has the field already, or if the type that it selects on has the field and is no leaf. -/
theorem wellTyped_addField_iff {documents : List Document} {schema : Schema} {d d' : Document}
    {path fieldName : String} {m : Record} (hschema : Schema.ofDocuments? documents = some schema)
    (htypename : schema.KeepsTypename) (hd : d.WellTyped schema)
    (hfind : Record.find? schema d path = some m)
    (hadd : d.addField schema path m.type.name fieldName = .ok (some d')) :
    ∃ s n type, (d.records path).head? = some s ∧ s.entry = .node n ∧
      schema.selectedType (n :: s.ancestors) = some type ∧
      (d'.WellTyped schema ↔ Selection.hasField n.selections fieldName = true ∨
        (schema.fieldType? type fieldName).isSome ∧ schema.isLeaf type = false) := by
  have hlawful := Schema.lawful_of_ofDocuments? hschema htypename
  obtain ⟨s, hs, hmtype⟩ := Record.exists_head_of_find? hfind
  obtain ⟨n, hentry, hin, hinline⟩ := exists_node_of_mem_records (List.mem_of_head? hs)
  have hn := hd.node hin
  obtain ⟨type, htype⟩ := hn.fits.exists_typeInside hinline
  refine ⟨s, n, type, hs, hentry, (schema.selectedType_cons n s.ancestors).trans htype, ?_⟩
  have hget : d.get? s.address = some n := get?_eq_some_iff.mpr ⟨_, hin⟩
  rcases addField_eq_ok hs hget hadd with ⟨hfield, rfl⟩ | ⟨hfield, field, hnew, hset⟩
  · exact iff_of_true hd (.inl hfield)
  obtain ⟨declaration, fieldType, hfound, rfl⟩ := Schema.newSelection_eq_ok hnew
  rw [wellTyped_set?_iff hd hin hset, Node.wellTyped_append_iff htype hn hinline, hfield, and_comm]
  simp only [Bool.false_eq_true, false_or]
  refine and_congr_left fun _ => ⟨Schema.isSome_of_wellTyped_newField, fun h => ?_⟩
  · -- The node selects on the type of the record, or on one the schema does not have.
    have hrecord : s.recordType? schema = schema.type? type := by
      rw [Standing.recordType?, hentry]
      simp only [Schema.selectedType_cons, htype, Option.bind_some]
    cases hknown : schema.type? type with
    | some t =>
      have hmt : m.type = t := hmtype t (hrecord.trans hknown)
      rw [hmt, (Schema.declared_of_type? hknown).2] at hfound
      exact hlawful.wellTyped_newSelection hfound
    | none =>
      rw [Schema.fieldType?_of_unknown hknown] at h
      split at h
      · rename_i hname
        subst hname
        cases hfound
        exact hlawful.wellTyped_newSelection rfl
      · cases h

/-- The definition `type Query { name: String friend: Query }`. -/
def friendTypes : Document :=
  ⟨[.type none ⟨"Query", [], .object []
    [⟨none, "name", [], .named "String" false, []⟩,
      ⟨none, "friend", [], .named "Query" false, []⟩]⟩ none]⟩

/-- The schema with these types. -/
def friends : Schema := (Schema.ofDocuments? [friendTypes]).get (by decide +kernel)

/-- The types with friends build their schema. -/
theorem ofDocuments?_friendTypes : Schema.ofDocuments? [friendTypes] = some friends :=
  (Option.some_get _).symm

/-- The document `{ name }`. -/
def nameOnly : Document := ⟨[.operation ⟨.query, none, [], [], [.newField "name" []], none⟩]⟩

/-- A field with selections of its own can be added to the query. -/
theorem wellTyped_addField_iff_friend :
    ∃ m d', Record.find? friends nameOnly "fragment" = some m ∧
      nameOnly.addField friends "fragment" m.type.name "friend" = .ok (some d') ∧
      d'.WellTyped friends := by
  have hfind : Record.find? friends nameOnly "fragment" = some _ := rfl
  have hadd : nameOnly.addField friends "fragment" "Query" "friend" = .ok (some _) := rfl
  obtain ⟨s, n, type, hs, hentry, htype, hiff⟩ :=
    wellTyped_addField_iff ofDocuments?_friendTypes (by decide +kernel) (by decide +kernel) hfind
      hadd
  obtain rfl := Option.some.inj hs
  obtain rfl := Entry.node.inj hentry
  obtain rfl := Option.some.inj htype
  exact ⟨_, _, hfind, hadd, hiff.mpr (.inr ⟨rfl, rfl⟩)⟩

/-- Under a scalar field `__typename` is accepted, and then a leaf is selected from. -/
theorem not_wellTyped_addField :
    ¬ ∀ (documents : List Document) (schema : Schema) (d d' : Document) (path fieldName : String)
        (m : Record), Schema.ofDocuments? documents = some schema → d.WellTyped schema →
      Record.find? schema d path = some m →
      d.addField schema path m.type.name fieldName = .ok (some d') → d'.WellTyped schema := by
  intro h
  have hfind : Record.find? friends nameOnly "fragment_name" = some _ := rfl
  have hadd : nameOnly.addField friends "fragment_name" "String" "__typename" = .ok (some _) := rfl
  have hd := h _ _ _ _ _ _ _ ofDocuments?_friendTypes (by decide +kernel) hfind hadd
  exact absurd hd (by decide +kernel)

end Document
end EmbeddedGraphQL
