import EmbeddedGraphQL.Edit.Scaffold
import EmbeddedGraphQL.Proofs.Schema.Built
import EmbeddedGraphQL.Proofs.Typing.WellTyped

/-!
# Typing of scaffolds

Selections that are made up for a type are well typed on it, whatever the schema is, as long as
`__typename` means what it means everywhere: a type may declare a field of that name, but not one
that would have to be selected from.

* `Schema.Lawful`: what typing asks of a schema, and `Schema.lawful_of_ofDocuments?`: that those
  which are built have it.
* `Schema.wellTyped_newField_iff`, `Schema.wellTyped_newField`: when a new field is well typed.
* `Schema.Lawful.wellTyped_scaffoldLevels`, `Schema.Lawful.wellTyped_scaffoldUnder`: scaffolds are
  well typed, and there is one exactly where one is needed.
-/

namespace EmbeddedGraphQL
namespace Schema

/-! ## Schemas to type against -/

/-- Whether a type that declares `__typename` itself does so with a type that is not composite. -/
def KeepsTypename (schema : Schema) : Prop :=
  ∀ type ∈ schema.types, ∀ fields ∈ type.body.fields?, ∀ f ∈ fields, f.name = typenameField →
    schema.isComposite f.type.innerName = false

/-- Whether a schema keeps `__typename` is decided field by field. -/
instance (schema : Schema) : Decidable schema.KeepsTypename :=
  inferInstanceAs (Decidable (∀ type ∈ schema.types, ∀ fields ∈ type.body.fields?, ∀ f ∈ fields,
    f.name = typenameField → schema.isComposite f.type.innerName = false))

/-- What typing asks of a schema: the names of the fields of a type differ, and neither `String` nor
a declared `__typename` is composite. -/
structure Lawful (schema : Schema) : Prop where
  distinct : ∀ {typeName fields}, schema.fields? typeName = some fields →
    (fields.map (·.name)).Nodup
  string : schema.isComposite "String" = false
  typename : schema.KeepsTypename

/-- Every schema that is built is one to type against, unless it declares a composite
`__typename`. -/
theorem lawful_of_ofDocuments? {documents : List Document} {schema : Schema}
    (h : ofDocuments? documents = some schema) (htypename : schema.KeepsTypename) :
    schema.Lawful := by
  have hbuilt : schema.Built fun _ => True :=
    built_of_ofDocuments? (fun _ _ => trivial) (fun _ _ _ _ _ _ _ _ => trivial) h
  refine ⟨?_, by rw [isComposite, hbuilt.string], htypename⟩
  intro typeName fields hfields
  obtain ⟨type, htype, hfields⟩ := Option.bind_eq_some_iff.mp hfields
  exact (hbuilt.types type (declared_of_type? htype).1).fields fields hfields

/-! ## New fields -/

variable {schema : Schema}

/-- A new field that is well typed on a type is there on it. -/
theorem isSome_of_wellTyped_newField {typeName name : String} {set : List Selection}
    (h : (Selection.newField name set).WellTyped schema (some typeName)) :
    (schema.fieldType? typeName name).isSome := by
  rw [Selection.newField, Selection.WellTyped] at h
  obtain ⟨⟨type, htype, -⟩, -⟩ := h
  obtain ⟨found, hfound, -⟩ := Option.map_eq_some_iff.mp htype
  exact Option.isSome_of_eq_some hfound

/-- A new field that is there on a type is well typed on it if the selections under it are as its
own type asks. -/
theorem wellTyped_newField_iff {typeName name : String} {set : List Selection}
    {found : Option FieldDeclaration × TypeRef}
    (hfound : schema.fieldType? typeName name = some found) :
    (Selection.newField name set).WellTyped schema (some typeName) ↔
      ((schema.isComposite found.2.innerName = true → set ≠ []) ∧
        (schema.isLeaf found.2.innerName = true → set = [])) ∧
        Selection.SetWellTyped schema (some found.2.innerName) set := by
  rw [Selection.newField, Selection.WellTyped]
  simp [Node.Fits, typeInside, hfound]

/-- A new field that is there on a type is well typed on it with well-typed selections under it, if
there are some exactly where its own type is composite. -/
theorem wellTyped_newField {typeName name : String} {set : List Selection}
    {found : Option FieldDeclaration × TypeRef}
    (hfound : schema.fieldType? typeName name = some found)
    (hset : Selection.SetWellTyped schema (some found.2.innerName) set)
    (hempty : set = [] ↔ schema.isComposite found.2.innerName = false) :
    (Selection.newField name set).WellTyped schema (some typeName) := by
  refine (wellTyped_newField_iff hfound).mpr ⟨⟨?_, ?_⟩, hset⟩
  · intro hcomposite hnil
    exact absurd hcomposite (Bool.eq_false_iff.mp (hempty.mp hnil))
  · intro hleaf
    refine hempty.mpr (Bool.eq_false_iff.mpr fun hcomposite => ?_)
    rw [isLeaf_of_isComposite hcomposite] at hleaf
    cases hleaf

/-- The name of any type can be asked for. -/
theorem Lawful.wellTyped_typename (h : schema.Lawful) (typeName : String) :
    typenameSelection.WellTyped schema (some typeName) := by
  have hfound : schema.fieldType? typeName typenameField = some (none, .named "String" true) := rfl
  exact wellTyped_newField hfound trivial (iff_of_true rfl h.string)

/-! ## Scaffolds -/

/-- The field that is selected first is a declared one. -/
theorem mem_of_firstField? {typeName : String} {f : FieldDeclaration}
    (h : schema.firstField? typeName = some f) :
    ∃ fields, schema.fields? typeName = some fields ∧ f ∈ fields := by
  obtain ⟨fields, hfields, h⟩ := Option.bind_eq_some_iff.mp h
  refine ⟨fields, hfields, ?_⟩
  rcases Option.or_eq_some_iff.mp h with h | ⟨-, h⟩
  · rcases Option.or_eq_some_iff.mp h with h | ⟨-, h⟩
    · exact List.mem_of_find?_eq_some h
    · split at h
      · exact List.mem_of_find?_eq_some h
      · cases h
  · exact List.mem_of_head? h

/-- A declared field is well typed on its type with selections under it as its own type asks. -/
theorem Lawful.wellTyped_declared (h : schema.Lawful) {typeName : String}
    {fields : List FieldDeclaration} {f : FieldDeclaration} {set : List Selection}
    (hfields : schema.fields? typeName = some fields) (hf : f ∈ fields)
    (hset : Selection.SetWellTyped schema (some f.type.innerName) set)
    (hempty : set = [] ↔ schema.isComposite f.type.innerName = false) :
    (Selection.newField f.name set).WellTyped schema (some typeName) := by
  by_cases hname : f.name = typenameField
  · -- The field means `__typename` then, whatever its declaration is.
    obtain ⟨type, htype, hbody⟩ := Option.bind_eq_some_iff.mp hfields
    have hleaf := h.typename type (declared_of_type? htype).1 fields hbody f hf hname
    rw [hname, hempty.mpr hleaf]
    exact h.wellTyped_typename typeName
  · have hfound : schema.fieldType? typeName f.name = some (some f, f.type) := by
      rw [fieldType?, if_neg hname, field?, hfields, Option.bind_some,
        find?_of_mem_of_distinct (h.distinct hfields) hf, Option.map_some]
    exact wellTyped_newField hfound hset hempty

/-- Something is always selected. -/
theorem scaffoldLevels_ne_nil (levels : Nat) (typeName : String) :
    schema.scaffoldLevels levels typeName ≠ [] := by
  cases levels with
  | zero => simp [scaffoldLevels]
  | succ levels =>
    cases habstract : schema.isAbstract typeName <;>
      cases hfirst : schema.firstField? typeName <;>
      simp [scaffoldLevels, habstract, hfirst]

/-- What is selected on some levels: the type's name, or its first field with selections on one
level less. -/
theorem mem_scaffoldLevels {levels : Nat} {typeName : String} {s : Selection}
    (hs : s ∈ schema.scaffoldLevels (levels + 1) typeName) :
    s = typenameSelection ∨ ∃ f, schema.firstField? typeName = some f ∧
      s = Selection.newField f.name (if schema.isComposite f.type.innerName then
        schema.scaffoldLevels levels f.type.innerName else []) := by
  cases hfirst : schema.firstField? typeName with
  | none =>
    refine .inl ?_
    cases habstract : schema.isAbstract typeName <;>
      simpa [scaffoldLevels, habstract, hfirst] using hs
  | some f =>
    cases habstract : schema.isAbstract typeName with
    | false => exact .inr ⟨f, rfl, by simpa [scaffoldLevels, habstract, hfirst] using hs⟩
    | true =>
      have hcases : s = typenameSelection ∨ s = Selection.newField f.name
          (if schema.isComposite f.type.innerName then
            schema.scaffoldLevels levels f.type.innerName else []) := by
        simpa [scaffoldLevels, habstract, hfirst] using hs
      exact hcases.imp_right fun hs => ⟨f, rfl, hs⟩

/-- Selections on so many levels are well typed on the type they are made up for. -/
theorem Lawful.wellTyped_scaffoldLevels (h : schema.Lawful) (levels : Nat) (typeName : String) :
    Selection.SetWellTyped schema (some typeName) (schema.scaffoldLevels levels typeName) := by
  -- By induction on the levels, as the first field brings the type to the next one.
  induction levels generalizing typeName with
  | zero => exact ⟨h.wellTyped_typename typeName, trivial⟩
  | succ levels ih =>
    rw [Selection.setWellTyped_iff]
    intro s hs
    rcases mem_scaffoldLevels hs with rfl | ⟨f, hf, rfl⟩
    · exact h.wellTyped_typename typeName
    · obtain ⟨fields, hfields, hmem⟩ := mem_of_firstField? hf
      refine h.wellTyped_declared hfields hmem ?_ ?_
      · split
        · exact ih _
        · trivial
      · split <;> simp_all [scaffoldLevels_ne_nil]

/-- The selections under a field of a type are well typed, and there are some if the type is
composite and none otherwise. -/
theorem Lawful.wellTyped_scaffoldUnder (h : schema.Lawful) (type : TypeRef) :
    Selection.SetWellTyped schema (some type.innerName) (schema.scaffoldUnder type) ∧
      (schema.scaffoldUnder type = [] ↔ schema.isComposite type.innerName = false) := by
  rw [scaffoldUnder]
  split
  · rename_i hcomposite
    exact ⟨h.wellTyped_scaffoldLevels _ _, by simp [scaffold, scaffoldLevels_ne_nil, hcomposite]⟩
  · rename_i hcomposite
    exact ⟨trivial, by simpa using hcomposite⟩

end Schema
end EmbeddedGraphQL
