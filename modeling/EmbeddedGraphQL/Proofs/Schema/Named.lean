import EmbeddedGraphQL.Proofs.Document.Reading
import EmbeddedGraphQL.Proofs.Schema.Built

/-!
# Names in a schema

The fields of a schema and the types of its arguments and inputs are called by names: those that are
built in are, and every definition that can be read keeps to it.

* `Schema.IsNamed`: whether fields and the types of inputs have names.
* `Schema.Draft.IsNamed.add?`: one definition more.
* `Schema.isNamed_of_ofTexts?`: schemas that are built from texts have names.
* `Schema.IsNamed.field?`, `Schema.IsNamed.inputType?`: what is found in such a schema.
-/

namespace EmbeddedGraphQL

/-! ## Declarations -/

/-- The name inside a type that can be written is a name. -/
theorem TypeRef.Grammatical.isName_innerName {depth : Nat} {t : TypeRef} (h : t.Grammatical depth) :
    isName t.innerName = true := by
  induction t generalizing depth with
  | named name required => exact h
  | list item required ih => exact ih h.2

/-- Whether the type of an argument or input field has a name. -/
def InputDeclaration.isNamed (i : InputDeclaration) : Bool := isName i.type.innerName

/-- Whether a field and the types of its arguments have names. -/
def FieldDeclaration.isNamed (f : FieldDeclaration) : Bool :=
  isName f.name && f.arguments.all (·.isNamed)

/-- An input that the grammar gives is named. -/
theorem InputDeclaration.Grammatical.isNamed {i : InputDeclaration} (h : i.Grammatical) :
    i.isNamed = true :=
  h.type.isName_innerName

/-- A field that the grammar gives is named. -/
theorem FieldDeclaration.Grammatical.isNamed {f : FieldDeclaration} (h : f.Grammatical) :
    f.isNamed = true := by
  rw [FieldDeclaration.isNamed, Bool.and_eq_true, List.all_eq_true]
  exact ⟨h.name, fun i hi => (h.arguments i hi).isNamed⟩

/-- What is put together from two lists is in one of them. -/
theorem mem_of_appendDistinct {α : Type} {key : α → String} {old new l : List α}
    (h : appendDistinct key old new = some l) {a : α} (ha : a ∈ l) : a ∈ old ∨ a ∈ new := by
  induction new generalizing old with
  | nil => exact .inl (Option.some.inj h ▸ ha)
  | cons b new ih =>
    rw [appendDistinct] at h
    split at h
    · cases h
    · have hmem := ih h
      rw [List.mem_append, List.mem_singleton] at hmem
      rw [List.mem_cons]
      exact or_assoc.mp hmem

namespace TypeBody

/-- Whether the fields of a type and the types of its inputs have names. -/
structure IsNamed (body : TypeBody) : Prop where
  fields : ∀ fields ∈ body.fields?, ∀ f ∈ fields, f.isNamed = true
  inputs : ∀ inputs ∈ body.inputs?, ∀ i ∈ inputs, i.isNamed = true

/-- A type without fields and inputs. -/
theorem isNamed_of_none {body : TypeBody} (hfields : body.fields? = none)
    (hinputs : body.inputs? = none) : body.IsNamed :=
  ⟨by simp [hfields], by simp [hinputs]⟩

/-- A type body that the grammar gives is named throughout. -/
theorem Grammatical.isNamed {body : TypeBody} (h : body.Grammatical) : body.IsNamed := by
  cases body with
  | object interfaces own | interface interfaces own =>
    refine ⟨fun fields hfields f hf => ?_, by simp [inputs?]⟩
    cases hfields
    exact (h.2 f hf).isNamed
  | inputObject own =>
    refine ⟨by simp [fields?], fun inputs hinputs i hi => ?_⟩
    cases hinputs
    exact (h i hi).isNamed
  | _ => exact isNamed_of_none rfl rfl

/-- A body that is emptied has nothing left to name. -/
theorem isNamed_emptied (body : TypeBody) : body.emptied.IsNamed := by
  constructor <;> cases body <;> simp [emptied, fields?, inputs?]

/-- A body that is extended has the parts of both. -/
theorem IsNamed.extend? {body other extended : TypeBody} (hbody : body.IsNamed)
    (hother : other.IsNamed) (h : body.extend? other = some extended) : extended.IsNamed := by
  cases body <;> cases other <;>
    simp only [TypeBody.extend?, reduceCtorEq, Option.some.injEq, Option.bind_eq_bind,
      Option.bind_eq_some_iff, Option.pure_def] at h
  case object.object | interface.interface =>
    obtain ⟨is, -, fs, hfs, rfl⟩ := h
    refine ⟨fun fields hfields f hf => ?_, by simp [inputs?]⟩
    cases hfields
    exact (mem_of_appendDistinct hfs hf).elim (hbody.fields _ rfl f) (hother.fields _ rfl f)
  case inputObject.inputObject =>
    obtain ⟨is, his, rfl⟩ := h
    refine ⟨by simp [fields?], fun inputs hinputs i hi => ?_⟩
    cases hinputs
    exact (mem_of_appendDistinct his hi).elim (hbody.inputs _ rfl i) (hother.inputs _ rfl i)
  case scalar.scalar => exact h ▸ hbody
  all_goals
    obtain ⟨parts, -, rfl⟩ := h
    exact isNamed_of_none rfl rfl

end TypeBody

/-! ## Drafts -/

namespace Schema

/-- Whether the types of the arguments of a directive have names. -/
def isNamedDirective (d : DirectiveDeclaration) : Bool := d.arguments.all (·.isNamed)

namespace Draft

/-- Whether everything in a draft has names, what waits for a definition included. -/
structure IsNamed (draft : Draft) : Prop where
  types : ∀ t ∈ draft.types, t.body.IsNamed
  early : ∀ e ∈ draft.early, e.body.IsNamed
  directives : ∀ d ∈ draft.directives, isNamedDirective d.2 = true

/-- Extensions that come before their type leave it named. -/
theorem isNamed_applyEarly {type complete : SchemaType} {early : List TypeDeclaration}
    (htype : type.body.IsNamed) (hearly : ∀ e ∈ early, e.body.IsNamed)
    (h : applyEarly type early = some complete) : complete.body.IsNamed := by
  induction early generalizing type with
  | nil => exact Option.some.inj h ▸ htype
  | cons e early ih =>
    obtain ⟨he, hearly⟩ := List.forall_mem_cons.mp hearly
    rw [applyEarly] at h
    split at h
    · obtain ⟨body, hbody, h⟩ := Option.bind_eq_some_iff.mp h
      exact ih (htype.extend? he hbody) hearly h
    · exact ih htype hearly h

/-- Extending one of the types leaves them all named. -/
theorem isNamed_extendAmong? {e : TypeDeclaration} {types extended : List SchemaType}
    (htypes : ∀ t ∈ types, t.body.IsNamed) (he : e.body.IsNamed)
    (h : extendAmong? e types = some extended) : ∀ t ∈ extended, t.body.IsNamed := by
  induction types generalizing extended with
  | nil => cases h
  | cons t types ih =>
    obtain ⟨ht, htypes⟩ := List.forall_mem_cons.mp htypes
    rw [extendAmong?] at h
    split at h
    · obtain ⟨body, hbody, rfl⟩ := Option.map_eq_some_iff.mp h
      exact List.forall_mem_cons.mpr ⟨ht.extend? he hbody, htypes⟩
    · obtain ⟨rest, hrest, rfl⟩ := Option.map_eq_some_iff.mp h
      exact List.forall_mem_cons.mpr ⟨ht, ih htypes hrest⟩

/-- Defining a directive leaves the directives named. -/
theorem isNamed_defineAmong? {d : DirectiveDeclaration}
    {ds extended : List (Bool × DirectiveDeclaration)}
    (hds : ∀ p ∈ ds, isNamedDirective p.2 = true) (hd : isNamedDirective d = true)
    (h : defineAmong? d ds = some extended) : ∀ p ∈ extended, isNamedDirective p.2 = true := by
  induction ds generalizing extended with
  | nil =>
    cases h
    exact List.forall_mem_singleton.mpr hd
  | cons p ds ih =>
    obtain ⟨hp, hds⟩ := List.forall_mem_cons.mp hds
    rw [defineAmong?] at h
    split at h
    · split at h
      · cases h
        exact List.forall_mem_cons.mpr ⟨hd, hds⟩
      · cases h
    · obtain ⟨rest, hrest, rfl⟩ := Option.map_eq_some_iff.mp h
      exact List.forall_mem_cons.mpr ⟨hp, ih hds hrest⟩

namespace IsNamed

variable {draft next : Draft}

/-- Defining a type keeps the draft named. -/
theorem defineType? (hdraft : draft.IsNamed) {description : Option String}
    {type : TypeDeclaration} (htype : type.body.IsNamed)
    (h : draft.defineType? description type = some next) : next.IsNamed := by
  simp only [Draft.defineType?] at h
  split at h
  · cases h
  · simp only [Option.bind_eq_bind, Option.bind_eq_some_iff, Option.pure_def,
      Option.some.injEq] at h
    obtain ⟨body, hbody, complete, hcomplete, rfl⟩ := h
    have hstart := type.body.isNamed_emptied.extend? htype hbody
    rw [List.partition_eq_filter_filter] at hcomplete ⊢
    refine ⟨List.forall_mem_append.mpr ⟨hdraft.types, List.forall_mem_singleton.mpr ?_⟩, ?_,
      hdraft.directives⟩
    · exact isNamed_applyEarly hstart
        (fun e he => hdraft.early e (List.mem_filter.mp he).1) hcomplete
    · exact fun e he => hdraft.early e (List.mem_filter.mp he).1

/-- Extending a type keeps the draft named. -/
theorem extendType? (hdraft : draft.IsNamed) {e : TypeDeclaration} (he : e.body.IsNamed)
    (h : draft.extendType? e = some next) : next.IsNamed := by
  rw [Draft.extendType?] at h
  split at h
  · obtain ⟨types, htypes, rfl⟩ := Option.map_eq_some_iff.mp h
    exact ⟨isNamed_extendAmong? hdraft.types he htypes, hdraft.early, hdraft.directives⟩
  · cases h
    exact ⟨hdraft.types,
      List.forall_mem_append.mpr ⟨hdraft.early, List.forall_mem_singleton.mpr he⟩,
      hdraft.directives⟩

/-- One definition more that can be written. -/
theorem add? (hdraft : draft.IsNamed) {x : Definition} (hx : x.Grammatical)
    (h : draft.add? x = some next) : next.IsNamed := by
  -- Fields and inputs come with types, directives and extensions, where all of them have names.
  cases x with
  | operation o => cases h
  | fragment f => cases h
  | directive description d span =>
    obtain ⟨directives, hdirectives, rfl⟩ := Option.map_eq_some_iff.mp h
    have hd : isNamedDirective d = true :=
      List.all_eq_true.mpr fun i hi => (hx.arguments i hi).isNamed
    exact ⟨hdraft.types, hdraft.early, isNamed_defineAmong? hdraft.directives hd hdirectives⟩
  | schema description s span =>
    simp only [Draft.add?, Draft.defineSchema?] at h
    split at h
    · cases h
    · simp only [Option.bind_eq_bind, Option.bind_eq_some_iff, Option.pure_def,
        Option.some.injEq] at h
      obtain ⟨-, -, -, -, rfl⟩ := h
      exact ⟨hdraft.types, hdraft.early, hdraft.directives⟩
  | schemaExtension s span =>
    rw [Draft.add?, Draft.extendSchema?] at h
    split at h
    · obtain ⟨roots, -, rfl⟩ := Option.map_eq_some_iff.mp h
      exact ⟨hdraft.types, hdraft.early, hdraft.directives⟩
    · cases h
      exact ⟨hdraft.types, hdraft.early, hdraft.directives⟩
  | type description t span => exact hdraft.defineType? hx.body.isNamed h
  | typeExtension t span => exact hdraft.extendType? hx.1.body.isNamed h

end IsNamed

/-- What is built in has names. -/
theorem isNamed_initial : initial.IsNamed where
  types := by
    have h : ∀ t ∈ Builtin.types, (t.body.fields?.getD []).all (·.isNamed) = true ∧
        (t.body.inputs?.getD []).all (·.isNamed) = true := by
      decide +kernel
    intro t ht
    obtain ⟨hfields, hinputs⟩ := h t ht
    refine ⟨fun fields heq => ?_, fun inputs heq => ?_⟩
    · rw [heq] at hfields
      exact List.all_eq_true.mp hfields
    · rw [heq] at hinputs
      exact List.all_eq_true.mp hinputs
  early := List.forall_mem_nil _
  directives := by decide +kernel

end Draft

/-! ## Schemas -/

/-- Whether the fields of a schema and the types of its arguments and inputs have names. -/
structure IsNamed (schema : Schema) : Prop where
  types : ∀ t ∈ schema.types, t.body.IsNamed
  directives : ∀ d ∈ schema.directives, isNamedDirective d = true

/-- A schema that is built from texts has names. -/
theorem isNamed_of_ofTexts? {texts : List String} {schema : Schema}
    (h : ofTexts? texts = some schema) : schema.IsNamed := by
  obtain ⟨documents, hparsed, h⟩ := Option.bind_eq_some_iff.mp h
  obtain ⟨draft, hdraft, hfinish⟩ := Option.bind_eq_some_iff.mp h
  -- Definition by definition the draft keeps its names.
  have hnamed : draft.IsNamed := by
    refine foldlM_invariant (fun hb ha h => Draft.IsNamed.add? hb ha h) ?_
      Draft.isNamed_initial hdraft
    intro x hx
    obtain ⟨d, hd, hx⟩ := List.mem_flatMap.mp hx
    obtain ⟨text, -, hparse⟩ := exists_of_mem_mapM hparsed hd
    exact (Document.grammatical_of_parse? hparse).definitions x hx
  simp only [Draft.finish?] at hfinish
  split at hfinish
  · cases hfinish
  · simp only [Option.bind_eq_bind, Option.bind_eq_some_iff, Option.pure_def,
      Option.some.injEq] at hfinish
    obtain ⟨roots, -, rfl⟩ := hfinish
    refine ⟨hnamed.types, fun d hd => ?_⟩
    obtain ⟨p, hp, rfl⟩ := List.mem_map.mp hd
    exact hnamed.directives p hp

namespace IsNamed

variable {schema : Schema}

/-- A field that is declared has a name, and its arguments have types with names. -/
theorem field? (h : schema.IsNamed) {typeName fieldName : String} {f : FieldDeclaration}
    (hf : schema.field? typeName fieldName = some f) :
    isName fieldName = true ∧ ∀ i ∈ f.arguments, isName i.type.innerName = true := by
  obtain ⟨fields, hfields, hf⟩ := Option.bind_eq_some_iff.mp hf
  obtain ⟨type, htype, hfields⟩ := Option.bind_eq_some_iff.mp hfields
  have hnamed := (h.types type (declared_of_type? htype).1).fields fields hfields f
    (List.mem_of_find?_eq_some hf)
  rw [FieldDeclaration.isNamed, Bool.and_eq_true, List.all_eq_true] at hnamed
  have hname : f.name = fieldName := by simpa using List.find?_some hf
  exact ⟨hname ▸ hnamed.1, hnamed.2⟩

/-- The arguments of a directive that is declared have types with names. -/
theorem directive? (h : schema.IsNamed) {name : String} {d : DirectiveDeclaration}
    (hd : schema.directive? name = some d) : ∀ i ∈ d.arguments, isName i.type.innerName = true :=
  List.all_eq_true.mp (h.directives d (List.mem_of_find?_eq_some hd))

/-- The type of a field of an input type has a name. -/
theorem inputType? (h : schema.IsNamed) {typeName fieldName : String} {t : TypeRef}
    (ht : schema.inputType? typeName fieldName = some t) : isName t.innerName = true := by
  obtain ⟨i, hi, rfl⟩ := Option.map_eq_some_iff.mp ht
  obtain ⟨inputs, hinputs, hi⟩ := Option.bind_eq_some_iff.mp hi
  obtain ⟨type, htype, hinputs⟩ := Option.bind_eq_some_iff.mp hinputs
  exact (h.types type (declared_of_type? htype).1).inputs inputs hinputs i
    (List.mem_of_find?_eq_some hi)

end IsNamed
end Schema
end EmbeddedGraphQL
