import EmbeddedGraphQL.Proofs.Lists
import EmbeddedGraphQL.Schema.Build

/-!
# What building a schema establishes

A schema comes out of a draft to which definitions are added one after the other. Whatever the
definitions are, the names of the fields of a type differ and `String` stays a scalar type; and what
the names of all declared types have in common, those of the finished schema have as well.

* `nodup_of_appendDistinct`: distinct keys.
* `Schema.Draft.Built`: what holds of a draft at any time, and `Schema.Draft.Built.add?` for one
  definition more.
* `Schema.declared_of_type?`: types that are found by their name.
* `Schema.built_of_ofDocuments?`: what holds of every schema that is built.
-/

namespace EmbeddedGraphQL

/-! ## Distinct keys -/

/-- Where a list is put after another one with distinct keys, all keys are distinct. -/
theorem nodup_of_appendDistinct {α : Type} {key : α → String} {old new l : List α}
    (hold : (old.map key).Nodup) (h : appendDistinct key old new = some l) :
    (l.map key).Nodup := by
  induction new generalizing old with
  | nil => exact Option.some.inj h ▸ hold
  | cons a new ih =>
    rw [appendDistinct] at h
    split at h
    · cases h
    · rename_i hnew
      refine ih ?_ h
      rw [List.map_append, List.map_singleton, List.nodup_append]
      refine ⟨hold, by simp, fun k hk k' hk' heq => hnew ?_⟩
      obtain ⟨b, hb, rfl⟩ := List.mem_map.mp hk
      rw [List.mem_singleton.mp hk'] at heq
      exact List.any_eq_true.mpr ⟨b, hb, decide_eq_true heq⟩

/-! ## Bodies of types -/

namespace TypeBody

/-- Whether the names of the fields of a body differ. -/
def Distinct (body : TypeBody) : Prop :=
  ∀ fields, body.fields? = some fields → (fields.map (·.name)).Nodup

/-- A body that is emptied has nothing left to repeat. -/
theorem distinct_emptied (body : TypeBody) : body.emptied.Distinct := by
  intro fields h
  cases body <;> cases h <;> exact List.nodup_nil

/-- The fields of a body that is extended are its own and those of the extension. -/
theorem fields?_of_extend? {body other extended : TypeBody} {fields : List FieldDeclaration}
    (h : body.extend? other = some extended) (hfields : extended.fields? = some fields) :
    ∃ old new, body.fields? = some old ∧ appendDistinct (·.name) old new = some fields := by
  -- Bodies of different kinds are never put together, and only two kinds have fields.
  cases body <;> cases other <;>
    simp only [extend?, reduceCtorEq, Option.some.injEq, Option.bind_eq_bind,
      Option.bind_eq_some_iff, Option.pure_def] at h
  case object.object =>
    obtain ⟨is, -, fs, hfs, rfl⟩ := h
    cases hfields
    exact ⟨_, _, rfl, hfs⟩
  case interface.interface =>
    obtain ⟨is, -, fs, hfs, rfl⟩ := h
    cases hfields
    exact ⟨_, _, rfl, hfs⟩
  case scalar.scalar =>
    subst h
    cases hfields
  all_goals
    obtain ⟨parts, -, rfl⟩ := h
    cases hfields

/-- Extending a body keeps its members distinct. -/
theorem Distinct.extend? {body other extended : TypeBody} (hbody : body.Distinct)
    (h : body.extend? other = some extended) : extended.Distinct := by
  intro fields hfields
  obtain ⟨old, new, hold, happend⟩ := fields?_of_extend? h hfields
  exact nodup_of_appendDistinct (hbody old hold) happend

/-- An extension does not change the kind. -/
theorem kind_of_extend? {body other extended : TypeBody} (h : body.extend? other = some extended) :
    extended.kind = body.kind := by
  cases body <;> cases other <;>
    simp only [extend?, reduceCtorEq, Option.some.injEq, Option.bind_eq_bind,
      Option.bind_eq_some_iff, Option.pure_def] at h
  case scalar.scalar => rw [← h]
  case object.object | interface.interface =>
    obtain ⟨-, -, -, -, rfl⟩ := h
    rfl
  all_goals
    obtain ⟨-, -, rfl⟩ := h
    rfl

end TypeBody

/-! ## Drafts -/

section Built

-- What is asked of the name of every type.
variable {Q : String → Prop}

/-- Whether the name of a type has a property and the names of its fields differ. -/
structure SchemaType.Built (Q : String → Prop) (type : SchemaType) : Prop where
  name : Q type.name
  fields : type.body.Distinct

namespace Schema.Draft

/-- What came before the definition of a type keeps its name and its fields in order. -/
theorem built_applyEarly {type complete : SchemaType} {early : List TypeDeclaration}
    (htype : type.Built Q) (h : applyEarly type early = some complete) : complete.Built Q := by
  induction early generalizing type with
  | nil => exact Option.some.inj h ▸ htype
  | cons e early ih =>
    rw [applyEarly] at h
    split at h
    · obtain ⟨body, hbody, h⟩ := Option.bind_eq_some_iff.mp h
      have hextended : SchemaType.Built Q { type with body := body } :=
        ⟨htype.name, htype.fields.extend? hbody⟩
      exact ih hextended h
    · exact ih htype h

/-- The extension of one among some types keeps all of them in order, and the kind of the type of
each name. -/
theorem built_extendAmong? {e : TypeDeclaration} {types extended : List SchemaType}
    (htypes : ∀ t ∈ types, t.Built Q) (h : extendAmong? e types = some extended) :
    (∀ t ∈ extended, t.Built Q) ∧
      ∀ name, (extended.find? (·.name = name)).map (·.body.kind) =
        (types.find? (·.name = name)).map (·.body.kind) := by
  induction types generalizing extended with
  | nil => cases h
  | cons t types ih =>
    obtain ⟨ht, htypes⟩ := List.forall_mem_cons.mp htypes
    rw [extendAmong?] at h
    split at h
    · -- This is the type that is extended: its body changes, its name and its kind do not.
      obtain ⟨body, hbody, rfl⟩ := Option.map_eq_some_iff.mp h
      have hextended : SchemaType.Built Q { t with body := body } :=
        ⟨ht.name, ht.fields.extend? hbody⟩
      refine ⟨List.forall_mem_cons.mpr ⟨hextended, htypes⟩, fun name => ?_⟩
      rw [List.find?_cons, List.find?_cons]
      cases decide (t.name = name)
      · rfl
      · simp [TypeBody.kind_of_extend? hbody]
    · obtain ⟨rest, hrest, rfl⟩ := Option.map_eq_some_iff.mp h
      obtain ⟨hbuilt, hkind⟩ := ih htypes hrest
      refine ⟨List.forall_mem_cons.mpr ⟨ht, hbuilt⟩, fun name => ?_⟩
      rw [List.find?_cons, List.find?_cons]
      cases decide (t.name = name)
      · exact hkind name
      · rfl

/-- What holds of a draft at any time, if the names of all declared types have some property. -/
structure Built (Q : String → Prop) (draft : Draft) : Prop where
  types : ∀ t ∈ draft.types, t.Built Q
  string : (draft.types.find? (·.name = "String")).map (·.body.kind) = some .scalar

namespace Built

variable {draft next : Draft}

/-- Defining a type keeps a draft built. -/
theorem defineType? (hdraft : draft.Built Q) {description : Option String}
    {type : TypeDeclaration} (hname : Q type.name)
    (h : draft.defineType? description type = some next) : next.Built Q := by
  simp only [Draft.defineType?] at h
  split at h
  · cases h
  · simp only [Option.bind_eq_bind, Option.bind_eq_some_iff, Option.pure_def,
      Option.some.injEq] at h
    obtain ⟨body, hbody, complete, hcomplete, rfl⟩ := h
    have hstart : SchemaType.Built Q ⟨type.name, description, body⟩ :=
      ⟨hname, type.body.distinct_emptied.extend? hbody⟩
    constructor
    · exact List.forall_mem_append.mpr
        ⟨hdraft.types, List.forall_mem_singleton.mpr (built_applyEarly hstart hcomplete)⟩
    · -- `String` is found among the types that were there before.
      obtain ⟨string, hfind, hkind⟩ := Option.map_eq_some_iff.mp hdraft.string
      rw [List.find?_append, hfind, Option.some_or, Option.map_some, hkind]

/-- Extending a type keeps a draft built. -/
theorem extendType? (hdraft : draft.Built Q) {e : TypeDeclaration}
    (h : draft.extendType? e = some next) : next.Built Q := by
  rw [Draft.extendType?] at h
  split at h
  · obtain ⟨types, htypes, rfl⟩ := Option.map_eq_some_iff.mp h
    obtain ⟨hbuilt, hkind⟩ := built_extendAmong? hdraft.types htypes
    exact ⟨hbuilt, (hkind _).trans hdraft.string⟩
  · cases h
    exact ⟨hdraft.types, hdraft.string⟩

/-- A definition of the schema itself leaves the types. -/
theorem types_of_defineSchema? {s : SchemaDeclaration} (h : draft.defineSchema? s = some next) :
    next.types = draft.types := by
  simp only [Draft.defineSchema?] at h
  split at h
  · cases h
  · simp only [Option.bind_eq_bind, Option.bind_eq_some_iff, Option.pure_def,
      Option.some.injEq] at h
    obtain ⟨-, -, -, -, rfl⟩ := h
    rfl

/-- An extension of the schema itself leaves the types. -/
theorem types_of_extendSchema? {s : SchemaDeclaration} (h : draft.extendSchema? s = some next) :
    next.types = draft.types := by
  rw [Draft.extendSchema?] at h
  split at h
  · obtain ⟨roots, -, rfl⟩ := Option.map_eq_some_iff.mp h
    rfl
  · cases h
    rfl

/-- Whether a draft is built depends on its types only. -/
theorem of_types_eq (hdraft : draft.Built Q) (h : next.types = draft.types) : next.Built Q := by
  refine ⟨?_, ?_⟩ <;> rw [h]
  · exact hdraft.types
  · exact hdraft.string

/-- One definition more keeps what holds of a draft. -/
theorem add? (hdraft : draft.Built Q) {x : Definition}
    (hx : ∀ description type span, x = .type description type span → Q type.name)
    (h : draft.add? x = some next) : next.Built Q := by
  cases x with
  | operation o => cases h
  | fragment f => cases h
  | directive description d span =>
    obtain ⟨directives, -, rfl⟩ := Option.map_eq_some_iff.mp h
    exact hdraft.of_types_eq rfl
  | schema description s span => exact hdraft.of_types_eq (types_of_defineSchema? h)
  | schemaExtension s span => exact hdraft.of_types_eq (types_of_extendSchema? h)
  | type description t span => exact hdraft.defineType? (hx description t span rfl) h
  | typeExtension t span => exact hdraft.extendType? h

end Built

/-- The built-in types are in order. -/
theorem distinct_builtin : ∀ t ∈ Builtin.types, t.body.Distinct := by
  have h : ∀ t ∈ Builtin.types, ((t.body.fields?.getD []).map (·.name)).Nodup := by decide +kernel
  intro t ht fields hfields
  have hnodup := h t ht
  rwa [hfields] at hnodup

/-- What holds of the draft that building starts with. -/
theorem built_initial (hbuiltin : ∀ t ∈ Builtin.types, Q t.name) : initial.Built Q where
  types := fun t ht => ⟨hbuiltin t ht, distinct_builtin t ht⟩
  string := by decide +kernel

end Schema.Draft

/-! ## Schemas -/

namespace Schema

/-- A type that is found is one of the schema, and it has the name that was asked for. -/
theorem declared_of_type? {schema : Schema} {typeName : String} {type : SchemaType}
    (h : schema.type? typeName = some type) : type ∈ schema.types ∧ type.name = typeName :=
  ⟨List.mem_of_find?_eq_some h, by simpa using List.find?_some h⟩

/-- What holds of every schema that is built from definitions of types whose names have some
property. -/
structure Built (Q : String → Prop) (schema : Schema) : Prop where
  types : ∀ t ∈ schema.types, t.Built Q
  string : schema.kind? "String" = some .scalar

/-- A draft that is finished gives a schema of which the same holds. -/
theorem Draft.Built.finish? {draft : Draft} {schema : Schema} (hdraft : draft.Built Q)
    (h : draft.finish? = some schema) : schema.Built Q := by
  simp only [Draft.finish?] at h
  split at h
  · cases h
  · simp only [Option.bind_eq_bind, Option.bind_eq_some_iff, Option.pure_def,
      Option.some.injEq] at h
    obtain ⟨roots, -, rfl⟩ := h
    exact ⟨hdraft.types, hdraft.string⟩

/-- What holds of every schema that documents define together. -/
theorem built_of_ofDocuments? {documents : List Document} {schema : Schema}
    (hbuiltin : ∀ t ∈ Builtin.types, Q t.name)
    (hdocuments : ∀ d ∈ documents, ∀ x ∈ d.definitions, ∀ description type span,
      x = .type description type span → Q type.name)
    (h : ofDocuments? documents = some schema) : schema.Built Q := by
  obtain ⟨draft, hdraft, hfinish⟩ := Option.bind_eq_some_iff.mp h
  refine Draft.Built.finish? ?_ hfinish
  refine foldlM_invariant (fun hb ha h => Draft.Built.add? hb ha h) ?_
    (Draft.built_initial hbuiltin) hdraft
  intro x hx
  obtain ⟨d, hd, hx⟩ := List.mem_flatMap.mp hx
  exact hdocuments d hd x hx

end Schema
end Built
end EmbeddedGraphQL
