import EmbeddedGraphQL.Proofs.Typing.Scaffold

/-!
# The sets of a scaffold

A scaffold is a tree of fields. Its sets are the selections at the top and those under its fields,
and a set under a field selects on the type that the schema declares for the field. What is shown
here of every set asks nothing of the types: they may lead back to each other, have no fields, be
abstract, or not be there at all.

* `Selection.setLevels`: how many levels of fields a tree has.
* `Schema.HasField`: the fields that there are on a type.
* `Schema.SetIn`: the sets of a tree, each with the type that it selects on.
* `Schema.exists_levels_of_setIn`: every set of a scaffold is a scaffold on its own type.
* `Schema.scaffold_sets`: what every set of a scaffold is made of, and how deep the tree is.
-/

namespace EmbeddedGraphQL

/-! ## Levels of fields -/

namespace Selection

mutual

/-- How many levels of fields there are from a selection downwards. -/
def levels : Selection → Nat
  | .field _ set => setLevels set + 1
  | .inline _ set => setLevels set
  | .spread _ => 0

/-- How many levels of fields there are from the selections of a set downwards. -/
def setLevels : List Selection → Nat
  | [] => 0
  | s :: rest => max s.levels (setLevels rest)

end

/-- A set has no more levels than a number if none of its selections has. -/
theorem setLevels_le_iff {set : List Selection} {n : Nat} :
    setLevels set ≤ n ↔ ∀ s ∈ set, s.levels ≤ n := by
  induction set with
  | nil => simp [setLevels]
  | cons s rest ih => rw [setLevels, Nat.max_le, ih, List.forall_mem_cons]

/-- A new field is one level above its set. -/
theorem levels_newField (name : String) (set : List Selection) :
    (newField name set).levels = setLevels set + 1 := by
  rw [newField, levels]

end Selection

namespace Schema

variable {schema : Schema}

/-! ## Fields of a type and sets of a tree -/

/-- Whether a type has a field of a name and a type: `__typename`, which is a `String!` on any type,
or one that is declared. -/
def HasField (schema : Schema) (typeName name : String) (type : TypeRef) : Prop :=
  name = typenameField ∧ type = .named "String" true ∨
    ∃ f, schema.field? typeName name = some f ∧ f.type = type

/-- The sets of a tree of selections on a type, each with the type that it selects on: the tree
itself, and every set that is not empty under a field of a set, on the type declared for it. -/
inductive SetIn (schema : Schema) (typeName : String) (tree : List Selection) :
    String → List Selection → Prop where
  /-- The selections at the top. -/
  | top : SetIn schema typeName tree typeName tree
  /-- The selections under a field. -/
  | under {outer : String} {set inner : List Selection} {field : Field} {f : FieldDeclaration}
      (h : SetIn schema typeName tree outer set) (hmem : .field field inner ∈ set)
      (hne : inner ≠ []) (hf : schema.field? outer field.name = some f) :
      SetIn schema typeName tree f.type.innerName inner

/-- In a schema that is built the field to select first is the one that its name stands for. -/
theorem Built.field?_of_firstField? {Q : String → Prop} (h : schema.Built Q) {typeName : String}
    {f : FieldDeclaration} (hf : schema.firstField? typeName = some f) :
    schema.field? typeName f.name = some f := by
  obtain ⟨fields, hfields, hmem⟩ := mem_of_firstField? hf
  obtain ⟨type, htype, hbody⟩ := Option.bind_eq_some_iff.mp hfields
  -- The names of the fields of a built type differ, so that no other field can be found.
  have hdistinct : (fields.map (·.name)).Nodup :=
    (h.types type (declared_of_type? htype).1).fields fields hbody
  rw [field?, hfields]
  exact find?_of_mem_of_distinct hdistinct hmem

/-! ## Scaffolds -/

/-- On an abstract type the name of the type is selected first. -/
theorem head?_scaffoldLevels (levels : Nat) {typeName : String}
    (h : schema.isAbstract typeName = true) :
    (schema.scaffoldLevels levels typeName).head? = some typenameSelection := by
  cases levels with
  | zero => rfl
  | succ levels => simp [scaffoldLevels, h]

/-- A selection of a scaffold is the name of the type, or the first field with a scaffold of one
level less under it if its type is composite. -/
theorem cases_of_mem_scaffoldLevels {levels : Nat} {typeName : String} {s : Selection}
    (hs : s ∈ schema.scaffoldLevels levels typeName) :
    s = typenameSelection ∨
      ∃ below f, levels = below + 1 ∧ schema.firstField? typeName = some f ∧
        s = Selection.newField f.name (if schema.isComposite f.type.innerName then
          schema.scaffoldLevels below f.type.innerName else []) := by
  cases levels with
  | zero => exact .inl (List.mem_singleton.mp hs)
  | succ below =>
    refine (mem_scaffoldLevels hs).imp_right ?_
    rintro ⟨f, hf, hs⟩
    exact ⟨below, f, rfl, hf, hs⟩

/-- A scaffold of so many levels has one level of fields more at most: where no level is left, the
name of the type is still selected. -/
theorem setLevels_scaffoldLevels_le (levels : Nat) (typeName : String) :
    Selection.setLevels (schema.scaffoldLevels levels typeName) ≤ levels + 1 := by
  induction levels generalizing typeName with
  | zero => exact Nat.le_refl 1
  | succ levels ih =>
    rw [Selection.setLevels_le_iff]
    intro s hs
    rcases mem_scaffoldLevels hs with rfl | ⟨f, -, rfl⟩
    · show 1 ≤ levels + 1 + 1
      omega
    · rw [Selection.levels_newField]
      apply Nat.succ_le_succ
      split
      · exact ih f.type.innerName
      · exact Nat.zero_le _

/-- Every set of a scaffold is a scaffold of its own, on the type that it selects on. -/
theorem exists_levels_of_setIn {Q : String → Prop} (h : schema.Built Q) {levels : Nat}
    {typeName outer : String} {set : List Selection}
    (hset : schema.SetIn typeName (schema.scaffoldLevels levels typeName) outer set) :
    ∃ below, set = schema.scaffoldLevels below outer := by
  -- By induction on the way down to the set: what stands under a field of a scaffold is the
  -- scaffold of one level less on the type of that field.
  induction hset with
  | top => exact ⟨levels, rfl⟩
  | @under outer set inner field f _ hmem hne hf ih =>
    obtain ⟨below, rfl⟩ := ih
    rcases cases_of_mem_scaffoldLevels hmem with hname | ⟨below, first, -, hfirst, hfield⟩
    · -- Nothing is selected under the name of a type.
      cases hname
      exact absurd rfl hne
    · obtain ⟨rfl, rfl⟩ := Selection.field.inj hfield
      obtain rfl : first = f :=
        Option.some.inj ((h.field?_of_firstField? hfirst).symm.trans hf)
      refine ⟨below, if_pos ?_⟩
      by_contra hleaf
      exact hne (if_neg hleaf)

/-- Every selection of a scaffold is a field that its type has, with something selected under it
exactly if the type of the field is composite. -/
theorem Built.hasField_of_mem {Q : String → Prop} (h : schema.Built Q) {levels : Nat}
    {typeName : String} {s : Selection} (hs : s ∈ schema.scaffoldLevels levels typeName) :
    ∃ name inner type, s = Selection.newField name inner ∧ schema.HasField typeName name type ∧
      (inner ≠ [] ↔ schema.isComposite type.innerName = true) := by
  rcases cases_of_mem_scaffoldLevels hs with rfl | ⟨below, f, -, hf, rfl⟩
  · -- `__typename` selects nothing, and `String` is a scalar in every schema that is built.
    have hstring : schema.isComposite "String" = false := by rw [isComposite, h.string]
    refine ⟨typenameField, [], .named "String" true, rfl, .inl ⟨rfl, rfl⟩, ?_⟩
    exact iff_of_false (not_not_intro rfl) (by rw [TypeRef.innerName, hstring]; decide)
  · refine ⟨f.name, _, f.type, rfl, .inr ⟨f, h.field?_of_firstField? hf, rfl⟩, ?_⟩
    split
    · rename_i hcomposite
      exact iff_of_true (scaffoldLevels_ne_nil below _) hcomposite
    · rename_i hleaf
      exact iff_of_false (not_not_intro rfl) hleaf

/-- A scaffold of any type, at any depth, in any schema that can be built: in each of its sets
something is selected, on an abstract type `__typename` first, and all selections are fields that
the type has, with selections under them exactly if their own type is composite. The tree has no
more levels of fields than the depth leaves, and at least one is allowed. -/
theorem scaffold_sets {documents : List Document} (h : ofDocuments? documents = some schema)
    (typeName : String) (depth : Nat) :
    (∀ outer set, schema.SetIn typeName (schema.scaffold typeName depth) outer set →
      set ≠ [] ∧
      (schema.isAbstract outer = true → set.head? = some typenameSelection) ∧
      ∀ s ∈ set, ∃ name inner type, s = Selection.newField name inner ∧
        schema.HasField outer name type ∧
        (inner ≠ [] ↔ schema.isComposite type.innerName = true)) ∧
    Selection.setLevels (schema.scaffold typeName depth) ≤ max 1 (4 - depth) := by
  have hbuilt : schema.Built fun _ => True :=
    built_of_ofDocuments? (fun _ _ => trivial) (fun _ _ _ _ _ _ _ _ => trivial) h
  constructor
  · intro outer set hset
    obtain ⟨levels, rfl⟩ := exists_levels_of_setIn hbuilt hset
    exact ⟨scaffoldLevels_ne_nil levels outer, head?_scaffoldLevels levels,
      fun s hs => hbuilt.hasField_of_mem hs⟩
  · calc Selection.setLevels (schema.scaffold typeName depth)
        ≤ 3 - depth + 1 := setLevels_scaffoldLevels_le (3 - depth) typeName
      _ = max 1 (4 - depth) := by omega

/-- The definitions `type Query { node: Node }` and `interface Node { next: Node }`. -/
def nextTypes : Document :=
  ⟨[.type none ⟨"Query", [], .object [] [⟨none, "node", [], .named "Node" false, []⟩]⟩ none,
    .type none ⟨"Node", [], .interface [] [⟨none, "next", [], .named "Node" false, []⟩]⟩ none]⟩

/-- The schema with these types. -/
def nexts : Schema := (ofDocuments? [nextTypes]).get (by decide +kernel)

/-- The scaffold of an interface that leads back to itself: the set under its field starts with
`__typename`, too, and there are three levels at depth 1. -/
theorem scaffold_sets_interface :
    ofDocuments? [nextTypes] = some nexts ∧
      ∃ inner, .newField "next" inner ∈ nexts.scaffold "Node" 1 ∧ inner ≠ [] ∧
        inner.head? = some typenameSelection ∧
        Selection.setLevels (nexts.scaffold "Node" 1) ≤ 3 := by
  have hbuilt : ofDocuments? [nextTypes] = some nexts := (Option.some_get _).symm
  obtain ⟨hsets, hlevels⟩ := scaffold_sets hbuilt "Node" 1
  have hmem : .newField "next" (nexts.scaffoldLevels 1 "Node") ∈ nexts.scaffold "Node" 1 :=
    .tail _ (.head _)
  have hne : nexts.scaffoldLevels 1 "Node" ≠ [] := scaffoldLevels_ne_nil 1 "Node"
  have hnext : nexts.field? "Node" "next" = some ⟨none, "next", [], .named "Node" false, []⟩ := rfl
  have hunder : nexts.SetIn "Node" (nexts.scaffold "Node" 1) "Node" _ := .under .top hmem hne hnext
  obtain ⟨hsome, hfirst, -⟩ := hsets "Node" _ hunder
  exact ⟨hbuilt, _, hmem, hsome, hfirst rfl, hlevels⟩

end Schema
end EmbeddedGraphQL
