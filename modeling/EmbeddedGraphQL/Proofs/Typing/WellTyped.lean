import EmbeddedGraphQL.Proofs.Walk.Inherited
import EmbeddedGraphQL.Proofs.Walk.Preorder

/-!
# Well-typed documents

A document is well typed against a schema when every field is there on the type it is selected on
(`__typename` is there on any), what has fields or members is selected from and what is a scalar or
an enum is not, and operations and type conditions are on composite types. What is asked of one node
is `Node.Fits`; it depends on what is around the node through one type only, so that being well
typed is handed down from node to node.

* `Document.WellTyped`: the property, which can be decided.
* `Document.wellTyped_set?_iff`: what is left to show after a node is exchanged.
* `Node.wellTyped_append_iff`: what is left to show after a selection is added to a node.
-/

namespace EmbeddedGraphQL

/-! ## What is asked of a node -/

namespace Schema

/-- Whether a name is that of a scalar or enum. -/
def isLeaf (schema : Schema) (typeName : String) : Bool :=
  match schema.kind? typeName with
  | some .scalar | some .enum => true
  | _ => false

/-- The type that the set of a node selects on, given the one that the set around it does. -/
def typeInside (schema : Schema) (outer : Option String) : Node → Option String
  | .operation o => schema.root? o.kind
  | .fragment f => some f.typeCondition
  | .field f _ => (outer.bind (schema.fieldType? · f.name)).map (·.2.innerName)
  | .inline f _ => f.typeCondition.or outer

/-- The type that a set selects on is handed down from node to node. -/
theorem selectedType_eq_contextIn (schema : Schema) (line : List Node) :
    schema.selectedType line = Node.contextIn schema.typeInside none line := by
  induction line with
  | nil => rfl
  | cons n line ih => cases n <;> simp only [selectedType, ih] <;> rfl

/-- The type selected from inside a node is its type inside, on the type around it. -/
theorem selectedType_cons (schema : Schema) (n : Node) (line : List Node) :
    schema.selectedType (n :: line) = schema.typeInside (schema.selectedType line) n := by
  rw [selectedType_eq_contextIn, selectedType_eq_contextIn]
  rfl

/-- What a node selects on does not depend on what it selects. -/
@[simp] theorem typeInside_withSelections (schema : Schema) (outer : Option String) (n : Node)
    (set : List Selection) :
    schema.typeInside outer (n.withSelections set) = schema.typeInside outer n := by
  cases n <;> rfl

/-- No type is both composite and a leaf. -/
theorem isLeaf_of_isComposite {schema : Schema} {typeName : String}
    (h : schema.isComposite typeName = true) : schema.isLeaf typeName = false := by
  rw [isComposite] at h
  rw [isLeaf]
  split at h <;> simp_all

end Schema

/-- Whether a node fits in a set that selects on a type, whatever the selections inside it are: a
field is there on the type, it selects something if its own type is composite and nothing if that is
a leaf; what an operation starts on and what a type condition names is composite. -/
def Node.Fits (schema : Schema) (outer : Option String) : Node → Prop
  | .operation o => ∃ type ∈ schema.root? o.kind, schema.isComposite type = true
  | .fragment f => schema.isComposite f.typeCondition = true
  | .field f set => ∃ type ∈ schema.typeInside outer (.field f set),
      (schema.isComposite type = true → set ≠ []) ∧ (schema.isLeaf type = true → set = [])
  | .inline f _ => ∀ condition ∈ f.typeCondition, schema.isComposite condition = true

/-- Whether a node fits the type around it can be decided by a look at the schema. -/
instance (schema : Schema) (outer : Option String) (n : Node) : Decidable (n.Fits schema outer) :=
  match n with
  | .operation o =>
    inferInstanceAs (Decidable (∃ type ∈ schema.root? o.kind, schema.isComposite type = true))
  | .fragment f => inferInstanceAs (Decidable (schema.isComposite f.typeCondition = true))
  | .field f set =>
    inferInstanceAs (Decidable (∃ type ∈ schema.typeInside outer (.field f set),
      (schema.isComposite type = true → set ≠ []) ∧ (schema.isLeaf type = true → set = [])))
  | .inline f _ =>
    inferInstanceAs (Decidable (∀ condition ∈ f.typeCondition, schema.isComposite condition = true))

/-- A node that has something selected on it fits as well as it did if something else is. -/
theorem Node.fits_withSelections_iff {schema : Schema} {outer : Option String} {n : Node}
    {set : List Selection} (hset : set = [] ↔ n.selections = []) :
    (n.withSelections set).Fits schema outer ↔ n.Fits schema outer := by
  cases n with
  | field f old =>
    change set = [] ↔ old = [] at hset
    simp only [Node.withSelections, Fits, ne_eq, hset]
    rfl
  | _ => rfl

/-! ## Selections, nodes and documents -/

namespace Selection

mutual

/-- Whether a selection is well typed in a set that selects on a type: it fits, and so does
everything inside it. -/
def WellTyped (schema : Schema) (outer : Option String) : Selection → Prop
  | .field f set =>
    (Node.field f set).Fits schema outer ∧
      SetWellTyped schema (schema.typeInside outer (.field f set)) set
  | .inline f set =>
    (Node.inline f set).Fits schema outer ∧
      SetWellTyped schema (schema.typeInside outer (.inline f set)) set
  | .spread _ => True

/-- Whether the selections of a set that selects on a type are well typed. -/
def SetWellTyped (schema : Schema) (type : Option String) : List Selection → Prop
  | [] => True
  | s :: rest => s.WellTyped schema type ∧ SetWellTyped schema type rest

end

mutual

/-- Whether a selection is well typed can be decided. -/
def decideWellTyped (schema : Schema) (outer : Option String) :
    (s : Selection) → Decidable (s.WellTyped schema outer)
  | .field f set =>
    have := decideSetWellTyped schema (schema.typeInside outer (.field f set)) set
    decidable_of_iff ((Node.field f set).Fits schema outer ∧
      SetWellTyped schema (schema.typeInside outer (.field f set)) set) (by rw [WellTyped])
  | .inline f set =>
    have := decideSetWellTyped schema (schema.typeInside outer (.inline f set)) set
    decidable_of_iff ((Node.inline f set).Fits schema outer ∧
      SetWellTyped schema (schema.typeInside outer (.inline f set)) set) (by rw [WellTyped])
  | .spread s => decidable_of_iff True (by rw [WellTyped])

/-- Whether the selections of a set are well typed can be decided. -/
def decideSetWellTyped (schema : Schema) (type : Option String) :
    (set : List Selection) → Decidable (SetWellTyped schema type set)
  | [] => decidable_of_iff True (by rw [SetWellTyped])
  | s :: rest =>
    have := decideWellTyped schema type s
    have := decideSetWellTyped schema type rest
    decidable_of_iff (s.WellTyped schema type ∧ SetWellTyped schema type rest)
      (by rw [SetWellTyped])

end

/-- Whether a selection set is well typed is decided entry by entry. -/
instance (schema : Schema) (type : Option String) (set : List Selection) :
    Decidable (SetWellTyped schema type set) :=
  decideSetWellTyped schema type set

/-- The selections of a set are well typed if each of them is. -/
theorem setWellTyped_iff {schema : Schema} {type : Option String} {set : List Selection} :
    SetWellTyped schema type set ↔ ∀ s ∈ set, s.WellTyped schema type := by
  induction set with
  | nil => simp [SetWellTyped]
  | cons s rest ih => rw [SetWellTyped, ih, List.forall_mem_cons]

end Selection

/-- Whether a node is well typed in a set that selects on a type. -/
structure Node.WellTyped (schema : Schema) (outer : Option String) (n : Node) : Prop where
  fits : n.Fits schema outer
  selections : Selection.SetWellTyped schema (schema.typeInside outer n) n.selections

/-- Whether a node is well typed is decided by its own part and by its selections. -/
instance (schema : Schema) (outer : Option String) (n : Node) :
    Decidable (n.WellTyped schema outer) :=
  decidable_of_iff (n.Fits schema outer ∧
      Selection.SetWellTyped schema (schema.typeInside outer n) n.selections)
    ⟨fun h => ⟨h.1, h.2⟩, fun h => ⟨h.fits, h.selections⟩⟩

/-- Whether a document is well typed: all operations and fragments are. -/
def Document.WellTyped (schema : Schema) (d : Document) : Prop :=
  ∀ x ∈ d.definitions, ∀ n ∈ Node.ofDefinition? x, n.WellTyped schema none

/-- Whether a document is well typed is decided definition by definition. -/
instance (schema : Schema) (d : Document) : Decidable (d.WellTyped schema) :=
  inferInstanceAs (Decidable (∀ x ∈ d.definitions, ∀ n ∈ Node.ofDefinition? x,
    n.WellTyped schema none))

/-! ## Exchanging a node -/

namespace Node

variable {schema : Schema} {outer : Option String}

/-- A selection that is a node is well typed if the node is. -/
theorem wellTyped_of_ofSelection? {s : Selection} {n : Node} (h : ofSelection? s = some n) :
    s.WellTyped schema outer ↔ n.WellTyped schema outer := by
  cases s with
  | spread s => cases h
  | _ =>
    cases h
    rw [Selection.WellTyped]
    exact ⟨fun h => ⟨h.1, h.2⟩, fun h => ⟨h.fits, h.selections⟩⟩

/-- Being well typed is handed down, with the type that is selected on as the context. -/
theorem handedDown_wellTyped (schema : Schema) :
    HandedDown schema.typeInside (WellTyped schema) where
  down h hs hm :=
    (wellTyped_of_ofSelection? hm).mp (Selection.setWellTyped_iff.mp h.selections _ hs)
  exchange {c n index new m} h hindex hm := by
    rw [← wellTyped_of_ofSelection? hm]
    have hfits : (n.withSelections (n.selections.set index new)).Fits schema c :=
      (fits_withSelections_iff (List.set_eq_nil_iff _ _)).mpr h.fits
    have hold := Selection.setWellTyped_iff.mp h.selections
    -- The node fits as it did before, so that only the new selection is in question.
    constructor
    · intro hnew
      have hset := Selection.setWellTyped_iff.mp hnew.selections
      rw [selections_withSelections, Schema.typeInside_withSelections] at hset
      exact hset new (List.mem_set hindex new)
    · intro hnew
      refine ⟨hfits, Selection.setWellTyped_iff.mpr fun s hs => ?_⟩
      rw [selections_withSelections] at hs
      rw [Schema.typeInside_withSelections]
      exact (List.mem_or_eq_of_mem_set hs).elim (hold s) (· ▸ hnew)

end Node

namespace Document

variable {schema : Schema} {d d' : Document}

/-- A document is well typed if its operations and fragments are. -/
theorem wellTyped_iff_rootsHave :
    d.WellTyped schema ↔ d.RootsHave (Node.WellTyped schema none) := by
  constructor
  · intro h index n hn
    obtain ⟨x, hx, hxn⟩ := Option.bind_eq_some_iff.mp hn
    exact h x (List.mem_of_getElem? hx) n hxn
  · intro h x hx n hn
    obtain ⟨index, hindex⟩ := List.getElem?_of_mem hx
    exact h index n (by rw [root?, hindex, Option.bind_some, hn])

/-- Every node of a well-typed document is well typed where it stands. -/
theorem WellTyped.node (h : d.WellTyped schema) {a : Address} {line : List Node} {n : Node}
    (hin : Standing.In d ⟨a, line, .node n⟩) : n.WellTyped schema (schema.selectedType line) := by
  rw [Schema.selectedType_eq_contextIn]
  exact hin.handedDown (Node.handedDown_wellTyped schema) (wellTyped_iff_rootsHave.mp h)

/-- After a writing a document is still well typed exactly if the node that is written is well
typed where the old one stood. -/
theorem wellTyped_set?_iff (h : d.WellTyped schema) {a : Address} {line : List Node} {n m : Node}
    (hin : Standing.In d ⟨a, line, .node n⟩) (hset : d.set? a m = some d') :
    d'.WellTyped schema ↔ m.WellTyped schema (schema.selectedType line) := by
  rw [Schema.selectedType_eq_contextIn, wellTyped_iff_rootsHave]
  exact handedDown_set?_iff (Node.handedDown_wellTyped schema) (wellTyped_iff_rootsHave.mp h) hin
    hset

end Document

/-! ## Adding a selection -/

namespace Node

variable {schema : Schema} {outer : Option String} {n : Node}

/-- A node that selects on a known type takes one selection more if that type is no leaf. -/
theorem fits_append_iff {type : String} (htype : schema.typeInside outer n = some type)
    (h : n.Fits schema outer) (hinline : ∀ f set, n = .inline f set → f.typeCondition.isSome)
    (s : Selection) :
    (n.withSelections (n.selections ++ [s])).Fits schema outer ↔ schema.isLeaf type = false := by
  -- Only a field can be on a leaf: the type of any other node here is composite.
  cases n with
  | operation o =>
    obtain ⟨root, hroot, hcomposite⟩ := h
    obtain rfl : root = type := Option.some.inj (hroot.symm.trans htype)
    exact iff_of_true ⟨root, hroot, hcomposite⟩ (Schema.isLeaf_of_isComposite hcomposite)
  | fragment f =>
    cases htype
    exact iff_of_true h (Schema.isLeaf_of_isComposite h)
  | inline f set =>
    obtain ⟨condition, hcondition⟩ := Option.isSome_iff_exists.mp (hinline f set rfl)
    simp only [Schema.typeInside, hcondition, Option.some_or, Option.some.injEq] at htype
    subst htype
    exact iff_of_true h (Schema.isLeaf_of_isComposite (h condition hcondition))
  | field f set =>
    change schema.typeInside outer (.field f (set ++ [s])) = some type at htype
    change (∃ t ∈ schema.typeInside outer (.field f (set ++ [s])), _) ↔ _
    simp [htype]

/-- A well-typed node with one selection more is well typed if its type takes selections and the new
one is well typed. -/
theorem wellTyped_append_iff {type : String} (htype : schema.typeInside outer n = some type)
    (h : n.WellTyped schema outer)
    (hinline : ∀ f set, n = .inline f set → f.typeCondition.isSome) (s : Selection) :
    (n.withSelections (n.selections ++ [s])).WellTyped schema outer ↔
      schema.isLeaf type = false ∧ s.WellTyped schema (some type) := by
  have hset : Selection.SetWellTyped schema (some type) (n.selections ++ [s]) ↔
      s.WellTyped schema (some type) := by
    have hold := Selection.setWellTyped_iff.mp (htype ▸ h.selections)
    simp only [Selection.setWellTyped_iff, List.forall_mem_append, List.forall_mem_singleton]
    exact and_iff_right hold
  rw [← fits_append_iff htype h.fits hinline s, ← hset]
  constructor
  · intro hnew
    exact ⟨hnew.fits, by simpa [htype] using hnew.selections⟩
  · rintro ⟨hfits, hselections⟩
    exact ⟨hfits, by simpa [htype] using hselections⟩

end Node

end EmbeddedGraphQL
