import EmbeddedGraphQL.Document.Same
import EmbeddedGraphQL.Proofs.Address.Lens

/-!
# The same up to places

A document is the same as another one if they differ at most in the places that their parts
remember. Every part is the same as itself, so that what a change does to a document is seen where
the change is made: a list with one entry replaced is the same as before if the entries are, a node
with other selections if the selections are, and a document with another node at an address if the
nodes are.

* `sameList_set`: a list with one entry replaced.
* `Document.same_self`: a document is the same as itself.
* `Node.same`, `Node.same_put?`: nodes that are the same, and a writing below a node.
* `Document.same_set?`: a writing at an address.
-/

namespace EmbeddedGraphQL

/-! ## Lists that agree -/

section Lists

variable {α β : Type} {eq : α → α → Bool} {as bs : List α}

/-- Lists that agree item by item are mapped alike by what makes no difference between items. -/
theorem map_eq_of_sameList (h : sameList eq as bs = true) {f : α → β}
    (hf : ∀ a b, eq a b = true → f a = f b) : as.map f = bs.map f := by
  induction as generalizing bs with
  | nil =>
    cases bs with
    | nil => rfl
    | cons b bs => cases h
  | cons a as ih =>
    cases bs with
    | nil => cases h
    | cons b bs =>
      rw [sameList, Bool.and_eq_true] at h
      rw [List.map_cons, List.map_cons, hf a b h.1, ih h.2]

/-- Lists that agree have the same length. -/
theorem length_eq_of_sameList (h : sameList eq as bs = true) : as.length = bs.length := by
  have hmap := congrArg List.length (map_eq_of_sameList h (f := fun _ => ()) fun _ _ _ => rfl)
  rwa [List.length_map, List.length_map] at hmap

/-- Of lists that agree both are empty or none. -/
theorem isEmpty_eq_of_sameList (h : sameList eq as bs = true) : as.isEmpty = bs.isEmpty := by
  have hmap := map_eq_of_sameList h (f := fun _ => ()) fun _ _ _ => rfl
  rw [← List.isEmpty_map (f := fun _ => ()), hmap, List.isEmpty_map]

/-- Of lists that agree both have an item of a kind or none, if the kind makes no difference. -/
theorem any_eq_of_sameList (h : sameList eq as bs = true) {p : α → Bool}
    (hp : ∀ a b, eq a b = true → p a = p b) : as.any p = bs.any p := by
  have hmap := congrArg (List.any · id) (map_eq_of_sameList h hp)
  rwa [List.any_map, List.any_map] at hmap

/-- Lists that agree do so place by place. -/
theorem exists_getElem?_of_sameList {i : Nat} {a : α} (h : sameList eq as bs = true)
    (ha : as[i]? = some a) : ∃ b, bs[i]? = some b ∧ eq a b = true := by
  induction as generalizing bs i with
  | nil => cases ha
  | cons first as ih =>
    cases bs with
    | nil => cases h
    | cons other bs =>
      obtain ⟨hfirst, hrest⟩ := Bool.and_eq_true_iff.mp h
      cases i with
      | zero => exact ⟨other, rfl, Option.some.inj ha ▸ hfirst⟩
      | succ i =>
        have hnext : ∃ b, bs[i]? = some b ∧ eq a b = true := ih hrest ha
        exact hnext

variable (hself : ∀ a, eq a a = true)

include hself

/-- A list agrees with itself. -/
theorem sameList_self (as : List α) : sameList eq as as = true := by
  induction as with
  | nil => rfl
  | cons a as ih => rw [sameList, hself, ih, Bool.and_self]

/-- A list with one entry replaced agrees with the old one if the entries agree. -/
theorem sameList_set {i : Nat} {a : α} (ha : as[i]? = some a) (b : α) :
    sameList eq (as.set i b) as = eq b a := by
  induction as generalizing i with
  | nil => cases ha
  | cons first as ih =>
    cases i with
    | zero =>
      obtain rfl := Option.some.inj ha
      rw [List.set_cons_zero, sameList, sameList_self hself, Bool.and_true]
    | succ i =>
      rw [List.getElem?_cons_succ] at ha
      rw [List.set_cons_succ, sameList, hself, ih ha, Bool.true_and]

end Lists

/-- An option agrees with itself. -/
theorem sameOption_self {α : Type} {eq : α → α → Bool} (hself : ∀ a, eq a a = true) (o : Option α) :
    sameOption eq o o = true := by
  cases o with
  | none => rfl
  | some a => exact hself a

/-! ## Parts of a document -/

mutual

/-- A value is the same as itself. -/
theorem Value.same_self (v : Value) : v.same v = true := by
  cases v with
  | null => rfl
  | boolean b => exact beq_self_eq_true b
  | enum name | int digits | float digits | string text => exact beq_self_eq_true _
  | var name span => exact beq_self_eq_true name
  | list items => exact Value.sameItems_self items
  | object fields => exact Value.sameFields_self fields

/-- Items are the same as themselves. -/
theorem Value.sameItems_self (vs : List Value) : Value.sameItems vs vs = true := by
  cases vs with
  | nil => rfl
  | cons v vs => rw [Value.sameItems, Value.same_self v, Value.sameItems_self vs, Bool.and_self]

/-- The fields of an object are the same as themselves. -/
theorem Value.sameFields_self (fs : List (String × Value)) : Value.sameFields fs fs = true := by
  cases fs with
  | nil => rfl
  | cons f fs =>
    obtain ⟨name, v⟩ := f
    rw [Value.sameFields, Value.same_self v, Value.sameFields_self fs, beq_self_eq_true,
      Bool.and_self, Bool.and_self]

end

/-- Directives are the same as themselves. -/
theorem sameDirectives_self (ds : List Directive) : sameDirectives ds ds = true := by
  refine sameList_self (fun d => ?_) ds
  rw [Directive.same, beq_self_eq_true, Bool.true_and]
  refine sameList_self (fun a => ?_) d.arguments
  rw [Argument.same, beq_self_eq_true, Value.same_self, Bool.and_self]

namespace Selection

/-- Selection sets are compared entry by entry. -/
theorem sameSet_eq (xs ys : List Selection) : sameSet xs ys = sameList same xs ys := by
  induction xs generalizing ys with
  | nil => cases ys <;> rfl
  | cons x xs ih =>
    cases ys with
    | nil => rfl
    | cons y ys => rw [sameSet, sameList, ih]

/-- A field is the same as itself, the selections under it apart. -/
theorem sameHead_self (f : Field) : sameHead f f = true := by
  have harguments : sameList Argument.same f.arguments f.arguments = true :=
    sameList_self (fun a => by simp [Argument.same, Value.same_self]) f.arguments
  simp [sameHead, harguments, sameDirectives_self]

mutual

/-- A selection is the same as itself. -/
theorem same_self (s : Selection) : s.same s = true := by
  cases s with
  | field f set => rw [same, sameHead_self, sameSet_self set, Bool.and_self]
  | inline f set =>
    rw [same, beq_self_eq_true, sameDirectives_self, sameSet_self set, Bool.and_self, Bool.and_self]
  | spread s => rw [same, beq_self_eq_true, sameDirectives_self, Bool.and_self]

/-- A selection set is the same as itself. -/
theorem sameSet_self (set : List Selection) : sameSet set set = true := by
  cases set with
  | nil => rfl
  | cons s set => rw [sameSet, same_self s, sameSet_self set, Bool.and_self]

end

end Selection

/-- Variable definitions are the same as themselves. -/
theorem VariableDefinition.same_self (v : VariableDefinition) : v.same v = true := by
  simp [VariableDefinition.same, sameOption_self Value.same_self, sameDirectives_self]

/-- The declaration of an input is the same as itself. -/
theorem InputDeclaration.same_self (d : InputDeclaration) : d.same d = true := by
  simp [InputDeclaration.same, sameOption_self Value.same_self, sameDirectives_self]

/-- The declaration of a field is the same as itself. -/
theorem FieldDeclaration.same_self (d : FieldDeclaration) : d.same d = true := by
  simp [FieldDeclaration.same, sameList_self InputDeclaration.same_self, sameDirectives_self]

/-- The declaration of an enum value is the same as itself. -/
theorem EnumDeclaration.same_self (d : EnumDeclaration) : d.same d = true := by
  simp [EnumDeclaration.same, sameDirectives_self]

/-- The body of a type is the same as itself. -/
theorem TypeBody.same_self (body : TypeBody) : body.same body = true := by
  cases body with
  | scalar => rfl
  | object names fields | interface names fields =>
    simp [TypeBody.same, sameList_self FieldDeclaration.same_self]
  | union members => exact beq_self_eq_true members
  | enum values => exact sameList_self EnumDeclaration.same_self values
  | inputObject fields => exact sameList_self InputDeclaration.same_self fields

/-- A definition is the same as itself. -/
theorem Definition.same_self (d : Definition) : d.same d = true := by
  cases d with
  | operation o =>
    simp [Definition.same, Operation.same, sameList_self VariableDefinition.same_self,
      sameDirectives_self, Selection.sameSet_self]
  | fragment f =>
    simp [Definition.same, Fragment.same, sameDirectives_self, Selection.sameSet_self]
  | directive description d span =>
    simp [Definition.same, DirectiveDeclaration.same, sameList_self InputDeclaration.same_self]
  | schema description s span => simp [Definition.same, SchemaDeclaration.same, sameDirectives_self]
  | schemaExtension s span => simp [Definition.same, SchemaDeclaration.same, sameDirectives_self]
  | type description t span =>
    simp [Definition.same, TypeDeclaration.same, sameDirectives_self, TypeBody.same_self]
  | typeExtension t span =>
    simp [Definition.same, TypeDeclaration.same, sameDirectives_self, TypeBody.same_self]

/-- A document is the same as itself. -/
theorem Document.same_self (d : Document) : d.same d = true :=
  sameList_self Definition.same_self d.definitions

/-! ## Nodes -/

namespace Node

/-- Whether two nodes are the same. -/
def same : Node → Node → Bool
  | .operation a, .operation b => a.same b
  | .fragment a, .fragment b => a.same b
  | .field f as, .field g bs => Selection.same (.field f as) (.field g bs)
  | .inline f as, .inline g bs => Selection.same (.inline f as) (.inline g bs)
  | _, _ => false

/-- A node with other selections is the same if the selections are. -/
theorem same_withSelections (n : Node) (set : List Selection) :
    (n.withSelections set).same n = Selection.sameSet set n.selections := by
  cases n with
  | operation o =>
    simp [withSelections, same, selections, Operation.same,
      sameList_self VariableDefinition.same_self, sameDirectives_self]
  | fragment f => simp [withSelections, same, selections, Fragment.same, sameDirectives_self]
  | field f old => simp [withSelections, same, selections, Selection.same, Selection.sameHead_self]
  | inline f old => simp [withSelections, same, selections, Selection.same, sameDirectives_self]

/-- A selection replaced by a node is the same if the nodes are. -/
theorem same_of_replace? {old new : Selection} {m n : Node} (hold : ofSelection? old = some n)
    (h : old.replace? m = some new) : new.same old = m.same n := by
  cases old <;> cases hold <;> cases m <;> cases h <;> rfl

/-- A definition replaced by a node is the same if the nodes are. -/
theorem same_of_replaceDefinition? {old new : Definition} {m n : Node}
    (hold : ofDefinition? old = some n) (h : Document.replaceDefinition? old m = some new) :
    new.same old = m.same n := by
  cases old <;> cases hold <;> cases m <;> cases h <;> rfl

/-- A writing below a node gives the same node if it writes what is the same. -/
theorem same_put? {m k n n' : Node} {p : List Nat} (h : put? m n p = some n')
    (hk : n.at? p = some k) : n'.same n = m.same k := by
  -- On the way down, each node has all entries of its selections but one from before.
  induction p generalizing n n' with
  | nil =>
    obtain ⟨-, rfl⟩ := put?_nil_eq_some.mp h
    rw [at?_nil, Option.some.injEq] at hk
    rw [hk]
  | cons index rest ih =>
    obtain ⟨old, inner, changed, new, hold, hinner, hchanged, hnew, rfl⟩ := put?_cons_eq_some.mp h
    rw [at?_cons, hold, Option.bind_some, hinner, Option.bind_some] at hk
    rw [same_withSelections, Selection.sameSet_eq, sameList_set Selection.same_self hold,
      same_of_replace? hinner hnew, ih hchanged hk]

end Node

/-- A writing at an address gives the same document if it writes what is the same. -/
theorem Document.same_set? {d d' : Document} {a : Address} {m n : Node}
    (h : d.set? a m = some d') (hn : d.get? a = some n) : d'.same d = m.same n := by
  obtain ⟨old, root, changed, new, hold, hroot, hput, hnew, rfl⟩ := set?_eq_some_iff.mp h
  rw [get?_eq_at?, root?, hold, Option.bind_some, hroot, Option.bind_some] at hn
  calc sameList Definition.same (d.definitions.set a.definition new) d.definitions
      = new.same old := sameList_set Definition.same_self hold new
    _ = changed.same root := Node.same_of_replaceDefinition? hroot hnew
    _ = m.same n := Node.same_put? hput hn

end EmbeddedGraphQL
