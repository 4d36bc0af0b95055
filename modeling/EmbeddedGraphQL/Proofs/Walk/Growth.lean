import EmbeddedGraphQL.Proofs.Walk.Inherited
import EmbeddedGraphQL.Proofs.Walk.Preorder

/-!
# Growing documents

An edit that adds selections at the end of a set leaves every address where it was. What is known at
an address, its path and its types, depends only on the outlines of the nodes on the way to it: the
kind of an operation, the name of a field, the type conditions of fragments. As long as these stay,
so does what is known of the nodes that were there, and only the new nodes have to be looked at.

* `Document.head_get?_set?`, `Document.exists_head_of_ne`: what a writing leaves of the other nodes.
* `Node.outline`, `Document.Grows`: documents in which every node of another one has its place.
* `Document.Grows.of_set?`, `Document.inSet_of_new`: writing a node with more selections, and where
  the new nodes stand.
* `Document.Grows.exists_standing`: the nodes around a node keep their outlines.
-/

namespace EmbeddedGraphQL

/-! ## Fields in a set -/

namespace Selection

/-- A set has a field of some name exactly if one of its selections is such a field. -/
theorem hasField_iff {set : List Selection} {name : String} :
    hasField set name = true ↔ ∃ f inner, .field f inner ∈ set ∧ f.name = name := by
  rw [hasField, List.any_eq_true]
  constructor
  · rintro ⟨s, hs, hname⟩
    cases s with
    | field f inner => exact ⟨f, inner, hs, by simpa using hname⟩
    | inline f inner => cases hname
    | spread spread => cases hname
  · rintro ⟨f, inner, hs, hname⟩
    exact ⟨_, hs, by simpa using hname⟩

/-- A set lacks a field of some name exactly if every field has another name. -/
theorem hasField_eq_false_iff {set : List Selection} {name : String} :
    hasField set name = false ↔ ∀ f inner, .field f inner ∈ set → f.name ≠ name := by
  simp [← Bool.not_eq_true, hasField_iff]

/-- A field that was appended is there. -/
theorem hasField_append_newField (set : List Selection) (name : String) (inner : List Selection) :
    hasField (set ++ [newField name inner]) name = true :=
  hasField_iff.mpr ⟨_, inner, List.mem_append_right _ List.mem_cons_self, rfl⟩

end Selection

/-! ## Writing and the nodes elsewhere -/

namespace Node

/-- A node without its selections. -/
def head (n : Node) : Node := n.withSelections []

@[simp] theorem head_withSelections (n : Node) (set : List Selection) :
    (n.withSelections set).head = n.head := by
  rw [head, withSelections_withSelections, head]

/-- Nodes with the same head differ in their selections only. -/
theorem eq_withSelections_of_head {m n : Node} (h : m.head = n.head) :
    m = n.withSelections m.selections := by
  calc m = m.head.withSelections m.selections := by
        rw [head, withSelections_withSelections, withSelections_selections]
    _ = n.withSelections m.selections := by rw [h, head, withSelections_withSelections]

/-- Writing leaves the nodes that are not below it, except for what they select. -/
theorem head_at?_put? {m n n' : Node} {p q : List Nat} (h : put? m n p = some n')
    (hpq : ¬ p <+: q) : (n'.at? q).map head = (n.at? q).map head := by
  induction p generalizing n n' q with
  | nil => exact absurd List.nil_prefix hpq
  | cons index rest ih =>
    obtain ⟨old, inner, changed, new, hold, hinner, hchanged, hnew, rfl⟩ := put?_cons_eq_some.mp h
    cases q with
    | nil => simp
    | cons other q =>
      rw [at?_cons, at?_cons, selections_withSelections]
      by_cases hindex : index = other
      · -- The writing is below this selection as well, one step further down.
        subst hindex
        have hlt : index < n.selections.length := (List.getElem?_eq_some_iff.mp hold).1
        rw [List.getElem?_set_self hlt, hold]
        simp only [Option.bind_some, ofSelection?_of_replace? hnew, hinner]
        exact ih hchanged fun hprefix => hpq (List.cons_prefix_cons.mpr ⟨rfl, hprefix⟩)
      · rw [List.getElem?_set_ne hindex]

/-- A node with more selections has all that was below it. -/
theorem at?_of_prefix {m n : Node} (h : n.selections <+: m.selections) {index : Nat}
    (hlt : index < n.selections.length) (rest : List Nat) :
    m.at? (index :: rest) = n.at? (index :: rest) := by
  obtain ⟨more, hmore⟩ := h
  rw [at?_cons, at?_cons, ← hmore, List.getElem?_append_left hlt]

end Node

/-- Whether an address leads to a node or to something below it. -/
def Address.Under (a b : Address) : Prop :=
  a.definition = b.definition ∧ a.selections <+: b.selections

namespace Document

variable {d d' : Document} {a b : Address} {m n k : Node}

/-- The nodes below a node are found by going down from it. -/
theorem get?_below (hn : d.get? a = some n) (rest : List Nat) :
    d.get? ⟨a.definition, a.selections ++ rest⟩ = n.at? rest := by
  rw [get?_eq_at?] at hn ⊢
  obtain ⟨root, hroot, hat⟩ := Option.bind_eq_some_iff.mp hn
  rw [hroot, Option.bind_some, Node.at?_append, hat, Option.bind_some]

/-- A writing leaves the nodes that are not below it, except for what they select. -/
theorem head_get?_set? (h : d.set? a m = some d') (hab : ¬ a.Under b) :
    (d'.get? b).map Node.head = (d.get? b).map Node.head := by
  obtain ⟨old, root, changed, new, hold, hroot, hput, hnew, rfl⟩ := set?_eq_some_iff.mp h
  rw [get?_eq_at?, get?_eq_at?]
  by_cases hdefinition : a.definition = b.definition
  · rw [← hdefinition, root?_set hold hnew, root?, hold, Option.bind_some, Option.bind_some, hroot,
      Option.bind_some]
    exact Node.head_at?_put? hput fun hprefix => hab ⟨hdefinition, hprefix⟩
  · rw [root?, root?, List.getElem?_set_ne hdefinition]

/-- Where a node with more selections is written, the nodes below it stay as they are. -/
theorem get?_of_under (hn : d.get? a = some n) (h : d.set? a m = some d')
    (hmore : n.selections <+: m.selections) (hb : d.get? b = some k) (hne : b ≠ a)
    (hunder : a.Under b) : d'.get? b = some k := by
  obtain ⟨definition, selections⟩ := b
  obtain ⟨rfl, rest, rfl⟩ := hunder
  cases rest with
  | nil => exact absurd (by simp) hne
  | cons index rest =>
    rw [get?_below hn] at hb
    have hlt : index < n.selections.length := by
      obtain ⟨inner, hinner, -⟩ := Option.bind_eq_some_iff.mp hb
      obtain ⟨s, hs, -⟩ := Option.bind_eq_some_iff.mp hinner
      exact (List.getElem?_eq_some_iff.mp hs).1
    rw [get?_below (get?_set? h), Node.at?_of_prefix hmore hlt, hb]

/-- Where a node with more selections is written, all other nodes stay as they are, except for what
they select. -/
theorem exists_head_of_ne (hn : d.get? a = some n) (h : d.set? a m = some d')
    (hmore : n.selections <+: m.selections) (hb : d.get? b = some k) (hne : b ≠ a) :
    ∃ k', d'.get? b = some k' ∧ k'.head = k.head := by
  by_cases hunder : a.Under b
  · exact ⟨k, get?_of_under hn h hmore hb hne hunder, rfl⟩
  · have hhead := head_get?_set? h hunder
    rw [hb, Option.map_some] at hhead
    exact Option.map_eq_some_iff.mp hhead

/-- Where a node with more selections is written, the new nodes stand in its set, behind those that
were there. -/
theorem inSet_of_new (hn : d.get? a = some n) (h : d.set? a m = some d')
    (hmore : n.selections <+: m.selections) (hb : (d'.get? b).isSome = true)
    (hnew : d.get? b = none) : a.InSet n.selections.length b := by
  by_cases hunder : a.Under b
  · obtain ⟨definition, selections⟩ := b
    obtain ⟨rfl, rest, rfl⟩ := hunder
    cases rest with
    | nil =>
      rw [List.append_nil] at hnew
      exact absurd (hn.symm.trans hnew) (by simp)
    | cons index rest =>
      refine ⟨index, rest, Nat.le_of_not_lt fun hlt => ?_, rfl⟩
      rw [get?_below (get?_set? h), Node.at?_of_prefix hmore hlt, ← get?_below hn, hnew] at hb
      cases hb
  · have hhead := head_get?_set? h hunder
    rw [hnew, Option.map_none, Option.map_eq_none_iff] at hhead
    rw [hhead] at hb
    cases hb

end Document

/-- A selection that is a node is entered as that node. -/
theorem Entry.ofSelection_of_node {s : Selection} {n : Node} (h : Node.ofSelection? s = some n) :
    Entry.ofSelection s = .node n := by
  cases s <;> cases h <;> rfl

/-! ## Outlines -/

/-- What paths and types below a node depend on. -/
inductive Outline where
  /-- An operation of a kind. -/
  | operation (kind : OperationKind)
  /-- A fragment on a type. -/
  | fragment (typeCondition : String)
  /-- A field of a name. -/
  | field (name : String)
  /-- An inline fragment, on a type or not. -/
  | inline (typeCondition : Option String)

namespace Outline

/-- The segment that a node of an outline adds to record paths. -/
def segment? : Outline → Option String
  | .field name => some name
  | .inline typeCondition => typeCondition
  | .operation _ | .fragment _ => none

/-- The type that the set of a node of an outline selects on, given the type around it. -/
def typeInside (schema : Schema) (outer : Option String) : Outline → Option String
  | .operation kind => schema.root? kind
  | .fragment typeCondition => some typeCondition
  | .field name => (outer.bind (schema.fieldType? · name)).map (·.2.innerName)
  | .inline typeCondition => typeCondition.or outer

end Outline

namespace Node

/-- The outline of a node. -/
def outline : Node → Outline
  | .operation o => .operation o.kind
  | .fragment f => .fragment f.typeCondition
  | .field f _ => .field f.name
  | .inline f _ => .inline f.typeCondition

/-- The head of a node has its outline. -/
theorem outline_head (n : Node) : n.head.outline = n.outline := by
  cases n <;> rfl

/-- Nodes with the same head have the same outline. -/
theorem outline_of_head {m n : Node} (h : m.head = n.head) : m.outline = n.outline := by
  rw [← m.outline_head, ← n.outline_head, h]

/-- The outline of a node has its segment. -/
theorem segment?_outline (n : Node) : n.outline.segment? = n.segment? := by
  cases n <;> rfl

end Node

/-- The record path through some nodes, by their outlines. -/
theorem RecordPath.ofLine_eq_outlines (line : List Node) :
    ofLine line = ⟨((line.map Node.outline).filterMap Outline.segment?).reverse⟩ := by
  rw [ofLine, List.filterMap_map]
  congr 3
  exact funext fun n => n.segment?_outline.symm

/-- The type that is selected on inside some nodes, by their outlines. -/
theorem Schema.selectedType_eq_outlines (schema : Schema) (line : List Node) :
    schema.selectedType line =
      (line.map Node.outline).foldr (fun o outer => o.typeInside schema outer) none := by
  induction line with
  | nil => rfl
  | cons n line ih =>
    rw [List.map_cons, List.foldr_cons, ← ih]
    cases n <;> rfl

/-! ## Growth -/

/-- Whether every node of a document has its place in another document, with the same outline. -/
def Document.Grows (d d' : Document) : Prop :=
  ∀ a n, d.get? a = some n → ∃ n', d'.get? a = some n' ∧ n'.outline = n.outline

namespace Document.Grows

variable {d d' : Document} {a : Address} {n m : Node}

/-- A document grows where a node of the same outline with more selections is written. -/
theorem of_set? (hn : d.get? a = some n) (h : d.set? a m = some d')
    (houtline : m.outline = n.outline) (hmore : n.selections <+: m.selections) : d.Grows d' := by
  intro b k hb
  by_cases hne : b = a
  · subst hne
    obtain rfl := Option.some.inj (hn.symm.trans hb)
    exact ⟨m, Document.get?_set? h, houtline⟩
  · obtain ⟨k', hk', hhead⟩ := Document.exists_head_of_ne hn h hmore hb hne
    exact ⟨k', hk', Node.outline_of_head hhead⟩

/-- A node that stands in a document stands in the grown one too, among nodes of the same
outlines. -/
theorem exists_standing (h : d.Grows d') {line : List Node}
    (hin : Standing.In d ⟨a, line, .node n⟩) :
    ∃ line' n', Standing.In d' ⟨a, line', .node n'⟩ ∧
      (n' :: line').map Node.outline = (n :: line).map Node.outline := by
  obtain ⟨n', hn', houtline⟩ := h a n (Document.get?_eq_some_iff.mpr ⟨line, hin⟩)
  generalize ht : (⟨a, line, .node n⟩ : Standing) = t at hin
  induction hin generalizing a line n n' with
  | definition hroot =>
    cases ht
    rw [Document.get?_ofDefinition] at hn'
    exact ⟨[], n', .definition hn', by simp [houtline]⟩
  | @selection address ancestors parent index s hparent hs ih =>
    obtain ⟨rfl, rfl, hentry⟩ := (Standing.mk.injEq ..).mp ht
    obtain ⟨parent', hparent', houtline'⟩ :=
      h address parent (Document.get?_eq_some_iff.mpr ⟨ancestors, hparent⟩)
    obtain ⟨line', found, hfound, hline⟩ := ih parent' hparent' houtline' rfl
    obtain rfl := Option.some.inj
      (hparent'.symm.trans (Document.get?_eq_some_iff.mpr ⟨line', hfound⟩))
    -- The node in the grown document is the selection with the same number.
    rw [Document.get?_child, hparent', Option.bind_some] at hn'
    obtain ⟨s', hs', hnode⟩ := Option.bind_eq_some_iff.mp hn'
    have hin' := Standing.In.selection hfound hs'
    rw [Entry.ofSelection_of_node hnode] at hin'
    refine ⟨parent' :: line', n', hin', ?_⟩
    rw [List.map_cons, houtline, hline, ← List.map_cons]

end Document.Grows
end EmbeddedGraphQL
