import EmbeddedGraphQL.Address

/-!
# Addresses as lenses

Reading and writing at an address goes down from a definition, one selection at a time. Here both
are put in terms of nodes: `Node.at?` reads below a node and `Node.put?` writes below it, and the
laws of reading and writing follow by induction on the numbers of the selections.

* `Document.get?_eq_at?`, `Document.set?_eq_put?`: addresses in terms of nodes.
* `Document.get?_child`: one step further down.
* `Document.get?_set?`, `Document.set?_get?`, `Document.set?_set?`: reading gives what was written,
  writing what was read changes nothing, and the later of two writings counts.
* `Document.get?_set?_apart`: what stands elsewhere stays.
-/

namespace EmbeddedGraphQL

/-! ## Nodes below a node -/

namespace Node

/-- Whether two nodes are of the same kind. -/
def sameKind : Node → Node → Bool
  | .operation _, .operation _ => true
  | .fragment _, .fragment _ => true
  | .field _ _, .field _ _ => true
  | .inline _ _, .inline _ _ => true
  | _, _ => false

/-- The node reached from a node along the numbers of selections. -/
def at? (n : Node) : List Nat → Option Node
  | [] => some n
  | index :: rest => (n.selections[index]?.bind ofSelection?).bind (·.at? rest)

/-- The node in which the node at the end of the numbers of selections is replaced by one of the
same kind. -/
def put? (m : Node) (n : Node) : List Nat → Option Node
  | [] => if n.sameKind m then some m else none
  | index :: rest => do
    let old ← n.selections[index]?
    let inner ← ofSelection? old
    let changed ← put? m inner rest
    let new ← old.replace? changed
    return n.withSelections (n.selections.set index new)

@[simp] theorem sameKind_refl (n : Node) : n.sameKind n = true := by
  cases n <;> rfl

/-- Being of one kind is transitive. -/
theorem sameKind_trans {l m n : Node} (h₁ : l.sameKind m) (h₂ : m.sameKind n) : l.sameKind n := by
  cases l <;> cases m <;> cases n <;> simp_all [sameKind]

/-- Being of one kind is symmetric. -/
theorem sameKind_symm {m n : Node} (h : m.sameKind n) : n.sameKind m := by
  cases m <;> cases n <;> first | rfl | cases h

@[simp] theorem selections_withSelections (n : Node) (set : List Selection) :
    (n.withSelections set).selections = set := by
  cases n <;> rfl

@[simp] theorem withSelections_selections (n : Node) : n.withSelections n.selections = n := by
  cases n <;> rfl

@[simp] theorem withSelections_withSelections (n : Node) (s t : List Selection) :
    (n.withSelections s).withSelections t = n.withSelections t := by
  cases n <;> rfl

@[simp] theorem sameKind_withSelections (n : Node) (set : List Selection) :
    n.sameKind (n.withSelections set) = true := by
  cases n <;> rfl

/-- A selection can be replaced by the nodes of its own kind, and then is the new node. -/
theorem ofSelection?_of_replace? {old new : Selection} {m : Node} (h : old.replace? m = some new) :
    ofSelection? new = some m := by
  cases old <;> cases m <;> cases h <;> rfl

/-- A selection replaced by the node it is stays as it is. -/
theorem replace?_of_ofSelection? {s : Selection} {n : Node} (h : ofSelection? s = some n) :
    s.replace? n = some s := by
  cases s <;> cases h <;> rfl

/-- A selection that is a node can be replaced by every node of the same kind. -/
theorem exists_replace? {s : Selection} {n m : Node} (h : ofSelection? s = some n)
    (hkind : n.sameKind m) : ∃ new, s.replace? m = some new := by
  cases s <;> cases h <;> cases m <;> first | exact ⟨_, rfl⟩ | cases hkind

/-- What a selection is replaced by does not depend on what the selection holds. -/
theorem replace?_replace? {old new : Selection} {m : Node} (h : old.replace? m = some new)
    (k : Node) : new.replace? k = old.replace? k := by
  cases old <;> cases m <;> cases h <;> cases k <;> rfl

@[simp] theorem at?_nil (n : Node) : n.at? [] = some n := rfl

/-- An address is followed one index at a time. -/
theorem at?_cons (n : Node) (index : Nat) (rest : List Nat) :
    n.at? (index :: rest) = (n.selections[index]?.bind ofSelection?).bind (·.at? rest) := rfl

/-- Going down in two legs. -/
theorem at?_append (n : Node) (p q : List Nat) : n.at? (p ++ q) = (n.at? p).bind (·.at? q) := by
  induction p generalizing n with
  | nil => rfl
  | cons index p ih =>
    rw [List.cons_append, at?_cons, at?_cons]
    cases n.selections[index]?.bind ofSelection? with
    | none => rfl
    | some inner => exact ih inner

/-- At the empty address a node is replaced by one of its kind only. -/
theorem put?_nil (m n : Node) : put? m n [] = if n.sameKind m then some m else none := rfl

/-- A node is replaced by one of the same kind. -/
theorem put?_nil_eq_some {m n n' : Node} :
    put? m n [] = some n' ↔ n.sameKind m = true ∧ m = n' := by
  rw [put?_nil]
  cases n.sameKind m <;> simp

/-- The parts of a writing below a node. -/
theorem put?_cons_eq_some {m n n' : Node} {index : Nat} {rest : List Nat} :
    put? m n (index :: rest) = some n' ↔
      ∃ old inner changed new, n.selections[index]? = some old ∧ ofSelection? old = some inner ∧
        put? m inner rest = some changed ∧ old.replace? changed = some new ∧
        n.withSelections (n.selections.set index new) = n' := by
  simp only [put?, Option.bind_eq_bind, Option.bind_eq_some_iff, Option.pure_def,
    Option.some.injEq, exists_and_left]

/-- Writing keeps the kind of the node it goes down from. -/
theorem sameKind_of_put? {m n n' : Node} {p : List Nat} (h : put? m n p = some n') :
    n.sameKind n' := by
  cases p with
  | nil =>
    obtain ⟨hkind, rfl⟩ := put?_nil_eq_some.mp h
    exact hkind
  | cons index rest =>
    obtain ⟨-, -, -, new, -, -, -, -, rfl⟩ := put?_cons_eq_some.mp h
    exact sameKind_withSelections n _

/-- Reading gives what was written. -/
theorem at?_put? {m n n' : Node} {p : List Nat} (h : put? m n p = some n') :
    n'.at? p = some m := by
  induction p generalizing n n' with
  | nil =>
    obtain ⟨-, rfl⟩ := put?_nil_eq_some.mp h
    rfl
  | cons index rest ih =>
    obtain ⟨old, inner, changed, new, hold, hinner, hchanged, hnew, rfl⟩ := put?_cons_eq_some.mp h
    have hlt : index < n.selections.length := (List.getElem?_eq_some_iff.mp hold).1
    rw [at?_cons, selections_withSelections, List.getElem?_set_self hlt]
    simp only [Option.bind_some, ofSelection?_of_replace? hnew]
    exact ih hchanged

/-- Writing what was read changes nothing. -/
theorem put?_at? {m n : Node} {p : List Nat} (h : n.at? p = some m) : put? m n p = some n := by
  induction p generalizing n with
  | nil =>
    rw [at?_nil, Option.some.injEq] at h
    rw [h]
    exact put?_nil_eq_some.mpr ⟨sameKind_refl m, rfl⟩
  | cons index rest ih =>
    rw [at?_cons, Option.bind_assoc, Option.bind_eq_some_iff] at h
    obtain ⟨old, hold, h⟩ := h
    obtain ⟨inner, hinner, h⟩ := Option.bind_eq_some_iff.mp h
    refine put?_cons_eq_some.mpr
      ⟨old, inner, inner, old, hold, hinner, ih h, replace?_of_ofSelection? hinner, ?_⟩
    obtain ⟨hlt, rfl⟩ := List.getElem?_eq_some_iff.mp hold
    rw [List.set_getElem_self, withSelections_selections]

/-- Where a node stands, every node of its kind can be written. -/
theorem exists_put? {m k n : Node} {p : List Nat} (h : n.at? p = some m) (hkind : m.sameKind k) :
    ∃ n', put? k n p = some n' := by
  induction p generalizing n with
  | nil =>
    rw [at?_nil, Option.some.injEq] at h
    rw [h]
    exact ⟨k, put?_nil_eq_some.mpr ⟨hkind, rfl⟩⟩
  | cons index rest ih =>
    rw [at?_cons, Option.bind_assoc, Option.bind_eq_some_iff] at h
    obtain ⟨old, hold, h⟩ := h
    obtain ⟨inner, hinner, h⟩ := Option.bind_eq_some_iff.mp h
    obtain ⟨changed, hchanged⟩ := ih h
    obtain ⟨new, hnew⟩ := exists_replace? hinner (sameKind_of_put? hchanged)
    exact ⟨_, put?_cons_eq_some.mpr ⟨old, inner, changed, new, hold, hinner, hchanged, hnew, rfl⟩⟩

/-- The later of two writings counts. -/
theorem put?_put? {m n n' : Node} {p : List Nat} (h : put? m n p = some n') (k : Node) :
    put? k n' p = put? k n p := by
  induction p generalizing n n' with
  | nil =>
    obtain ⟨hkind, rfl⟩ := put?_nil_eq_some.mp h
    have heq : m.sameKind k = n.sameKind k :=
      Bool.eq_iff_iff.mpr ⟨sameKind_trans hkind, sameKind_trans (sameKind_symm hkind)⟩
    rw [put?_nil, put?_nil, heq]
  | cons index rest ih =>
    obtain ⟨old, inner, changed, new, hold, hinner, hchanged, hnew, rfl⟩ := put?_cons_eq_some.mp h
    have hlt : index < n.selections.length := (List.getElem?_eq_some_iff.mp hold).1
    rw [put?, put?, selections_withSelections, List.getElem?_set_self hlt, hold]
    simp only [Option.bind_eq_bind, Option.bind_some, ofSelection?_of_replace? hnew, hinner,
      ih hchanged, replace?_replace? hnew, List.set_set, withSelections_withSelections]

/-- Writing at the end of one line of selections leaves what stands at the end of another. -/
theorem at?_put?_apart {m n n' : Node} {p q : List Nat} (h : put? m n p = some n')
    (hpq : ¬ p <+: q) (hqp : ¬ q <+: p) : n'.at? q = n.at? q := by
  induction p generalizing n n' q with
  | nil => exact absurd (List.nil_prefix) hpq
  | cons index rest ih =>
    obtain ⟨old, inner, changed, new, hold, hinner, hchanged, hnew, rfl⟩ := put?_cons_eq_some.mp h
    cases q with
    | nil => exact absurd (List.nil_prefix) hqp
    | cons other q =>
      rw [at?_cons, at?_cons, selections_withSelections]
      by_cases hindex : index = other
      · subst hindex
        have hlt : index < n.selections.length := (List.getElem?_eq_some_iff.mp hold).1
        rw [List.getElem?_set_self hlt, hold]
        simp only [Option.bind_some, ofSelection?_of_replace? hnew, hinner]
        refine ih hchanged ?_ ?_
        · exact fun hprefix => hpq (List.cons_prefix_cons.mpr ⟨rfl, hprefix⟩)
        · exact fun hprefix => hqp (List.cons_prefix_cons.mpr ⟨rfl, hprefix⟩)
      · rw [List.getElem?_set_ne hindex]

end Node

/-! ## Selections -/

namespace Selection

/-- Going down from a selection set is going down from any node that owns it. -/
theorem descend?_eq_at? (n : Node) (index : Nat) (rest : List Nat) :
    descend? (index :: rest) n.selections = n.at? (index :: rest) := by
  induction rest generalizing n index with
  | nil =>
    rw [descend?, Node.at?_cons]
    cases n.selections[index]?.bind Node.ofSelection? <;> rfl
  | cons next rest ih =>
    rw [descend?, Node.at?_cons]
    cases n.selections[index]? with
    | none => rfl
    | some s =>
      cases s with
      | field f inner => exact ih (.field f inner) next
      | inline f inner => exact ih (.inline f inner) next
      | spread s => rfl

/-- Writing in a selection set is writing below any node that owns it. -/
theorem write?_eq_put? (m n : Node) (index : Nat) (rest : List Nat) :
    n.withSelections <$> write? m (index :: rest) n.selections = Node.put? m n (index :: rest) := by
  -- The set that is written to is one node further down at every step, so that the node stays
  -- general.
  induction rest generalizing n index with
  | nil =>
    rw [write?, Node.put?]
    cases n.selections[index]? with
    | none => rfl
    | some s => cases s <;> cases m <;> rfl
  | cons next rest ih =>
    rw [write?, Node.put?]
    cases n.selections[index]? with
    | none => rfl
    | some s =>
      cases s with
      | field f inner =>
        have hinner := ih (.field f inner) next
        simp only [Node.selections] at hinner
        simp only [Option.bind_eq_bind, Option.bind_some, Node.ofSelection?, ← hinner]
        cases write? m (next :: rest) inner <;> rfl
      | inline f inner =>
        have hinner := ih (.inline f inner) next
        simp only [Node.selections] at hinner
        simp only [Option.bind_eq_bind, Option.bind_some, Node.ofSelection?, ← hinner]
        cases write? m (next :: rest) inner <;> rfl
      | spread s => rfl

end Selection

/-! ## Documents -/

namespace Document

/-- The definition of a number, if it is a node. -/
def root? (d : Document) (index : Nat) : Option Node :=
  d.definitions[index]?.bind Node.ofDefinition?

/-- A definition replaced by a node of its kind is that node. -/
theorem ofDefinition?_of_replaceDefinition? {old new : Definition} {m : Node}
    (h : replaceDefinition? old m = some new) : Node.ofDefinition? new = some m := by
  cases old <;> cases m <;> cases h <;> rfl

/-- A definition replaced by the node it is stays as it is. -/
theorem replaceDefinition?_of_ofDefinition? {d : Definition} {n : Node}
    (h : Node.ofDefinition? d = some n) : replaceDefinition? d n = some d := by
  cases d <;> cases h <;> rfl

/-- A definition that is a node can be replaced by every node of the same kind. -/
theorem exists_replaceDefinition? {d : Definition} {n m : Node}
    (h : Node.ofDefinition? d = some n) (hkind : n.sameKind m) :
    ∃ new, replaceDefinition? d m = some new := by
  cases d <;> cases h <;> cases m <;> first | exact ⟨_, rfl⟩ | cases hkind

/-- A definition cannot be replaced by a node of another kind. -/
theorem replaceDefinition?_eq_none {d : Definition} {n m : Node}
    (h : Node.ofDefinition? d = some n) (hkind : n.sameKind m = false) :
    replaceDefinition? d m = none := by
  cases d with
  | operation o =>
    cases h
    cases m with
    | operation o' => cases hkind
    | _ => rfl
  | fragment f =>
    cases h
    cases m with
    | fragment f' => cases hkind
    | _ => rfl
  | _ => rfl

/-- What a definition is replaced by does not depend on what the definition holds. -/
theorem replaceDefinition?_replaceDefinition? {old new : Definition} {m : Node}
    (h : replaceDefinition? old m = some new) (k : Node) :
    replaceDefinition? new k = replaceDefinition? old k := by
  cases old <;> cases m <;> cases h <;> cases k <;> rfl

/-- The node at an address is found by going down from its definition. -/
theorem get?_eq_at? (d : Document) (a : Address) :
    d.get? a = (d.root? a.definition).bind (·.at? a.selections) := by
  rw [get?, root?]
  simp only [Option.bind_eq_bind]
  cases d.definitions[a.definition]?.bind Node.ofDefinition? with
  | none => rfl
  | some root =>
    cases hselections : a.selections with
    | nil => rfl
    | cons index rest => exact Selection.descend?_eq_at? root index rest

/-- A writing at an address goes down from its definition. -/
theorem set?_eq_put? (d : Document) (a : Address) (m : Node) :
    d.set? a m = (d.definitions[a.definition]?).bind fun old =>
      (Node.ofDefinition? old).bind fun root =>
        (Node.put? m root a.selections).bind fun changed =>
          (replaceDefinition? old changed).map fun new =>
            ⟨d.definitions.set a.definition new⟩ := by
  rw [set?]
  cases d.definitions[a.definition]? with
  | none => rfl
  | some old =>
    cases hroot : Node.ofDefinition? old with
    | none => simp [hroot]
    | some root =>
      cases hselections : a.selections with
      | nil =>
        -- The definition itself is replaced, which asks for a node of its kind.
        simp only [Option.bind_eq_bind, Option.bind_some, hroot, List.isEmpty_nil, if_true,
          Option.pure_def, Node.put?_nil]
        by_cases hkind : root.sameKind m = true
        · rw [if_pos hkind]
          cases h : replaceDefinition? old m <;> simp [h]
        · rw [if_neg hkind, replaceDefinition?_eq_none hroot (Bool.eq_false_iff.mpr hkind)]
          rfl
      | cons index rest =>
        -- Further down the set of the definition is written, and the definition keeps its kind.
        simp only [Option.bind_eq_bind, Option.bind_some, hroot, List.isEmpty_cons,
          Selection.write?_eq_put?]
        cases Node.put? m root (index :: rest) with
        | none => rfl
        | some changed => cases h : replaceDefinition? old changed <;> simp [h]

/-- The parts of a writing at an address. -/
theorem set?_eq_some_iff {d d' : Document} {a : Address} {m : Node} :
    d.set? a m = some d' ↔
      ∃ old root changed new, d.definitions[a.definition]? = some old ∧
        Node.ofDefinition? old = some root ∧ Node.put? m root a.selections = some changed ∧
        replaceDefinition? old changed = some new ∧
        ⟨d.definitions.set a.definition new⟩ = d' := by
  simp only [set?_eq_put?, Option.bind_eq_some_iff, Option.map_eq_some_iff, exists_and_left]

/-- One step further down: the node at the address of a selection is that selection. -/
theorem get?_child (d : Document) (a : Address) (index : Nat) :
    d.get? (a.child index) =
      (d.get? a).bind fun n => n.selections[index]?.bind Node.ofSelection? := by
  rw [get?_eq_at?, get?_eq_at?, Address.child]
  cases d.root? a.definition with
  | none => rfl
  | some root =>
    rw [Option.bind_some, Option.bind_some, Node.at?_append]
    congr 1
    funext n
    rw [Node.at?_cons]
    cases n.selections[index]?.bind Node.ofSelection? <;> rfl

/-- The definition at the address of a writing after the writing. -/
theorem root?_set {d : Document} {index : Nat} {old new : Definition} {m : Node}
    (hold : d.definitions[index]? = some old) (hnew : replaceDefinition? old m = some new) :
    root? ⟨d.definitions.set index new⟩ index = some m := by
  have hlt : index < d.definitions.length := (List.getElem?_eq_some_iff.mp hold).1
  rw [root?, List.getElem?_set_self hlt, Option.bind_some,
    ofDefinition?_of_replaceDefinition? hnew]

/-- Reading gives what was written. -/
theorem get?_set? {d d' : Document} {a : Address} {m : Node} (h : d.set? a m = some d') :
    d'.get? a = some m := by
  obtain ⟨old, root, changed, new, hold, hroot, hput, hnew, rfl⟩ := set?_eq_some_iff.mp h
  rw [get?_eq_at?, root?_set hold hnew]
  exact Node.at?_put? hput

/-- Writing what was read changes nothing. -/
theorem set?_get? {d : Document} {a : Address} {m : Node} (h : d.get? a = some m) :
    d.set? a m = some d := by
  rw [get?_eq_at?, root?, Option.bind_assoc, Option.bind_eq_some_iff] at h
  obtain ⟨old, hold, h⟩ := h
  obtain ⟨root, hroot, hat⟩ := Option.bind_eq_some_iff.mp h
  refine set?_eq_some_iff.mpr ⟨old, root, root, old, hold, hroot, Node.put?_at? hat,
    replaceDefinition?_of_ofDefinition? hroot, ?_⟩
  obtain ⟨hlt, rfl⟩ := List.getElem?_eq_some_iff.mp hold
  rw [List.set_getElem_self]

/-- Where a node stands, every node of its kind can be written. -/
theorem exists_set? {d : Document} {a : Address} {m k : Node} (h : d.get? a = some m)
    (hkind : m.sameKind k) : ∃ d', d.set? a k = some d' := by
  rw [get?_eq_at?, root?, Option.bind_assoc, Option.bind_eq_some_iff] at h
  obtain ⟨old, hold, h⟩ := h
  obtain ⟨root, hroot, hat⟩ := Option.bind_eq_some_iff.mp h
  obtain ⟨changed, hput⟩ := Node.exists_put? hat hkind
  obtain ⟨new, hnew⟩ := exists_replaceDefinition? hroot (Node.sameKind_of_put? hput)
  exact ⟨_, set?_eq_some_iff.mpr ⟨old, root, changed, new, hold, hroot, hput, hnew, rfl⟩⟩

/-- The later of two writings counts. -/
theorem set?_set? {d d' : Document} {a : Address} {m : Node} (h : d.set? a m = some d')
    (k : Node) : d'.set? a k = d.set? a k := by
  obtain ⟨old, root, changed, new, hold, hroot, hput, hnew, rfl⟩ := set?_eq_some_iff.mp h
  have hlt : a.definition < d.definitions.length := (List.getElem?_eq_some_iff.mp hold).1
  rw [set?_eq_put?, set?_eq_put?, List.getElem?_set_self hlt, hold]
  simp only [Option.bind_some, ofDefinition?_of_replaceDefinition? hnew, hroot,
    Node.put?_put? hput, replaceDefinition?_replaceDefinition? hnew, List.set_set]

/-- What stands neither above nor below an address stays when something is written there. -/
theorem get?_set?_apart {d d' : Document} {a b : Address} {m : Node} (h : d.set? a m = some d')
    (hab : ¬ (a.definition = b.definition ∧ a.selections <+: b.selections))
    (hba : ¬ (a.definition = b.definition ∧ b.selections <+: a.selections)) :
    d'.get? b = d.get? b := by
  obtain ⟨old, root, changed, new, hold, hroot, hput, hnew, rfl⟩ := set?_eq_some_iff.mp h
  rw [get?_eq_at?, get?_eq_at?]
  by_cases hdefinition : a.definition = b.definition
  · rw [← hdefinition, root?_set hold hnew, root?, hold, Option.bind_some, Option.bind_some, hroot,
      Option.bind_some]
    refine Node.at?_put?_apart hput ?_ ?_
    · exact fun hprefix => hab ⟨hdefinition, hprefix⟩
    · exact fun hprefix => hba ⟨hdefinition, hprefix⟩
  · rw [root?, root?, List.getElem?_set_ne hdefinition]

/-- A change of the node at an address is a writing of the changed node. -/
theorem modify?_eq_set? {d : Document} {a : Address} {n : Node} (h : d.get? a = some n)
    (change : Node → Node) : d.modify? a change = d.set? a (change n) := by
  simp [modify?, h]

end Document
end EmbeddedGraphQL
