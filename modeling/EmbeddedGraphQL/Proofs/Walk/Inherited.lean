import EmbeddedGraphQL.Proofs.Walk.Standing

/-!
# Properties handed down

What a document is asked for is often asked of every node of it, and what is asked of a node
depends on the nodes around it only through a context: the type its set selects on, or how much
deeper it may be nested. Each node hands a context on to what is inside it. A document that has such
a property and in which a node is exchanged has it again exactly if the new node has it in the
context of the old one.

* `Document.set?_child`: writing at a selection is writing at the node that holds it.
* `Node.HandedDown`: properties that are passed on from a node to those inside it.
* `Standing.In.handedDown`: every node of a document has the property in its context.
* `Document.handedDown_set?_iff`: when the document still has it after a writing.
-/

namespace EmbeddedGraphQL

/-! ## Writing one step further down -/

/-- Writing at a selection of a node below another one is writing the node with that selection
exchanged. -/
theorem Node.put?_concat {m k n n' : Node} {p : List Nat} {index : Nat} (hat : n.at? p = some k)
    (h : put? m n (p ++ [index]) = some n') :
    ∃ s new, k.selections[index]? = some s ∧ s.replace? m = some new ∧
      put? (k.withSelections (k.selections.set index new)) n p = some n' := by
  induction p generalizing n n' with
  | nil =>
    rw [at?_nil, Option.some.injEq] at hat
    subst hat
    obtain ⟨s, inner, changed, new, hs, -, hput, hnew, rfl⟩ := put?_cons_eq_some.mp h
    obtain ⟨-, rfl⟩ := put?_nil_eq_some.mp hput
    exact ⟨s, new, hs, hnew, put?_nil_eq_some.mpr ⟨sameKind_withSelections n _, rfl⟩⟩
  | cons first p ih =>
    obtain ⟨old, inner, changed, new, hold, hinner, hput, hnew, rfl⟩ := put?_cons_eq_some.mp h
    rw [at?_cons, hold, Option.bind_some, hinner, Option.bind_some] at hat
    obtain ⟨s, t, hs, ht, hbelow⟩ := ih hat hput
    exact ⟨s, t, hs, ht,
      put?_cons_eq_some.mpr ⟨old, inner, changed, new, hold, hinner, hbelow, hnew, rfl⟩⟩

/-- Writing at the address of a selection is writing the node that holds it, with that selection
exchanged. -/
theorem Document.set?_child {d d' : Document} {a : Address} {index : Nat} {m n : Node}
    (hn : d.get? a = some n) (h : d.set? (a.child index) m = some d') :
    ∃ s new, n.selections[index]? = some s ∧ s.replace? m = some new ∧
      d.set? a (n.withSelections (n.selections.set index new)) = some d' := by
  obtain ⟨old, root, changed, last, hold, hroot, hput, hlast, rfl⟩ := set?_eq_some_iff.mp h
  have hat : root.at? a.selections = some n := by
    rwa [get?_eq_at?, root?, show d.definitions[a.definition]? = some old from hold,
      Option.bind_some, hroot, Option.bind_some] at hn
  obtain ⟨s, new, hs, hnew, hput⟩ := Node.put?_concat hat hput
  exact ⟨s, new, hs, hnew,
    set?_eq_some_iff.mpr ⟨old, root, changed, last, hold, hroot, hput, hlast, rfl⟩⟩

/-- The node at the address of a definition is the definition. -/
theorem Document.get?_ofDefinition (d : Document) (index : Nat) :
    d.get? (.ofDefinition index) = d.root? index := by
  rw [get?_eq_at?]
  exact Option.bind_fun_some _

/-- The definitions after one of them is exchanged. -/
theorem Document.root?_set? {d d' : Document} {index : Nat} {m : Node}
    (h : d.set? (.ofDefinition index) m = some d') (i : Nat) :
    d'.root? i = if index = i then some m else d.root? i := by
  obtain ⟨old, root, changed, new, hold, hroot, hput, hnew, rfl⟩ := set?_eq_some_iff.mp h
  obtain ⟨-, rfl⟩ := Node.put?_nil_eq_some.mp hput
  split
  · rename_i hi
    exact hi ▸ root?_set hold hnew
  · rename_i hi
    change root? ⟨d.definitions.set index new⟩ i = d.root? i
    rw [root?, List.getElem?_set_ne hi, root?]

/-! ## The principle -/

section HandedDown

variable {γ : Type} {inside : γ → Node → γ} {P : γ → Node → Prop}

/-- Whether a property of nodes in a context is passed on to the nodes in their sets, which stand in
the context that `inside` gives, and depends on each of these only through the property itself. -/
structure Node.HandedDown (inside : γ → Node → γ) (P : γ → Node → Prop) : Prop where
  down : ∀ {c n s m}, P c n → s ∈ n.selections → ofSelection? s = some m → P (inside c n) m
  exchange : ∀ {c n index new m}, P c n → index < n.selections.length →
    ofSelection? new = some m →
    (P c (n.withSelections (n.selections.set index new)) ↔ P (inside c n) m)

/-- The context inside some nodes, given from the inside out. -/
def Node.contextIn (inside : γ → Node → γ) (start : γ) (line : List Node) : γ :=
  line.foldr (fun n c => inside c n) start

/-- Whether the operations and fragments of a document have a property. -/
def Document.RootsHave (d : Document) (Q : Node → Prop) : Prop :=
  ∀ index n, d.root? index = some n → Q n

/-- A node that is entered as a selection is that selection. -/
theorem Entry.ofSelection_eq_node {s : Selection} {n : Node} (h : Entry.ofSelection s = .node n) :
    Node.ofSelection? s = some n := by
  cases s <;> simp_all [Entry.ofSelection, Node.ofSelection?]

variable {start : γ} {d d' : Document} {a : Address} {line : List Node} {n m : Node}

/-- What is asked of the definitions is handed down to every node that stands in the document. -/
theorem Standing.In.handedDown (h : Node.HandedDown inside P) (hd : d.RootsHave (P start))
    (hin : Standing.In d ⟨a, line, .node n⟩) : P (Node.contextIn inside start line) n := by
  generalize ht : (⟨a, line, .node n⟩ : Standing) = t at hin
  induction hin generalizing a line n with
  | definition hroot =>
    cases ht
    exact hd _ _ hroot
  | selection hnode hs ih =>
    obtain ⟨rfl, rfl, hentry⟩ := (Standing.mk.injEq ..).mp ht
    exact h.down (ih rfl) (List.mem_of_getElem? hs) (Entry.ofSelection_eq_node hentry.symm)

/-- A definition that is exchanged decides alone whether the definitions still have a property. -/
theorem Document.rootsHave_set?_iff {Q : Node → Prop} {index : Nat} (hd : d.RootsHave Q)
    (hset : d.set? (.ofDefinition index) m = some d') : d'.RootsHave Q ↔ Q m := by
  constructor
  · exact fun h => h index m (by rw [root?_set? hset, if_pos rfl])
  · intro hm i k hk
    rw [root?_set? hset] at hk
    split at hk
    · exact Option.some.inj hk ▸ hm
    · exact hd i k hk

/-- After a writing the property is still there exactly if the node that is written has it where the
old one stood. -/
theorem Document.handedDown_set?_iff (h : Node.HandedDown inside P) (hd : d.RootsHave (P start))
    (hin : Standing.In d ⟨a, line, .node n⟩) (hset : d.set? a m = some d') :
    d'.RootsHave (P start) ↔ P (Node.contextIn inside start line) m := by
  generalize ht : (⟨a, line, .node n⟩ : Standing) = t at hin
  induction hin generalizing a line n m with
  | definition hroot =>
    cases ht
    exact rootsHave_set?_iff hd hset
  | @selection address ancestors parent index s hparent hs ih =>
    obtain ⟨rfl, rfl, -⟩ := (Standing.mk.injEq ..).mp ht
    -- The write is one of the parent, and the parent hands the question on.
    obtain ⟨s, new, hs, hnew, hset⟩ :=
      set?_child (get?_eq_some_iff.mpr ⟨ancestors, hparent⟩) hset
    rw [ih hset rfl]
    exact h.exchange (hparent.handedDown h hd) (List.getElem?_eq_some_iff.mp hs).1
      (Node.ofSelection?_of_replace? hnew)

end HandedDown
end EmbeddedGraphQL
