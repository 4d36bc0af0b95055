import EmbeddedGraphQL.Proofs.Address.Lens
import EmbeddedGraphQL.Proofs.Lists
import EmbeddedGraphQL.Walk
import Mathlib.Data.List.Induction

/-!
# Where the parts of a document stand

The operations, fragments, fields, inline fragments and spreads of a document, each with its
address and with the nodes around it. `Standing.In` says by two rules what stands in a document;
`Document.standings` lists all of it in the order in which it is written.

* `Standing.In`: a definition stands in a document, and so does what is in the selection set of
  something that does.
* `Document.mem_standings_iff`: the list holds exactly what stands in the document.
* `Document.standings_pairwise`: each comes once, those further out and further left first.
* `Standing.In.eq_of_address`: nothing else stands at the same address.
* `Document.get?_eq_some_iff`: the nodes that stand in a document are those that have an address.
-/

namespace EmbeddedGraphQL

/-- A part of a document that a walk enters: a node, or a spread, which owns no selections. -/
inductive Entry where
  /-- A node. -/
  | node (node : Node)
  /-- A spread. -/
  | spread (spread : FragmentSpread)

/-- What a selection is to a walk. -/
def Entry.ofSelection : Selection → Entry
  | .field f set => .node (.field f set)
  | .inline f set => .node (.inline f set)
  | .spread s => .spread s

/-- A part of a document, its address and the nodes around it. -/
structure Standing where
  /-- The address. -/
  address : Address
  /-- The nodes around it, from the inside out. -/
  ancestors : List Node
  /-- The part itself. -/
  entry : Entry

/-- Where in the source something that stands in a document stands. -/
def Standing.span (s : Standing) : Option Span :=
  match s.entry with
  | .node n => n.span
  | .spread spread => spread.span

/-- What stands in a document. -/
inductive Standing.In (d : Document) : Standing → Prop where
  /-- Operations and fragments stand in it, with nothing around them. -/
  | definition {index : Nat} {node : Node} (h : d.root? index = some node) :
      In d ⟨.ofDefinition index, [], .node node⟩
  /-- The selections of a node that stands in it stand in it, with the node around them. -/
  | selection {address : Address} {ancestors : List Node} {node : Node} {index : Nat}
      {s : Selection} (hnode : In d ⟨address, ancestors, .node node⟩)
      (hs : node.selections[index]? = some s) :
      In d ⟨address.child index, node :: ancestors, .ofSelection s⟩

/-! ## The list of what stands in a document -/

mutual

/-- A selection at an address and everything inside it. -/
def Selection.standings (address : Address) (ancestors : List Node) : Selection → List Standing
  | .field f set =>
    ⟨address, ancestors, .node (.field f set)⟩ ::
      Selection.setStandings address (.field f set :: ancestors) 0 set
  | .inline f set =>
    ⟨address, ancestors, .node (.inline f set)⟩ ::
      Selection.setStandings address (.inline f set :: ancestors) 0 set
  | .spread s => [⟨address, ancestors, .spread s⟩]

/-- The selections of the node at an address from a number on, and everything inside them. -/
def Selection.setStandings (owner : Address) (ancestors : List Node) (index : Nat) :
    List Selection → List Standing
  | [] => []
  | s :: rest =>
    s.standings (owner.child index) ancestors ++
      Selection.setStandings owner ancestors (index + 1) rest

end

/-- A definition that is a node, and everything inside it. -/
def Node.standings (index : Nat) (n : Node) : List Standing :=
  ⟨.ofDefinition index, [], .node n⟩ ::
    Selection.setStandings (.ofDefinition index) [n] 0 n.selections

/-- Everything that stands in the definition of a number. -/
def Definition.standings (index : Nat) (d : Definition) : List Standing :=
  ((Node.ofDefinition? d).map (·.standings index)).getD []

/-- Everything that stands in a document. -/
def Document.standings (d : Document) : List Standing :=
  d.definitions.zipIdx.flatMap fun (definition, index) => definition.standings index

namespace Selection

/-- The first of the standings of a selection is the selection itself. -/
theorem standings_eq_cons (address : Address) (ancestors : List Node) (s : Selection) :
    s.standings address ancestors = ⟨address, ancestors, .ofSelection s⟩ ::
      match Node.ofSelection? s with
      | some n => setStandings address (n :: ancestors) 0 n.selections
      | none => [] := by
  cases s <;> rfl

/-- The standings in a set are those of its selections. -/
theorem mem_setStandings {owner : Address} {ancestors : List Node} {index : Nat}
    {set : List Selection} {t : Standing} :
    t ∈ setStandings owner ancestors index set ↔
      ∃ (i : Nat) (s : Selection), set[i]? = some s ∧
        t ∈ s.standings (owner.child (index + i)) ancestors := by
  induction set generalizing index with
  | nil => simp [setStandings]
  | cons s rest ih =>
    rw [setStandings, List.mem_append, ih]
    constructor
    · rintro (h | ⟨i, s', hs', h⟩)
      · exact ⟨0, s, rfl, h⟩
      · refine ⟨i + 1, s', by simpa using hs', ?_⟩
        rwa [Nat.add_assoc, Nat.add_comm 1 i] at h
    · rintro ⟨i, s', hs', h⟩
      cases i with
      | zero =>
        simp only [List.getElem?_cons_zero, Option.some.injEq] at hs'
        exact Or.inl (hs' ▸ h)
      | succ i =>
        refine Or.inr ⟨i, s', by simpa using hs', ?_⟩
        rwa [Nat.add_assoc, Nat.add_comm 1 i]

end Selection

/-! ## The list holds what stands in the document -/

section Membership

variable {d : Document}

mutual

/-- Everything inside a selection that stands in a document stands in it. -/
theorem Selection.in_of_mem_standings {address : Address} {ancestors : List Node}
    (s : Selection) (h : Standing.In d ⟨address, ancestors, .ofSelection s⟩) {t : Standing}
    (ht : t ∈ s.standings address ancestors) : t.In d := by
  cases s with
  | field f set =>
    rw [Selection.standings, List.mem_cons] at ht
    rcases ht with rfl | ht
    · exact h
    · refine Selection.in_of_mem_setStandings set (fun i s hs => ?_) ht
      rw [Nat.zero_add]
      exact .selection h hs
  | inline f set =>
    rw [Selection.standings, List.mem_cons] at ht
    rcases ht with rfl | ht
    · exact h
    · refine Selection.in_of_mem_setStandings set (fun i s hs => ?_) ht
      rw [Nat.zero_add]
      exact .selection h hs
  | spread s =>
    rw [Selection.standings, List.mem_singleton] at ht
    exact ht ▸ h

/-- Everything inside a selection set that stands in a document stands in it. -/
theorem Selection.in_of_mem_setStandings {owner : Address} {ancestors : List Node} {index : Nat}
    (set : List Selection)
    (h : ∀ i s, set[i]? = some s →
      Standing.In d ⟨owner.child (index + i), ancestors, .ofSelection s⟩)
    {t : Standing} (ht : t ∈ Selection.setStandings owner ancestors index set) : t.In d := by
  cases set with
  | nil => simp [Selection.setStandings] at ht
  | cons s rest =>
    rw [Selection.setStandings, List.mem_append] at ht
    rcases ht with ht | ht
    · exact Selection.in_of_mem_standings s (h 0 s rfl) ht
    · refine Selection.in_of_mem_setStandings rest (fun i s' hs' => ?_) ht
      have hnext := h (i + 1) s' (by simpa using hs')
      rwa [Nat.add_comm i 1, ← Nat.add_assoc] at hnext

end

mutual

/-- The standings of a selection are closed under going down. -/
theorem Selection.child_mem_standings {address : Address} {ancestors : List Node} (s : Selection)
    {b : Address} {line : List Node} {n : Node} {index : Nat} {c : Selection}
    (hn : ⟨b, line, .node n⟩ ∈ s.standings address ancestors)
    (hc : n.selections[index]? = some c) :
    ⟨b.child index, n :: line, .ofSelection c⟩ ∈ s.standings address ancestors := by
  -- The node is the selection itself, with its child in the set, or it is further down.
  cases s with
  | field f set =>
    rw [Selection.standings, List.mem_cons] at hn ⊢
    rcases hn with hn | hn
    · cases hn
      refine Or.inr (Selection.mem_setStandings.mpr ⟨index, c, hc, ?_⟩)
      rw [Nat.zero_add, Selection.standings_eq_cons]
      exact List.mem_cons_self
    · exact Or.inr (Selection.child_mem_setStandings set hn hc)
  | inline f set =>
    rw [Selection.standings, List.mem_cons] at hn ⊢
    rcases hn with hn | hn
    · cases hn
      refine Or.inr (Selection.mem_setStandings.mpr ⟨index, c, hc, ?_⟩)
      rw [Nat.zero_add, Selection.standings_eq_cons]
      exact List.mem_cons_self
    · exact Or.inr (Selection.child_mem_setStandings set hn hc)
  | spread s => simp [Selection.standings] at hn

/-- The standings in a selection set are closed under going down. -/
theorem Selection.child_mem_setStandings {owner : Address} {ancestors : List Node} {first : Nat}
    (set : List Selection) {b : Address} {line : List Node} {n : Node} {index : Nat}
    {c : Selection} (hn : ⟨b, line, .node n⟩ ∈ Selection.setStandings owner ancestors first set)
    (hc : n.selections[index]? = some c) :
    ⟨b.child index, n :: line, .ofSelection c⟩ ∈
      Selection.setStandings owner ancestors first set := by
  cases set with
  | nil => simp [Selection.setStandings] at hn
  | cons s rest =>
    rw [Selection.setStandings, List.mem_append] at hn ⊢
    rcases hn with hn | hn
    · exact Or.inl (Selection.child_mem_standings s hn hc)
    · exact Or.inr (Selection.child_mem_setStandings rest hn hc)

end

/-- The standings of a definition are closed under going down. -/
theorem Node.child_mem_standings {root : Node} {number : Nat} {b : Address} {line : List Node}
    {n : Node} {index : Nat} {c : Selection} (hn : ⟨b, line, .node n⟩ ∈ root.standings number)
    (hc : n.selections[index]? = some c) :
    ⟨b.child index, n :: line, .ofSelection c⟩ ∈ root.standings number := by
  rw [Node.standings, List.mem_cons] at hn ⊢
  rcases hn with hn | hn
  · cases hn
    refine Or.inr (Selection.mem_setStandings.mpr ⟨index, c, hc, ?_⟩)
    rw [Nat.zero_add, Selection.standings_eq_cons]
    exact List.mem_cons_self
  · exact Or.inr (Selection.child_mem_setStandings _ hn hc)

namespace Document

/-- The standings of a document are those of its definitions. -/
theorem mem_standings {t : Standing} :
    t ∈ d.standings ↔ ∃ index root, d.root? index = some root ∧ t ∈ root.standings index := by
  rw [standings, List.mem_flatMap]
  constructor
  · rintro ⟨⟨definition, index⟩, hmem, ht⟩
    rw [List.mk_mem_zipIdx_iff_getElem?] at hmem
    cases hroot : Node.ofDefinition? definition with
    | none => simp [Definition.standings, hroot] at ht
    | some root =>
      refine ⟨index, root, ?_, by simpa [Definition.standings, hroot] using ht⟩
      rw [root?, hmem, Option.bind_some, hroot]
  · rintro ⟨index, root, hroot, ht⟩
    obtain ⟨definition, hdefinition, hnode⟩ := Option.bind_eq_some_iff.mp hroot
    refine ⟨(definition, index), List.mk_mem_zipIdx_iff_getElem?.mpr hdefinition, ?_⟩
    simpa [Definition.standings, hnode] using ht

/-- The list of a document's standings holds exactly what stands in it. -/
theorem mem_standings_iff {t : Standing} : t ∈ d.standings ↔ t.In d := by
  constructor
  · intro ht
    obtain ⟨index, root, hroot, ht⟩ := mem_standings.mp ht
    have hin : Standing.In d ⟨.ofDefinition index, [], .node root⟩ := .definition hroot
    rw [Node.standings, List.mem_cons] at ht
    rcases ht with rfl | ht
    · exact hin
    · refine Selection.in_of_mem_setStandings _ (fun i s hs => ?_) ht
      rw [Nat.zero_add]
      exact .selection hin hs
  · intro ht
    induction ht with
    | definition h =>
      exact mem_standings.mpr ⟨_, _, h, List.mem_cons_self⟩
    | selection hnode hs ih =>
      obtain ⟨index, root, hroot, ht⟩ := mem_standings.mp ih
      exact mem_standings.mpr ⟨index, root, hroot, Node.child_mem_standings ht hs⟩

end Document
end Membership

/-! ## Order -/

/-- Whether an address comes before another one: it leads to something further out on the same
way, or it branches off to the left. -/
def Address.Before (a b : Address) : Prop :=
  a.definition :: a.selections < b.definition :: b.selections

namespace Address

/-- An address comes before those below it. -/
theorem before_of_below (a : Address) (index : Nat) (rest : List Nat) :
    a.Before ⟨a.definition, a.selections ++ index :: rest⟩ := by
  have h : ([] : List Nat) < index :: rest := List.nil_lt_cons index rest
  have hlt : a.definition :: a.selections ++ [] < a.definition :: a.selections ++ index :: rest :=
    List.append_left_lt h
  simpa [Before] using hlt

/-- Of two addresses below the same one, the one further to the left comes first. -/
theorem before_of_branch (a : Address) {i j : Nat} (h : i < j) (p q : List Nat) :
    Before ⟨a.definition, a.selections ++ i :: p⟩ ⟨a.definition, a.selections ++ j :: q⟩ := by
  have hbranch : i :: p < j :: q := List.cons_lt_cons_iff.mpr (Or.inl h)
  have hlt : a.definition :: a.selections ++ i :: p < a.definition :: a.selections ++ j :: q :=
    List.append_left_lt hbranch
  simpa [Before] using hlt

/-- Addresses in earlier definitions come first. -/
theorem before_of_definition {a b : Address} (h : a.definition < b.definition) : a.Before b :=
  List.cons_lt_cons_iff.mpr (Or.inl h)

/-- No address comes before itself. -/
theorem not_before_self (a : Address) : ¬ a.Before a := List.lt_irrefl _

end Address

/-- Whether an address is that of a selection with at least the given number in the set of the
node at `owner`, or of something inside it. -/
def Address.InSet (owner : Address) (first : Nat) (a : Address) : Prop :=
  ∃ index rest, first ≤ index ∧ a = ⟨owner.definition, owner.selections ++ index :: rest⟩

/-- What is inside the set of a node comes after the node. -/
theorem Address.InSet.before {owner a : Address} {first : Nat} (h : owner.InSet first a) :
    owner.Before a := by
  obtain ⟨index, rest, -, rfl⟩ := h
  exact owner.before_of_below index rest

/-- What is a selection of a set or inside it has the number of the selection behind the address of
the owner. -/
theorem Address.exists_eq_of_child {owner a : Address} {index : Nat}
    (h : a = owner.child index ∨ (owner.child index).InSet 0 a) :
    ∃ p, a = ⟨owner.definition, owner.selections ++ index :: p⟩ := by
  rcases h with rfl | ⟨next, p, -, rfl⟩
  · exact ⟨[], rfl⟩
  · exact ⟨next :: p, by simp [child]⟩

namespace Selection

mutual

/-- What is inside a selection comes in order, and below the address of the selection. -/
theorem standings_ordered (address : Address) (ancestors : List Node) (s : Selection) :
    (s.standings address ancestors).Pairwise (fun t u => t.address.Before u.address) ∧
      ∀ t ∈ s.standings address ancestors, t.address = address ∨ address.InSet 0 t.address := by
  -- The node itself comes first, and all else in it is below.
  cases s with
  | field f set =>
    obtain ⟨hordered, hbelow⟩ :=
      setStandings_ordered address (.field f set :: ancestors) 0 set
    rw [standings]
    refine ⟨List.pairwise_cons.mpr ⟨fun t ht => (hbelow t ht).before, hordered⟩, ?_⟩
    intro t ht
    rcases List.mem_cons.mp ht with rfl | ht
    · exact Or.inl rfl
    · exact Or.inr (hbelow t ht)
  | inline f set =>
    obtain ⟨hordered, hbelow⟩ :=
      setStandings_ordered address (.inline f set :: ancestors) 0 set
    rw [standings]
    refine ⟨List.pairwise_cons.mpr ⟨fun t ht => (hbelow t ht).before, hordered⟩, ?_⟩
    intro t ht
    rcases List.mem_cons.mp ht with rfl | ht
    · exact Or.inl rfl
    · exact Or.inr (hbelow t ht)
  | spread s => simp [standings]

/-- What is inside a selection set comes in order, and below the address of its owner. -/
theorem setStandings_ordered (owner : Address) (ancestors : List Node) (first : Nat)
    (set : List Selection) :
    (setStandings owner ancestors first set).Pairwise
        (fun t u => t.address.Before u.address) ∧
      ∀ t ∈ setStandings owner ancestors first set, owner.InSet first t.address := by
  cases set with
  | nil => simp [setStandings]
  | cons s rest =>
    obtain ⟨hs, hsbelow⟩ := standings_ordered (owner.child first) ancestors s
    obtain ⟨hrest, hrestbelow⟩ := setStandings_ordered owner ancestors (first + 1) rest
    rw [setStandings]
    refine ⟨List.pairwise_append.mpr ⟨hs, hrest, ?_⟩, ?_⟩
    · -- What stands in one entry comes before what stands in a later one: the addresses part at
      -- their numbers.
      intro t ht u hu
      obtain ⟨p, hp⟩ := Address.exists_eq_of_child (hsbelow t ht)
      obtain ⟨index, q, hindex, hq⟩ := hrestbelow u hu
      rw [hp, hq]
      exact owner.before_of_branch (by omega) p q
    · intro t ht
      rcases List.mem_append.mp ht with ht | ht
      · obtain ⟨p, hp⟩ := Address.exists_eq_of_child (hsbelow t ht)
        exact ⟨first, p, Nat.le_refl _, hp⟩
      · obtain ⟨index, q, hindex, hq⟩ := hrestbelow t ht
        exact ⟨index, q, by omega, hq⟩

end

end Selection

/-- What is inside a definition comes in order, and within the definition. -/
theorem Node.standings_ordered (index : Nat) (n : Node) :
    (n.standings index).Pairwise (fun t u => t.address.Before u.address) ∧
      ∀ t ∈ n.standings index, t.address.definition = index := by
  obtain ⟨hordered, hbelow⟩ :=
    Selection.setStandings_ordered (.ofDefinition index) [n] 0 n.selections
  refine ⟨List.pairwise_cons.mpr ⟨fun t ht => (hbelow t ht).before, hordered⟩, ?_⟩
  intro t ht
  rcases List.mem_cons.mp ht with rfl | ht
  · rfl
  · obtain ⟨i, rest, -, h⟩ := hbelow t ht
    rw [h]
    rfl

/-- What is inside a definition lies within it. -/
theorem Definition.standings_ordered (index : Nat) (d : Definition) :
    (d.standings index).Pairwise (fun t u => t.address.Before u.address) ∧
      ∀ t ∈ d.standings index, t.address.definition = index := by
  unfold Definition.standings
  cases Node.ofDefinition? d with
  | none => simp
  | some n => exact n.standings_ordered index

namespace Document

/-- What stands in a document is listed in the order of addresses, so that nothing is listed
twice. -/
theorem standings_pairwise (d : Document) :
    d.standings.Pairwise fun t u => t.address.Before u.address := by
  rw [standings, List.pairwise_flatMap]
  constructor
  · rintro ⟨definition, index⟩ -
    exact (definition.standings_ordered index).1
  · -- The definitions are numbered in order, and a number decides before any selection does.
    refine (zipIdx_pairwise d.definitions).imp ?_
    rintro ⟨p, i⟩ ⟨q, j⟩ hij t ht u hu
    have hti := (p.standings_ordered i).2 t ht
    have huj := (q.standings_ordered j).2 u hu
    exact Address.before_of_definition (by simpa [hti, huj] using hij)

end Document

/-- What stands at the same address is the same. -/
theorem Standing.In.eq_of_address {d : Document} {s t : Standing} (hs : s.In d) (ht : t.In d)
    (h : s.address = t.address) : s = t := by
  rcases eq_or_of_pairwise d.standings_pairwise (Document.mem_standings_iff.mpr hs)
    (Document.mem_standings_iff.mpr ht) with heq | hlt | hlt
  · exact heq
  · rw [h] at hlt
    exact absurd hlt t.address.not_before_self
  · rw [h] at hlt
    exact absurd hlt t.address.not_before_self

namespace Document

/-- The node at an address stands in the document, and so does every node that stands in it have
its address. -/
theorem get?_eq_some_iff {d : Document} {a : Address} {n : Node} :
    d.get? a = some n ↔ ∃ ancestors, Standing.In d ⟨a, ancestors, .node n⟩ := by
  constructor
  · -- An address is walked from its end: the node stands in the set of the one before.
    obtain ⟨definition, selections⟩ := a
    induction selections using List.reverseRecOn generalizing n with
    | nil =>
      intro h
      rw [get?_eq_at?] at h
      exact ⟨[], .definition (by simpa using h)⟩
    | append_singleton selections index ih =>
      intro h
      have hchild := get?_child d ⟨definition, selections⟩ index
      rw [Address.child, h] at hchild
      obtain ⟨parent, hparent, hnode⟩ := Option.bind_eq_some_iff.mp hchild.symm
      obtain ⟨s, hs, hsn⟩ := Option.bind_eq_some_iff.mp hnode
      obtain ⟨ancestors, hin⟩ := ih hparent
      have hentry : Entry.ofSelection s = .node n := by
        cases s <;> simp_all [Node.ofSelection?, Entry.ofSelection]
      exact ⟨parent :: ancestors, hentry ▸ .selection hin hs⟩
  · rintro ⟨ancestors, h⟩
    generalize ht : (⟨a, ancestors, .node n⟩ : Standing) = t at h
    induction h generalizing a ancestors n with
    | definition h =>
      cases ht
      simpa [get?_eq_at?, Address.ofDefinition] using h
    | @selection address line node index s hnode hs ih =>
      obtain ⟨rfl, rfl, hentry⟩ := (Standing.mk.injEq ..).mp ht
      rw [get?_child, ih _ rfl, Option.bind_some, hs, Option.bind_some]
      cases s <;> simp_all [Node.ofSelection?, Entry.ofSelection]

end Document
end EmbeddedGraphQL
