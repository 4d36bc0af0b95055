import EmbeddedGraphQL.Proofs.Walk.Growth

/-!
# The laws of addresses

Reading at an address and writing there go down the document on two ways of their own. Here it is
said that they end at the same node: a node can be written exactly where one of its kind is read,
and the node whose writing changes nothing is the one that is read. What a writing does to all the
rest of the document follows from where an address lies to the one that was written to.

* `Node.exists_put?_of_append`: a writing further down is a writing below every node on the way.
* `Document.set?_eq_self_iff`, `Document.exists_set?_iff`: writing and reading find the same node.
* `Document.exists_get?_above`: a node on the way keeps all but one entry of its selections.
* `Document.getElem?_definitions_set?`: the other definitions stay.
* `Document.set?_lawful`: the laws of reading and writing.
-/

namespace EmbeddedGraphQL

/-- A writing below a node is, seen from a node on the way, a writing below that one. -/
theorem Node.exists_put?_of_append {m n n' : Node} {p rest : List Nat}
    (h : put? m n (p ++ rest) = some n') :
    ∃ k k', n.at? p = some k ∧ put? m k rest = some k' ∧ n'.at? p = some k' := by
  induction p generalizing n n' with
  | nil => exact ⟨n, n', rfl, h, rfl⟩
  | cons index p ih =>
    rw [List.cons_append] at h
    obtain ⟨old, inner, changed, new, hold, hinner, hchanged, hnew, rfl⟩ := put?_cons_eq_some.mp h
    obtain ⟨k, k', hk, hput, hk'⟩ := ih hchanged
    have hlt : index < n.selections.length := (List.getElem?_eq_some_iff.mp hold).1
    refine ⟨k, k', ?_, hput, ?_⟩
    · rw [at?_cons, hold, Option.bind_some, hinner, Option.bind_some, hk]
    · rw [at?_cons, selections_withSelections, List.getElem?_set_self hlt, Option.bind_some,
        ofSelection?_of_replace? hnew, Option.bind_some, hk']

namespace Document

variable {d d' : Document} {a b : Address} {m n : Node}

/-- A writing in a document is, seen from an address on the way, a writing below the node there. -/
theorem exists_put?_of_set? {rest : List Nat}
    (h : d.set? ⟨b.definition, b.selections ++ rest⟩ m = some d') :
    ∃ k k', d.get? b = some k ∧ Node.put? m k rest = some k' ∧ d'.get? b = some k' := by
  obtain ⟨old, root, changed, new, hold, hroot, hput, hnew, rfl⟩ := set?_eq_some_iff.mp h
  obtain ⟨k, k', hk, hrest, hk'⟩ := Node.exists_put?_of_append hput
  refine ⟨k, k', ?_, hrest, ?_⟩
  · rw [get?_eq_at?, root?, hold, Option.bind_some, hroot, Option.bind_some, hk]
  · rw [get?_eq_at?, root?_set hold hnew, Option.bind_some, hk']

/-- The node whose writing changes nothing is the one that is read. -/
theorem set?_eq_self_iff : d.set? a m = some d ↔ d.get? a = some m :=
  ⟨get?_set?, set?_get?⟩

/-- A node can be written exactly where one of its kind is read. -/
theorem exists_set?_iff :
    (∃ d', d.set? a m = some d') ↔ ∃ n, d.get? a = some n ∧ n.sameKind m = true := by
  constructor
  · rintro ⟨d', h⟩
    -- The address is on the way to itself, with nothing left to go.
    have hself : d.set? ⟨a.definition, a.selections ++ []⟩ m = some d' := by
      rw [List.append_nil]
      exact h
    obtain ⟨k, k', hk, hput, -⟩ := exists_put?_of_set? hself
    exact ⟨k, hk, (Node.put?_nil_eq_some.mp hput).1⟩
  · rintro ⟨n, hn, hkind⟩
    exact exists_set? hn hkind

/-- Where a change keeps the kind of every node, it can be made exactly where one is read. -/
theorem exists_modify?_iff {change : Node → Node}
    (hchange : ∀ n : Node, n.sameKind (change n) = true) :
    (∃ d', d.modify? a change = some d') ↔ ∃ n, d.get? a = some n := by
  constructor
  · rintro ⟨d', h⟩
    obtain ⟨n, hn, -⟩ := Option.bind_eq_some_iff.mp h
    exact ⟨n, hn⟩
  · rintro ⟨n, hn⟩
    rw [modify?_eq_set? hn]
    exact exists_set? hn (hchange n)

/-- A node on the way to an address that is written to keeps all but the entry of its selections
that leads on. -/
theorem exists_get?_above {index : Nat} {rest : List Nat}
    (h : d.set? ⟨b.definition, b.selections ++ index :: rest⟩ m = some d') :
    ∃ k new, d.get? b = some k ∧ index < k.selections.length ∧
      d'.get? b = some (k.withSelections (k.selections.set index new)) := by
  obtain ⟨k, k', hk, hput, hk'⟩ := exists_put?_of_set? h
  obtain ⟨old, -, -, new, hold, -, -, -, rfl⟩ := Node.put?_cons_eq_some.mp hput
  exact ⟨k, new, hk, (List.getElem?_eq_some_iff.mp hold).1, hk'⟩

/-- A writing leaves all other definitions as they are, whatever they define. -/
theorem getElem?_definitions_set? (h : d.set? a m = some d') {j : Nat} (hj : j ≠ a.definition) :
    d'.definitions[j]? = d.definitions[j]? := by
  obtain ⟨-, -, -, new, -, -, -, -, rfl⟩ := set?_eq_some_iff.mp h
  exact List.getElem?_set_ne hj.symm

/-- Reading and writing at an address obey the laws of a lens. Something can be written exactly if
something is read, and then it is the nodes of the kind that is read; the node whose writing changes
nothing is the one that is read. After a writing, the new node is read at the address and its parts
below it. At an address that is neither above nor below, what was read before is read. A node above
is the old one with another entry in its selections at the one number that leads on. The other
definitions stay, and writing the old node back gives the old document. -/
theorem set?_lawful (d : Document) (a : Address) :
    ((∃ n, d.get? a = some n) ↔ ∃ m d', d.set? a m = some d') ∧
      (∀ m, (∃ d', d.set? a m = some d') ↔ ∃ n, d.get? a = some n ∧ n.sameKind m = true) ∧
      (∀ change, (∀ n : Node, n.sameKind (change n) = true) →
        ((∃ d', d.modify? a change = some d') ↔ ∃ n, d.get? a = some n)) ∧
      (∀ m, d.set? a m = some d ↔ d.get? a = some m) ∧
      ∀ m d', d.set? a m = some d' →
        d'.get? a = some m ∧
        (∀ rest, d'.get? ⟨a.definition, a.selections ++ rest⟩ = m.at? rest) ∧
        (∀ b, ¬ a.Under b → ¬ b.Under a → d'.get? b = d.get? b) ∧
        (∀ b index rest, a = ⟨b.definition, b.selections ++ index :: rest⟩ →
          ∃ k new, d.get? b = some k ∧ index < k.selections.length ∧
            d'.get? b = some (k.withSelections (k.selections.set index new))) ∧
        (∀ j, j ≠ a.definition → d'.definitions[j]? = d.definitions[j]?) ∧
        ∀ n, d.get? a = some n → d'.set? a n = some d := by
  refine ⟨?_, fun m => exists_set?_iff, fun change => exists_modify?_iff,
    fun m => set?_eq_self_iff, ?_⟩
  · -- What is read can be written back, and is of its own kind.
    simp only [exists_set?_iff]
    constructor
    · rintro ⟨n, hn⟩
      exact ⟨n, n, hn, n.sameKind_refl⟩
    · rintro ⟨-, n, hn, -⟩
      exact ⟨n, hn⟩
  · intro m d' h
    refine ⟨get?_set? h, get?_below (get?_set? h), ?_, ?_, ?_, ?_⟩
    · intro b hab hba
      exact get?_set?_apart h hab fun habove => hba ⟨habove.1.symm, habove.2⟩
    · rintro b index rest rfl
      exact exists_get?_above h
    · exact fun j hj => getElem?_definitions_set? h hj
    · intro n hn
      -- The last writing counts, and writing what is read changes nothing.
      calc d'.set? a n = d.set? a n := set?_set? h n
        _ = some d := set?_get? hn

/-- The document `scalar Date { a { b ... { c } ...F } d }`. -/
def scalarAndQuery : Document :=
  ⟨[.type none ⟨"Date", [], .scalar⟩ none,
    .operation ⟨.query, none, [], [],
      [.newField "a" [.newField "b" [], .inline ⟨none, [], none⟩ [.newField "c" []],
        .spread ⟨"F", [], none⟩], .newField "d" []], none⟩]⟩

/-- An inline fragment inside a field is replaced. Its neighbour stays, the field around it keeps
its other two entries, and the old inline fragment can be written back. -/
theorem set?_lawful_scalarAndQuery :
    ∃ d', scalarAndQuery.set? ⟨1, [0, 1]⟩ (.inline ⟨some "T", [], none⟩ []) = some d' ∧
      d'.get? ⟨1, [0, 1]⟩ = some (.inline ⟨some "T", [], none⟩ []) ∧
      d'.get? ⟨1, [0, 0]⟩ = scalarAndQuery.get? ⟨1, [0, 0]⟩ ∧
      (∃ k new, scalarAndQuery.get? ⟨1, [0]⟩ = some k ∧ 1 < k.selections.length ∧
        d'.get? ⟨1, [0]⟩ = some (k.withSelections (k.selections.set 1 new))) ∧
      d'.definitions[0]? = scalarAndQuery.definitions[0]? ∧
      d'.set? ⟨1, [0, 1]⟩ (.inline ⟨none, [], none⟩ [.newField "c" []]) = some scalarAndQuery := by
  obtain ⟨-, hkind, -, -, hlaws⟩ := set?_lawful scalarAndQuery ⟨1, [0, 1]⟩
  obtain ⟨d', hset⟩ := (hkind (.inline ⟨some "T", [], none⟩ [])).mpr ⟨_, rfl, rfl⟩
  obtain ⟨hget, -, hapart, habove, hothers, hback⟩ := hlaws _ d' hset
  refine ⟨d', hset, hget, hapart _ ?_ ?_, habove ⟨1, [0]⟩ 1 [] rfl, hothers 0 (by decide),
    hback _ rfl⟩
  · rintro ⟨-, habove⟩
    exact absurd habove (by decide)
  · rintro ⟨-, habove⟩
    exact absurd habove (by decide)

end Document
end EmbeddedGraphQL
