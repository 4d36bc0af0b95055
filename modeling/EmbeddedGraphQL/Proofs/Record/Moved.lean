import EmbeddedGraphQL.Proofs.Record.Stable
import Mathlib.Data.List.Sort

/-!
# Records at other addresses

Two documents may have the same nodes at different addresses, one by one and in the same order. All
that record paths and the choice among records depend on is then carried over from one document to
the other, so that a path leads to the same node in both.

* `Node.mark`: what a node is to record paths.
* `Document.Moves`: nodes of the same marks, at addresses that correspond.
* `Document.Moves.exists_standing`: the nodes around a node keep their marks.
* `Document.Moves.map_candidates`: the records of the two documents, side by side.
* `Document.Moves.locate?_eq`: locating a record in the one document and in the other.
-/

namespace EmbeddedGraphQL

/-! ## Marks -/

/-- What a node is to record paths: the segment it adds to them, if it does, and whether it is a
record. -/
def Node.mark (n : Node) : Option String × Bool := (n.outline.segment?, n.outline.isRecord)

/-- Nodes of one outline have one mark. -/
theorem Node.mark_of_outline {m n : Node} (h : m.outline = n.outline) : m.mark = n.mark := by
  rw [mark, mark, h]

/-- Nodes of one head have one mark. -/
theorem Node.mark_of_head {m n : Node} (h : m.head = n.head) : m.mark = n.mark :=
  mark_of_outline (outline_of_head h)

/-- The record path through some nodes, by their marks. -/
theorem RecordPath.ofLine_eq_marks (line : List Node) :
    ofLine line = ⟨((line.map Node.mark).filterMap Prod.fst).reverse⟩ := by
  rw [ofLine_eq_outlines, List.filterMap_map, List.filterMap_map]
  rfl

/-! ## Moved nodes -/

/-- Whether a document has the nodes of another one at moved addresses: each node stands where its
address is moved to, with the same mark, and no other node stands anywhere. Definitions stay where
they are, selections of a node are moved to selections of the moved node, and the order is kept. -/
structure Document.Moves (move : Address → Address) (d d' : Document) : Prop where
  definition : ∀ index, move (.ofDefinition index) = .ofDefinition index
  child : ∀ a index, ∃ other, move (a.child index) = (move a).child other
  before : ∀ {a b : Address}, a.Before b → (move a).Before (move b)
  node : ∀ a n, d.get? a = some n → ∃ n', d'.get? (move a) = some n' ∧ n'.mark = n.mark
  back : ∀ b n', d'.get? b = some n' → ∃ a n, move a = b ∧ d.get? a = some n

/-- Lists in the order of addresses that have the same entries are the same. -/
theorem eq_of_mem_iff_of_before {γ : Type} {l l' : List (Address × γ)}
    (h : l.Pairwise fun x y => x.1.Before y.1) (h' : l'.Pairwise fun x y => x.1.Before y.1)
    (hmem : ∀ x, x ∈ l ↔ x ∈ l') : l = l' := by
  have hirrefl : Std.Irrefl fun x y : Address × γ => x.1.Before y.1 :=
    ⟨fun x => x.1.not_before_self⟩
  have hantisymm : Std.Antisymm fun x y : Address × γ => x.1.Before y.1 :=
    ⟨fun x y hxy hyx => absurd hyx (List.lt_asymm hxy)⟩
  exact h.eq_of_mem_iff h' hmem

namespace Document.Moves

variable {move : Address → Address} {d d' : Document} {a : Address} {n : Node} {s t : Standing}

/-- A node that stands in a document stands in the other one at the moved address, among nodes of
the same marks. -/
theorem exists_standing (h : d.Moves move d') {line : List Node}
    (hin : Standing.In d ⟨a, line, .node n⟩) :
    ∃ line' n', Standing.In d' ⟨move a, line', .node n'⟩ ∧
      (n' :: line').map Node.mark = (n :: line).map Node.mark := by
  obtain ⟨n', hn', hmark⟩ := h.node a n (get?_eq_some_iff.mpr ⟨line, hin⟩)
  generalize ht : (⟨a, line, .node n⟩ : Standing) = t at hin
  -- From the outside in: the nodes around the node are carried over before it is.
  induction hin generalizing a line n n' with
  | @definition index root hroot =>
    cases ht
    rw [h.definition, get?_ofDefinition] at hn'
    refine ⟨[], n', ?_, by simp [hmark]⟩
    rw [h.definition]
    exact .definition hn'
  | @selection address ancestors parent index s hparent hs ih =>
    obtain ⟨rfl, rfl, hentry⟩ := (Standing.mk.injEq ..).mp ht
    obtain ⟨found, hfound, hfoundMark⟩ :=
      h.node address parent (get?_eq_some_iff.mpr ⟨ancestors, hparent⟩)
    obtain ⟨line', parent', hin, hline⟩ := ih found hfound hfoundMark rfl
    obtain ⟨other, hother⟩ := h.child address index
    -- The moved node is a selection of the moved parent.
    rw [hother, get?_child, get?_eq_some_iff.mpr ⟨line', hin⟩, Option.bind_some] at hn'
    obtain ⟨s', hs', hnode⟩ := Option.bind_eq_some_iff.mp hn'
    have hin' := Standing.In.selection hin hs'
    rw [Entry.ofSelection_of_node hnode, ← hother] at hin'
    refine ⟨parent' :: line', n', hin', ?_⟩
    rw [List.map_cons, hmark, hline, ← List.map_cons]

/-- What nodes of the same marks on the way to them have in common. -/
theorem isRecord_and_path_eq {line line' : List Node} {n' : Node} {b : Address}
    (hmarks : (n' :: line').map Node.mark = (n :: line).map Node.mark) :
    Standing.isRecord ⟨b, line', .node n'⟩ = Standing.isRecord ⟨a, line, .node n⟩ ∧
      Standing.path ⟨b, line', .node n'⟩ = Standing.path ⟨a, line, .node n⟩ := by
  constructor
  · have hmark : n'.mark = n.mark := (List.cons.inj hmarks).1
    rw [Standing.isRecord_of_node rfl, Standing.isRecord_of_node rfl]
    exact congrArg Prod.snd hmark
  · change RecordPath.ofLine (n' :: line') = RecordPath.ofLine (n :: line)
    rw [RecordPath.ofLine_eq_marks, RecordPath.ofLine_eq_marks, hmarks]

/-- A record is one of the other document, at the moved address and with the same path. -/
theorem exists_candidate (h : d.Moves move d') (hs : s ∈ d.candidates) :
    ∃ t ∈ d'.candidates, t.address = move s.address ∧ t.path = s.path := by
  obtain ⟨hin, hrecord⟩ := mem_candidates_iff.mp hs
  obtain ⟨n, hentry, -⟩ := exists_node_of_mem_candidates hs
  obtain ⟨address, line, entry⟩ := s
  subst hentry
  obtain ⟨line', n', hin', hmarks⟩ := h.exists_standing hin
  obtain ⟨hsame, hpath⟩ := isRecord_and_path_eq (a := address) (b := move address) hmarks
  exact ⟨_, mem_candidates_iff.mpr ⟨hin', hsame.trans hrecord⟩, rfl, hpath⟩

/-- Every record of the other document is there because of one of the document. -/
theorem exists_candidate_back (h : d.Moves move d') (ht : t ∈ d'.candidates) :
    ∃ s ∈ d.candidates, t.address = move s.address ∧ t.path = s.path := by
  obtain ⟨hin, hrecord⟩ := mem_candidates_iff.mp ht
  obtain ⟨k, -, hk⟩ := exists_node_of_mem_candidates ht
  obtain ⟨a, n, haddress, hn⟩ := h.back t.address k hk
  obtain ⟨line, hold⟩ := get?_eq_some_iff.mp hn
  obtain ⟨line', n', hin', hmarks⟩ := h.exists_standing hold
  -- Only one thing stands at an address, so the record is the moved node.
  have heq : t = ⟨move a, line', .node n'⟩ := hin.eq_of_address hin' haddress.symm
  obtain ⟨hsame, hpath⟩ := isRecord_and_path_eq (a := a) (b := move a) hmarks
  refine ⟨_, mem_candidates_iff.mpr ⟨hold, ?_⟩, haddress.symm, ?_⟩
  · rw [← hsame, ← heq, hrecord]
  · rw [heq, hpath]

/-- The records of the two documents, one by one: the addresses are moved, the paths are the
same. -/
theorem map_candidates (h : d.Moves move d') :
    d'.candidates.map (fun t => (t.address, t.path)) =
      d.candidates.map fun s => (move s.address, s.path) := by
  -- Moving keeps the order, so that both lists are in document order.
  apply eq_of_mem_iff_of_before
  · exact List.pairwise_map.mpr d'.candidates_pairwise
  · exact List.pairwise_map.mpr (d.candidates_pairwise.imp h.before)
  · intro x
    simp only [List.mem_map]
    constructor
    · rintro ⟨t, ht, rfl⟩
      obtain ⟨s, hs, haddress, hpath⟩ := h.exists_candidate_back ht
      exact ⟨s, hs, by rw [haddress, hpath]⟩
    · rintro ⟨s, hs, rfl⟩
      obtain ⟨t, ht, haddress, hpath⟩ := h.exists_candidate hs
      exact ⟨t, ht, by rw [haddress, hpath]⟩

/-- Locating a record in the other document gives the moved address, whatever the schemas are. -/
theorem locate?_eq (h : d.Moves move d') (schema schema' : Schema) (path : String) :
    Record.locate? schema' d' path = (Record.locate? schema d path).map move := by
  -- A lookup goes by the pairs of address and path, and takes the first one with the path.
  have hpairs : ∀ (l : List Standing) (f : Standing → Address),
      (l.find? (·.path.display = path)).map f =
        ((l.map fun s => (f s, s.path)).find? (·.2.display = path)).map Prod.fst := by
    intro l f
    rw [List.find?_map, Option.map_map]
    rfl
  rw [Record.locate?_eq_find?, Record.locate?_eq_find?, Option.map_map, hpairs,
    h.map_candidates, hpairs]
  rfl

end Document.Moves
end EmbeddedGraphQL
