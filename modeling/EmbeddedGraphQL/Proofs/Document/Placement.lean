import EmbeddedGraphQL.Proofs.Document.Between
import EmbeddedGraphQL.Proofs.Walk.Standing

/-!
# Where the parts of a document stand in its text

A selection that was read stands between the first and the last token it was read from. What is
selected under it stands inside it, and the entries of a selection set stand one after the other.

* `Selection.PlacedIn`, `Selection.PlacedSet`: a selection, or the entries of a set, between two
  byte offsets.
* `Document.Placed`: every operation and fragment remembers its place, with its selections inside.
* `Document.placed_of_parse?`: what is read from a text is placed.
* `Document.Placed.get?`: in a placed document every node is placed.
-/

namespace EmbeddedGraphQL

namespace Selection

mutual

/-- Whether a selection stands between two byte offsets, with what is under it inside it. -/
def PlacedIn (lo hi : Nat) : Selection → Prop
  | .field f set => ∃ span, f.span = some span ∧ lo ≤ span.start ∧ span.start ≤ span.stop ∧
      span.stop ≤ hi ∧ PlacedSet span.start span.stop set
  | .inline f set => ∃ span, f.span = some span ∧ lo ≤ span.start ∧ span.start ≤ span.stop ∧
      span.stop ≤ hi ∧ PlacedSet span.start span.stop set
  | .spread s => ∃ span, s.span = some span ∧ lo ≤ span.start ∧ span.start ≤ span.stop ∧
      span.stop ≤ hi

/-- Whether the entries of a set stand one after the other between two byte offsets. -/
def PlacedSet (lo hi : Nat) : List Selection → Prop
  | [] => True
  | s :: rest => ∃ mid, s.PlacedIn lo mid ∧ mid ≤ hi ∧ PlacedSet mid hi rest

end

/-- A selection that stands somewhere has a span, in which it has what is under it. -/
theorem PlacedIn.span {lo hi : Nat} {s : Selection} (h : s.PlacedIn lo hi) :
    ∃ span, s.span = some span ∧ lo ≤ span.start ∧ span.start ≤ span.stop ∧ span.stop ≤ hi ∧
      PlacedSet span.start span.stop s.children := by
  cases s with
  | field f set => exact h
  | inline f set => exact h
  | spread s =>
    obtain ⟨span, hspan, hstart, hle, hstop⟩ := h
    exact ⟨span, hspan, hstart, hle, hstop, trivial⟩

/-- A selection that stands somewhere also stands between wider bounds. -/
theorem PlacedIn.mono {lo lo' hi hi' : Nat} {s : Selection} (h : s.PlacedIn lo hi)
    (hlo : lo' ≤ lo) (hhi : hi ≤ hi') : s.PlacedIn lo' hi' := by
  cases s with
  | field f set =>
    obtain ⟨span, hspan, hstart, hle, hstop, hset⟩ := h
    exact ⟨span, hspan, Nat.le_trans hlo hstart, hle, Nat.le_trans hstop hhi, hset⟩
  | inline f set =>
    obtain ⟨span, hspan, hstart, hle, hstop, hset⟩ := h
    exact ⟨span, hspan, Nat.le_trans hlo hstart, hle, Nat.le_trans hstop hhi, hset⟩
  | spread s =>
    obtain ⟨span, hspan, hstart, hle, hstop⟩ := h
    exact ⟨span, hspan, Nat.le_trans hlo hstart, hle, Nat.le_trans hstop hhi⟩

/-- The entries of a placed set also stand after every place before it. -/
theorem PlacedSet.mono {lo lo' hi : Nat} {set : List Selection} (h : PlacedSet lo hi set)
    (hlo : lo' ≤ lo) : PlacedSet lo' hi set := by
  cases set with
  | nil => trivial
  | cons s rest =>
    obtain ⟨mid, hs, hmid, hrest⟩ := h
    exact ⟨mid, hs.mono hlo (Nat.le_refl _), hmid, hrest⟩

/-- Every entry of a placed set stands between its bounds. -/
theorem PlacedSet.entry {lo hi : Nat} {set : List Selection} (h : PlacedSet lo hi set)
    {s : Selection} (hs : s ∈ set) : ∃ lo' hi', s.PlacedIn lo' hi' := by
  induction set generalizing lo with
  | nil => simp at hs
  | cons t rest ih =>
    obtain ⟨mid, ht, -, hrest⟩ := h
    rcases List.mem_cons.mp hs with rfl | hs
    · exact ⟨_, _, ht⟩
    · exact ih hrest hs

end Selection

/-- Whether a node remembers its place and has its selections inside it. -/
def Node.Placed (n : Node) : Prop :=
  ∃ span, n.span = some span ∧ span.start ≤ span.stop ∧
    Selection.PlacedSet span.start span.stop n.selections

/-- Whether a definition, if it is a node, is placed. -/
def Definition.Placed (d : Definition) : Prop := ∀ n ∈ Node.ofDefinition? d, n.Placed

/-- Whether every operation and every fragment of a document is placed. -/
def Document.Placed (d : Document) : Prop := ∀ x ∈ d.definitions, x.Placed

/-- In a placed document every node is placed. -/
theorem Document.Placed.get? {d : Document} (h : d.Placed) {a : Address} {n : Node}
    (hn : d.get? a = some n) : n.Placed := by
  obtain ⟨ancestors, hin⟩ := Document.get?_eq_some_iff.mp hn
  -- The induction goes down from the definition: a set that is laid out holds entries that are.
  generalize ht : (⟨a, ancestors, .node n⟩ : Standing) = t at hin
  induction hin generalizing a ancestors n with
  | definition hroot =>
    cases ht
    obtain ⟨x, hx, hxn⟩ := Option.bind_eq_some_iff.mp hroot
    exact h x (List.mem_of_getElem? hx) _ hxn
  | @selection address line node index s hnode hs ih =>
    obtain ⟨rfl, rfl, hentry⟩ := (Standing.mk.injEq ..).mp ht
    obtain ⟨span, -, -, hset⟩ := ih (Document.get?_eq_some_iff.mpr ⟨_, hnode⟩) _ rfl
    obtain ⟨lo, hi, hplaced⟩ := hset.entry (List.mem_of_getElem? hs)
    obtain ⟨span, hspan, -, hle, -, hset⟩ := hplaced.span
    cases s with
    | spread s => cases hentry
    | field f set =>
      cases hentry
      exact ⟨span, hspan, hle, hset⟩
    | inline f set =>
      cases hentry
      exact ⟨span, hspan, hle, hset⟩

/-! ## What was read -/

namespace Selection

mutual

/-- A selection stands between the cursors it was read between. -/
theorem ReadBetween.placedIn {c c' : Cursor} (s : Selection) (h : s.ReadBetween c c')
    (hc : c.Sound) : s.PlacedIn c.start c'.last := by
  cases s with
  | field f set =>
    obtain ⟨hspan, hpasses, hset⟩ := h
    exact ⟨_, hspan, Nat.le_refl _, hpasses.start_le_last hc, Nat.le_refl _,
      SetReadBetween.placedSet set hset hc⟩
  | inline f set =>
    obtain ⟨hspan, hpasses, hset⟩ := h
    exact ⟨_, hspan, Nat.le_refl _, hpasses.start_le_last hc, Nat.le_refl _,
      SetReadBetween.placedSet set hset hc⟩
  | spread s =>
    obtain ⟨hspan, hpasses⟩ := h
    exact ⟨_, hspan, Nat.le_refl _, hpasses.start_le_last hc, Nat.le_refl _⟩

/-- The entries of a set stand between the cursors they were read between. -/
theorem SetReadBetween.placedSet {c c' : Cursor} (set : List Selection)
    (h : SetReadBetween c c' set) (hc : c.Sound) : PlacedSet c.start c'.last set := by
  cases set with
  | nil => trivial
  | cons s rest =>
    obtain ⟨a, b, hca, hs, hbc', hrest⟩ := h
    have ha := hc.reaches hca
    have hb := ha.reaches hs.passes.reaches
    have hplaced := ReadBetween.placedIn s hs ha
    exact ⟨b.last, hplaced.mono (hca.le hc).1 (Nat.le_refl _), (hbc'.le hb).2,
      (SetReadBetween.placedSet rest hrest hb).mono hb.last_le_start⟩

end

end Selection

/-- A node that was read is placed. -/
theorem Node.ReadBetween.placed {c c' : Cursor} {n : Node} (h : n.ReadBetween c c')
    (hc : c.Sound) : n.Placed := by
  obtain ⟨hspan, hpasses, hset⟩ := h
  exact ⟨_, hspan, hpasses.start_le_last hc, Selection.SetReadBetween.placedSet _ hset hc⟩

/-- What is read from a text is placed. -/
theorem Document.placed_of_parse? {text : String} {d : Document} (h : parse? text = some d) :
    d.Placed := by
  obtain ⟨tokens, hscan, hread⟩ := exists_readFrom h
  intro x hx n hn
  obtain ⟨a, b, hreaches, hbetween⟩ := hread.entry hx
  exact (hbetween n hn).placed ((sound_of_scan? hscan).reaches hreaches)

end EmbeddedGraphQL
