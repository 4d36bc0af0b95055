import EmbeddedGraphQL.Proofs.Edit.Innermost
import EmbeddedGraphQL.Proofs.Record.Moved

/-!
# A spread put into a selection set

The place for a spread is in the selection set from which the selections on the same lines would be
moved into a fragment, in front of the first of these selections. A spread that is put in there
moves the selections behind it, and all that is inside them, to other addresses. It is no node
itself, so that record paths go on naming the nodes they named.

* `Selection.renumber`, `Address.shift`: numbers and addresses behind a selection that is put in.
* `Address.shift_before`: the order of addresses is kept.
* `Document.exists_get?_shift`, `Document.exists_shift_eq`: the nodes from before, one by one.
* `Document.moves_shift`: records and their paths.
* `SpreadPlace.Fits`: a place in the set of a node.
* `SpreadPlace.insertSpread_spec`: places, plans for fragments and the spread put in.
-/

namespace EmbeddedGraphQL

/-! ## Numbers behind a selection that is put in -/

namespace Selection

/-- The number of a selection after another one is put into the set at the number `first`. -/
def renumber (first index : Nat) : Nat := if first ≤ index then index + 1 else index

/-- Renumbering keeps the order of the indices. -/
theorem renumber_lt (first : Nat) {i j : Nat} (h : i < j) :
    renumber first i < renumber first j := by
  unfold renumber
  split <;> split <;> omega

/-- Each number but that of the new selection is the number of an old one. -/
theorem exists_renumber_eq {first index : Nat} (h : index ≠ first) :
    ∃ old, renumber first old = index := by
  rcases Nat.lt_or_gt_of_ne h with hlt | hgt
  · exact ⟨index, if_neg (by omega)⟩
  · refine ⟨index - 1, ?_⟩
    rw [renumber, if_pos (by omega)]
    omega

/-- An old selection is found under its new number. -/
theorem getElem?_insertIdx_renumber (set : List Selection) (first : Nat) (s : Selection)
    (index : Nat) : (set.insertIdx first s)[renumber first index]? = set[index]? := by
  rw [List.getElem?_insertIdx, renumber]
  by_cases hle : first ≤ index
  · rw [if_pos hle, if_neg (by omega), if_neg (by omega), Nat.add_sub_cancel]
  · rw [if_neg hle, if_pos (by omega)]

/-- Putting a selection in at a number that is not behind the end. -/
theorem insertAt_eq_insertIdx {first : Nat} {set : List Selection} (h : first ≤ set.length)
    (s : Selection) : insertAt first s set = set.insertIdx first s := by
  induction first generalizing set with
  | zero => rfl
  | succ first ih =>
    cases set with
    | nil => cases h
    | cons t set =>
      rw [List.insertIdx_succ_cons, ← ih (Nat.le_of_succ_le_succ h)]
      rfl

end Selection

namespace Node

/-- Below a node that gets another selection, what is in an old one is found under the new
number. -/
theorem at?_insertIdx_renumber (n : Node) (first : Nat) (s : Selection) (index : Nat)
    (rest : List Nat) :
    (n.withSelections (n.selections.insertIdx first s)).at?
        (Selection.renumber first index :: rest) =
      n.at? (index :: rest) := by
  rw [at?_cons, at?_cons, selections_withSelections, Selection.getElem?_insertIdx_renumber]

/-- Below a node that gets a spread, all nodes are in old selections. -/
theorem exists_at?_of_insertIdx {n k : Node} {first index : Nat} {s : FragmentSpread}
    {rest : List Nat} (hfirst : first ≤ n.selections.length)
    (h : (n.withSelections (n.selections.insertIdx first (.spread s))).at? (index :: rest) =
      some k) :
    ∃ old, Selection.renumber first old = index ∧ n.at? (old :: rest) = some k := by
  -- At the number of the spread there is nothing to go down into.
  have hne : index ≠ first := by
    rintro rfl
    rw [at?_cons, selections_withSelections, List.getElem?_insertIdx_self, if_pos hfirst] at h
    cases h
  obtain ⟨old, rfl⟩ := Selection.exists_renumber_eq hne
  exact ⟨old, rfl, by rwa [at?_insertIdx_renumber] at h⟩

end Node

/-! ## Addresses behind a selection that is put in -/

/-- Whether one address lies under another one can be decided. -/
instance (a b : Address) : Decidable (a.Under b) := inferInstanceAs (Decidable (_ ∧ _))

/-- The address of a node after a selection is put in, at the number `first`, into the set of the
node at `owner`. -/
def Address.shift (owner : Address) (first : Nat) (a : Address) : Address :=
  if owner.Under a then
    -- The address of the owner itself has no number there to change.
    ⟨a.definition, a.selections.modify owner.selections.length (Selection.renumber first)⟩
  else a

namespace Address

variable (owner : Address) (first : Nat) {a b : Address}

/-- An address that is not under the owner does not shift. -/
theorem shift_of_not_under (h : ¬ owner.Under a) : shift owner first a = a := if_neg h

/-- Below the owner of the set, the number of the selection in the set is what changes. -/
theorem shift_below (rest : List Nat) :
    shift owner first ⟨owner.definition, owner.selections ++ rest⟩ =
      ⟨owner.definition, owner.selections ++ rest.modifyHead (Selection.renumber first)⟩ := by
  rw [shift, if_pos ⟨rfl, List.prefix_append _ _⟩, List.modify_eq_take_drop]
  simp

@[simp] theorem shift_self : shift owner first owner = owner := by
  simpa using shift_below owner first []

@[simp] theorem shift_ofDefinition (index : Nat) :
    shift owner first (.ofDefinition index) = .ofDefinition index := by
  unfold shift
  split <;> simp [ofDefinition]

/-- Selections of a node stay selections of it. -/
theorem exists_shift_child (a : Address) (index : Nat) :
    ∃ other, shift owner first (a.child index) = (shift owner first a).child other := by
  by_cases hunder : owner.Under a
  · obtain ⟨definition, selections⟩ := a
    obtain ⟨rfl, rest, rfl⟩ := hunder
    rw [child, List.append_assoc, shift_below, shift_below]
    -- Only the selections of the owner get other numbers, not those further down.
    cases rest with
    | nil => exact ⟨Selection.renumber first index, by simp [child]⟩
    | cons number rest => exact ⟨index, by simp [child]⟩
  · rw [shift_of_not_under owner first hunder]
    refine ⟨index, ?_⟩
    by_cases hchild : owner.Under (a.child index)
    · -- The selection is the owner of the set itself, which stays where it is.
      obtain ⟨hdefinition, hselections⟩ := hchild
      have hend : owner.selections = a.selections ++ [index] :=
        (List.prefix_concat_iff.mp hselections).resolve_right fun habove =>
          hunder ⟨hdefinition, habove⟩
      have howner : owner = a.child index := (Address.mk.injEq ..).mpr ⟨hdefinition, hend⟩
      rw [← howner, shift_self]
    · exact shift_of_not_under owner first hchild

/-- Changing the numbers at the end of one way down, by a function that keeps their order, keeps the
order of all ways down. -/
theorem modify_lt_modify {change : Nat → Nat} (hchange : ∀ {i j}, i < j → change i < change j)
    (way : List Nat) {p q : List Nat} (h : p < q) :
    (if way <+: p then p.modify way.length change else p) <
      if way <+: q then q.modify way.length change else q := by
  -- Down the way: two ways that part before its end keep the numbers by which they part.
  induction way generalizing p q with
  | nil =>
    rw [if_pos List.nil_prefix, if_pos List.nil_prefix]
    match p, q with
    | p, [] => exact absurd h (List.not_lt_nil p)
    | [], j :: q => exact List.nil_lt_cons _ _
    | i :: p, j :: q =>
      rcases List.cons_lt_cons_iff.mp h with hlt | ⟨rfl, hlt⟩
      · exact List.cons_lt_cons_iff.mpr (.inl (hchange hlt))
      · exact List.cons_lt_cons_iff.mpr (.inr ⟨rfl, hlt⟩)
  | cons number way ih =>
    have hcons : ∀ (i : Nat) (p : List Nat),
        (if number :: way <+: i :: p then (i :: p).modify (way.length + 1) change else i :: p) =
          i :: if number = i then if way <+: p then p.modify way.length change else p else p := by
      intro i p
      by_cases hnumber : number = i <;> by_cases hway : way <+: p <;> simp [hnumber, hway]
    rw [List.length_cons]
    match p, q with
    | p, [] => exact absurd h (List.not_lt_nil p)
    | [], j :: q =>
      rw [hcons]
      exact List.nil_lt_cons _ _
    | i :: p, j :: q =>
      rw [hcons, hcons, List.cons_lt_cons_iff]
      rcases List.cons_lt_cons_iff.mp h with hlt | ⟨rfl, hlt⟩
      · exact .inl hlt
      · refine .inr ⟨rfl, ?_⟩
        split
        · exact ih hlt
        · exact hlt

/-- The order of addresses is kept. -/
theorem shift_before (h : a.Before b) : (shift owner first a).Before (shift owner first b) := by
  -- With the number of the definition in front, an address is a way down from the document.
  have hway : ∀ c : Address, (shift owner first c).definition :: (shift owner first c).selections =
      if owner.definition :: owner.selections <+: c.definition :: c.selections then
        (c.definition :: c.selections).modify (owner.definition :: owner.selections).length
          (Selection.renumber first)
      else c.definition :: c.selections := by
    intro c
    rw [shift, apply_ite (fun e : Address => e.definition :: e.selections)]
    exact if_congr List.cons_prefix_cons.symm rfl rfl
  rw [Before, hway, hway]
  exact modify_lt_modify (Selection.renumber_lt first) _ h

end Address

/-! ## Nodes around and behind a spread that is put in -/

namespace Document

variable {d d' : Document} {owner b : Address} {n k : Node} {first : Nat} {s : FragmentSpread}

/-- Where a set gets another selection, each node stands at the shifted address. It is as it was,
except for the selections of the nodes that the set is in. -/
theorem exists_get?_shift {s : Selection} (hn : d.get? owner = some n)
    (h : d.set? owner (n.withSelections (n.selections.insertIdx first s)) = some d')
    (hb : d.get? b = some k) :
    ∃ k', d'.get? (owner.shift first b) = some k' ∧ k'.head = k.head ∧
      (¬ b.Under owner → k' = k) := by
  by_cases hunder : owner.Under b
  · -- In the set of the owner, or further down, a number changes, and what stands there does not.
    obtain ⟨definition, selections⟩ := b
    obtain ⟨rfl, rest, rfl⟩ := hunder
    rw [Address.shift_below, get?_below (get?_set? h)]
    rw [get?_below hn] at hb
    cases rest with
    | nil =>
      obtain rfl := Option.some.inj hb
      exact ⟨_, rfl, n.head_withSelections _, fun habove => absurd ⟨rfl, by simp⟩ habove⟩
    | cons index rest =>
      exact ⟨k, (n.at?_insertIdx_renumber first s index rest).trans hb, rfl, fun _ => rfl⟩
  · -- The address stays. A node above the owner has the new selection somewhere inside it.
    rw [Address.shift_of_not_under owner first hunder]
    have hhead := head_get?_set? h hunder
    rw [hb, Option.map_some] at hhead
    obtain ⟨k', hk', hhead⟩ := Option.map_eq_some_iff.mp hhead
    refine ⟨k', hk', hhead, fun habove => ?_⟩
    have hapart := get?_set?_apart h hunder fun ⟨hdefinition, hway⟩ =>
      habove ⟨hdefinition.symm, hway⟩
    rw [hk', hb] at hapart
    exact Option.some.inj hapart

/-- Where a set gets a spread, every node is one from before. -/
theorem exists_shift_eq (hn : d.get? owner = some n) (hfirst : first ≤ n.selections.length)
    (h : d.set? owner (n.withSelections (n.selections.insertIdx first (.spread s))) = some d')
    (hb : d'.get? b = some k) : ∃ a n', owner.shift first a = b ∧ d.get? a = some n' := by
  by_cases hunder : owner.Under b
  · obtain ⟨definition, selections⟩ := b
    obtain ⟨rfl, rest, rfl⟩ := hunder
    rw [get?_below (get?_set? h)] at hb
    cases rest with
    | nil => exact ⟨owner, n, by simp, hn⟩
    | cons index rest =>
      -- A spread is no node, so that the way goes through an old selection.
      obtain ⟨old, rfl, hold⟩ := Node.exists_at?_of_insertIdx hfirst hb
      exact ⟨_, k, Address.shift_below owner first (old :: rest), (get?_below hn _).trans hold⟩
  · have hhead := head_get?_set? h hunder
    rw [hb, Option.map_some] at hhead
    obtain ⟨n', hn', -⟩ := Option.map_eq_some_iff.mp hhead.symm
    exact ⟨b, n', Address.shift_of_not_under owner first hunder, hn'⟩

/-- Where a set gets a spread, the nodes are moved to the shifted addresses. -/
theorem moves_shift (hn : d.get? owner = some n) (hfirst : first ≤ n.selections.length)
    (h : d.set? owner (n.withSelections (n.selections.insertIdx first (.spread s))) = some d') :
    d.Moves (owner.shift first) d' where
  definition := Address.shift_ofDefinition owner first
  child := Address.exists_shift_child owner first
  before := Address.shift_before owner first
  node a k hk := by
    obtain ⟨k', hk', hhead, -⟩ := exists_get?_shift hn h hk
    exact ⟨k', hk', Node.mark_of_head hhead⟩
  back b k hk := exists_shift_eq hn hfirst h hk

end Document

/-- A change of a selection set is a writing of the node with the changed set. -/
theorem Document.changeSelections_eq_ok {d d' : Document} {a : Address} {n : Node}
    {change : List Selection → List Selection} (hn : d.get? a = some n)
    (h : d.set? a (n.withSelections (change n.selections)) = some d') :
    d.changeSelections a change = .ok d' := by
  rw [changeSelections, modify?_eq_set? hn, h]

/-! ## Places for a spread -/

/-- The set around some lines is that of the node at its address. -/
theorem Enclosing.exists_get?_of_find? {schema : Schema} {d : Document} {source : String}
    {lines : LineRange} {found : Enclosing} (h : find? schema d source lines = some found) :
    ∃ node, d.get? found.set.address = some node ∧ node.selections = found.set.selections := by
  -- What is found is one of the sets around the lines, and these are sets of nodes.
  have hset := map_set_find? schema d source lines
  rw [h, Option.map_some, eq_comm, Option.bind_eq_some_iff] at hset
  obtain ⟨x, hx, hset⟩ := hset
  obtain ⟨hsets, -⟩ := Document.mem_setsAround_iff.mp (List.mem_of_getLast? hx)
  obtain ⟨ancestors, node, hnode, hselections, -⟩ := Document.mem_sets_iff.mp hsets
  obtain ⟨hsame, haddress⟩ := SetSight.eq_of_enclosing? hset
  rw [hsame, haddress]
  exact ⟨node, Document.get?_eq_some_iff.mpr ⟨ancestors, hnode⟩, hselections.symm⟩

namespace SpreadPlace

variable {schema : Schema} {d : Document} {source : String} {lines : LineRange}
  {place : SpreadPlace} {plan : FragmentPlan}

/-- A place is in the selection set of the node at its target, right in front of the selection that
it names, or at the end if it names none. -/
structure Fits (d : Document) (place : SpreadPlace) (node : Node) (i : Nat) : Prop where
  target : d.get? place.target = some node
  targetSet : node.selections = place.targetSet
  index : place.index.getD place.targetSet.length = i
  bound : i ≤ place.targetSet.length
  before : place.before = place.targetSet[i]?

/-- The place for some lines of a text fits. -/
theorem fits_of_find? (h : find? schema d source lines = some place) :
    ∃ node i, place.Fits d node i := by
  obtain ⟨found, hfound, h⟩ := Option.bind_eq_some_iff.mp h
  obtain ⟨node, hnode, hselections⟩ := Enclosing.exists_get?_of_find? hfound
  cases h
  cases hchild : (found.children lines).head? with
  | none =>
    exact ⟨node, found.set.selections.length, hnode, hselections, rfl, le_rfl, by simp⟩
  | some c =>
    -- The selection on the lines comes with its number in the set.
    have hc : found.set.selections[c.2]? = some c.1 :=
      List.mk_mem_zipIdx_iff_getElem?.mp (List.mem_filter.mp (List.mem_of_head? hchild)).1
    have hlt : c.2 < found.set.selections.length := (List.getElem?_eq_some_iff.mp hc).1
    exact ⟨node, c.2, hnode, hselections, rfl, Nat.le_of_lt hlt, hc.symm⟩

/-- Where some selections become a fragment, the place for a spread is in front of the first one. -/
theorem exists_find?_of_plan (h : FragmentPlan.find? schema d source lines = some plan) :
    ∃ place first, find? schema d source lines = some place ∧ place.target = plan.target ∧
      place.targetSet = plan.targetSet ∧ place.typeName = plan.typeName ∧
      plan.indices.head? = some first ∧ place.index = some first := by
  obtain ⟨found, hfound, h⟩ := Option.bind_eq_some_iff.mp h
  simp only at h
  cases hchildren : found.children lines with
  | nil => simp [hchildren] at h
  | cons c rest =>
    rw [hchildren] at h
    cases h
    refine ⟨_, c.2, Option.bind_eq_some_iff.mpr ⟨found, hfound, rfl⟩, rfl, rfl, rfl, rfl, ?_⟩
    simp [hchildren]

/-- Where nothing becomes a fragment, the place for a spread is at the end. -/
theorem index_eq_none (hplan : FragmentPlan.find? schema d source lines = none)
    (h : find? schema d source lines = some place) : place.index = none := by
  obtain ⟨found, hfound, h⟩ := Option.bind_eq_some_iff.mp h
  cases h
  cases hchildren : found.children lines with
  | nil => rfl
  | cons c rest => simp [FragmentPlan.find?, hfound, hchildren] at hplan

/-- A spread is put in where a place fits, and can be taken out again. -/
theorem Fits.exists_insertSpread_eq {node : Node} {i : Nat} {name : String}
    (h : place.Fits d node i) (hname : isName name = true) :
    ∃ d', d.insertSpread place name = .ok d' ∧
      d.set? place.target (node.withSelections
        (place.targetSet.insertIdx i (.spread ⟨name, [], none⟩))) = some d' ∧
      d'.changeSelections place.target (·.eraseIdx i) = .ok d := by
  have hspread : Selection.newSpread name [] = .ok (.spread ⟨name, [], none⟩) := by
    rw [Selection.newSpread, checkedName, if_pos hname]
    rfl
  obtain ⟨d', hd'⟩ := Document.exists_set? h.target (node.sameKind_withSelections
    (place.targetSet.insertIdx i (.spread ⟨name, [], none⟩)))
  refine ⟨d', ?_, hd', ?_⟩
  · simp only [Document.insertSpread, hspread, bind, Except.bind]
    apply Document.changeSelections_eq_ok h.target
    rw [h.targetSet, ← hd']
    -- At the end of the set and in front of one of its selections, the same is written.
    have hi := h.index
    cases hindex : place.index with
    | none =>
      rw [hindex, Option.getD_none] at hi
      rw [← hi, List.insertIdx_length_self]
    | some index =>
      rw [hindex, Option.getD_some] at hi
      rw [hi, ← Selection.insertAt_eq_insertIdx h.bound]
  · apply Document.changeSelections_eq_ok (Document.get?_set? hd')
    rw [Node.selections_withSelections, List.eraseIdx_insertIdx_self, ← h.targetSet,
      Node.withSelections_withSelections, Node.withSelections_selections, Document.set?_set? hd',
      Document.set?_get? h.target]

/-- The place for a spread is in the set from which the selections on the lines would become a
fragment, with the same type: in front of the first of these selections, or without a number if
there are none. A spread of any name put in there is one more selection of the set, in front of the
selection that the place names or at the end, and taking it out gives the document back. The nodes
stand at the shifted addresses, unchanged unless the spread is somewhere in their selections, and
record paths lead to the same nodes. -/
theorem insertSpread_spec (schema : Schema) (d : Document) (source : String) (lines : LineRange) :
    (∀ plan, FragmentPlan.find? schema d source lines = some plan →
      ∃ place first, find? schema d source lines = some place ∧ place.target = plan.target ∧
        place.targetSet = plan.targetSet ∧ place.typeName = plan.typeName ∧
        plan.indices.head? = some first ∧ place.index = some first) ∧
    (∀ place, find? schema d source lines = some place →
      FragmentPlan.find? schema d source lines = none → place.index = none) ∧
    ∀ place name, find? schema d source lines = some place → isName name = true →
      ∃ node i d', place.Fits d node i ∧ d.insertSpread place name = .ok d' ∧
        d.set? place.target (node.withSelections
          (place.targetSet.insertIdx i (.spread ⟨name, [], none⟩))) = some d' ∧
        d'.changeSelections place.target (·.eraseIdx i) = .ok d ∧
        (∀ a k, d.get? a = some k → ∃ k', d'.get? (place.target.shift i a) = some k' ∧
          k'.head = k.head ∧ (¬ a.Under place.target → k' = k)) ∧
        ∀ path, Record.locate? schema d' path =
          (Record.locate? schema d path).map (place.target.shift i) := by
  refine ⟨fun plan => exists_find?_of_plan, fun place h hplan => index_eq_none hplan h, ?_⟩
  intro place name h hname
  -- Once the place fits a node of the document, the insertion is one writing there.
  obtain ⟨node, i, hfits⟩ := fits_of_find? h
  obtain ⟨d', hinsert, hset, hback⟩ := hfits.exists_insertSpread_eq hname
  refine ⟨node, i, d', hfits, hinsert, hset, hback, ?_, ?_⟩
  · intro a k hk
    rw [← hfits.targetSet] at hset
    exact Document.exists_get?_shift hfits.target hset hk
  · intro path
    have hbound := hfits.bound
    rw [← hfits.targetSet] at hset hbound
    exact (Document.moves_shift hfits.target hbound hset).locate?_eq schema schema path

/-- The text `{`, `a`, an empty line, `b { x }`, `}` on five lines. -/
def gappedLines : String := "\x7b\n  a\n\n  b \x7b x \x7d\n\x7d"

/-- For the empty line and `b`, a spread is put in front of `b`, which moves `x` in it from the
second selection of the query to the third one; for the empty line alone, it belongs at the end. -/
theorem insertSpread_spec_gappedLines :
    ∃ d place d', Document.parse? gappedLines = some d ∧
      find? nestedQueries d gappedLines ⟨2, 3⟩ = some place ∧ place.index = some 1 ∧
      d.insertSpread place "F" = .ok d' ∧ d'.changeSelections place.target (·.eraseIdx 1) = .ok d ∧
      Record.locate? nestedQueries d "fragment_b_x" = some ⟨0, [1, 0]⟩ ∧
      Record.locate? nestedQueries d' "fragment_b_x" = some ⟨0, [2, 0]⟩ ∧
      ∃ last, find? nestedQueries d gappedLines ⟨2, 2⟩ = some last ∧ last.index = none := by
  have hruns : ((Document.parse? gappedLines).bind fun d =>
      (FragmentPlan.find? nestedQueries d gappedLines ⟨2, 3⟩).bind fun plan =>
        (Record.locate? nestedQueries d "fragment_b_x").bind fun a =>
          (find? nestedQueries d gappedLines ⟨2, 2⟩).map fun _ =>
            (plan.indices, plan.target, a,
              (FragmentPlan.find? nestedQueries d gappedLines ⟨2, 2⟩).isNone)) =
      some ([1], ⟨0, []⟩, ⟨0, [1, 0]⟩, true) := by
    decide +kernel
  obtain ⟨d, hd, hruns⟩ := Option.bind_eq_some_iff.mp hruns
  obtain ⟨plan, hplan, hruns⟩ := Option.bind_eq_some_iff.mp hruns
  obtain ⟨a, ha, hruns⟩ := Option.bind_eq_some_iff.mp hruns
  obtain ⟨last, hlast, hruns⟩ := Option.map_eq_some_iff.mp hruns
  obtain ⟨hindices, htarget, rfl, hnone⟩ := by simpa only [Prod.mk.injEq] using hruns
  obtain ⟨hplace, -, hinsert⟩ := insertSpread_spec nestedQueries d gappedLines ⟨2, 3⟩
  obtain ⟨-, hend, -⟩ := insertSpread_spec nestedQueries d gappedLines ⟨2, 2⟩
  obtain ⟨place, first, hfound, hsame, -, -, hfirst, hindex⟩ := hplace plan hplan
  rw [hindices] at hfirst
  obtain rfl : 1 = first := Option.some.inj hfirst
  obtain ⟨node, i, d', hfits, hd', -, hback, -, hlocate⟩ :=
    hinsert place "F" hfound (by decide +kernel)
  obtain rfl : 1 = i := by
    rw [← hfits.index, hindex, Option.getD_some]
  refine ⟨d, place, d', hd, hfound, hindex, hd', hback, ha, ?_, last, hlast, ?_⟩
  · rw [hlocate, ha, hsame, htarget]
    rfl
  · exact hend last hlast (Option.isNone_iff_eq_none.mp hnone)

end SpreadPlace
end EmbeddedGraphQL
