import Mathlib.Data.List.Destutter
import EmbeddedGraphQL.Proofs.Document.SameParts
import EmbeddedGraphQL.Proofs.Edit.InsertedSpread
import EmbeddedGraphQL.Proofs.Edit.Reparsing

/-!
# A spread in place of any selections

A plan that is found for some lines takes a block of a selection set, and its variables have names.
A plan may as well be made by other means, or be found for another document: then the numbers of its
selections may come in any order, more than once, or not be in the set at all, its target may stand
nowhere, and its variables may have names that cannot be written. A spread is put in for such a plan
all the same, or it is said what is wrong.

The selections are taken out one at a time, from the last one to the first one, and the place for
the spread is the number that the first one had before. Here this is done with checks of all
numbers, which never fail.

* `Selection.numbered`: the selections of a set whose numbers pass a test.
* `Selection.insertAt_without`: where a selection in place of listed ones stands.
* `Selection.Checked.replace?`: selections taken out one at a time, and one put in.
* `Selection.Checked.replace?_eq`: no number is out of bounds.
* `FragmentPlan.passedOn_eq`: the variables that are passed on, or the first one that has no name.
* `Document.replaceWithSpread_spec`: what is done for a plan of any kind.
-/

namespace EmbeddedGraphQL

namespace Selection

/-! ## Selections by their numbers -/

/-- The selections of a set whose numbers pass a test, in their order. -/
def numbered (test : Nat → Bool) (set : List Selection) : List Selection :=
  (set.zipIdx.filter fun p => test p.2).map (·.1)

variable {test : Nat → Bool} {indices : List Nat} {set : List Selection} {s : Selection}
  {first : Nat}

/-- Taking selections out keeps those whose numbers are not among the indices. -/
theorem without_eq_numbered (indices : List Nat) (set : List Selection) :
    without indices set = numbered (fun i => !indices.contains i) set := rfl

/-- Behind the first selection the numbers are one larger. -/
theorem numbered_cons (test : Nat → Bool) (s : Selection) (set : List Selection) :
    numbered test (s :: set) =
      if test 0 then s :: numbered (fun i => test (i + 1)) set
      else numbered (fun i => test (i + 1)) set := by
  rw [numbered, List.zipIdx_cons', List.filter_cons, List.filter_map]
  split
  · rw [List.map_cons, List.map_map]
    rfl
  · rw [List.map_map]
    rfl

/-- The first selection is kept if its number passes the test. -/
theorem numbered_cons_of_pos {test : Nat → Bool} (h : test 0 = true) (s : Selection)
    (set : List Selection) :
    numbered test (s :: set) = s :: numbered (fun i => test (i + 1)) set := by
  rw [numbered_cons, if_pos h]

/-- The first selection goes if its number fails the test. -/
theorem numbered_cons_of_neg {test : Nat → Bool} (h : test 0 = false) (s : Selection)
    (set : List Selection) :
    numbered test (s :: set) = numbered (fun i => test (i + 1)) set := by
  rw [numbered_cons, if_neg (Bool.eq_false_iff.mp h)]

/-- All selections are kept exactly if all their numbers pass the test. -/
theorem numbered_eq_self_iff : numbered test set = set ↔ ∀ i < set.length, test i = true := by
  constructor
  · intro h i hi
    have hlength : (set.zipIdx.filter fun p => test p.2).length = set.zipIdx.length := by
      have hlength := congrArg List.length h
      rwa [numbered, List.length_map, ← List.length_zipIdx (l := set) (i := 0)] at hlength
    have hmem : (set[i], i) ∈ set.zipIdx :=
      List.mk_mem_zipIdx_iff_getElem?.mpr (List.getElem?_eq_getElem hi)
    exact List.length_filter_eq_length_iff.mp hlength _ hmem
  · intro h
    have hkept : (set.zipIdx.filter fun p => test p.2) = set.zipIdx :=
      List.filter_eq_self.mpr fun p hp => h _ (List.snd_lt_of_mem_zipIdx hp)
    rw [numbered, hkept, List.zipIdx_map_fst]

/-- Selections of a set stay in their order. -/
theorem numbered_sublist (test : Nat → Bool) (set : List Selection) :
    (numbered test set).Sublist set := by
  have hsublist := (List.filter_sublist (p := fun p => test p.2) (l := set.zipIdx)).map Prod.fst
  rwa [List.zipIdx_map_fst] at hsublist

/-- Some selections of a set are the same as the set only if they are all of them. -/
theorem sameSet_numbered_iff :
    sameSet (numbered test set) set = true ↔ ∀ i < set.length, test i = true := by
  rw [← numbered_eq_self_iff]
  constructor
  · intro h
    rw [sameSet_eq] at h
    exact (numbered_sublist test set).eq_of_length (length_eq_of_sameList h)
  · intro h
    rw [h]
    exact sameSet_self set

/-- No selection has a number that passes a test which none passes. -/
theorem numbered_eq_nil (h : ∀ i, test i = false) : numbered test set = [] := by
  induction set generalizing test with
  | nil => rfl
  | cons s set ih => rw [numbered_cons_of_neg (h 0), ih fun i => h (i + 1)]

/-- Where all numbers from one on pass, taking that selection out is failing its number. -/
theorem numbered_eraseIdx {index : Nat} (h : ∀ i, index ≤ i → test i = true) :
    numbered test (set.eraseIdx index) = numbered (fun i => test i && i != index) set := by
  -- Down the set: the numbers in front of the selection stay as they are, and all behind it pass.
  induction index generalizing test set with
  | zero =>
    cases set with
    | nil => rfl
    | cons s set =>
      rw [numbered_cons_of_neg (by simp), List.eraseIdx_cons_zero,
        numbered_eq_self_iff.mpr fun i _ => h i (Nat.zero_le i), numbered_eq_self_iff.mpr]
      intro i _
      simp [h]
  | succ index ih =>
    cases set with
    | nil => rfl
    | cons s set =>
      rw [List.eraseIdx_cons_succ, numbered_cons, numbered_cons,
        ih fun i hi => h _ (Nat.succ_le_succ hi)]
      simp

/-- A selection put in at a number that does not pass, where all smaller ones pass, stands between
those with smaller numbers and those with larger ones. -/
theorem insertAt_numbered (hbelow : ∀ i < first, test i = true) (hfirst : test first = false)
    (s : Selection) (set : List Selection) :
    insertAt first s (numbered test set) =
      numbered (fun i => test i && decide (i < first)) set ++
        s :: numbered (fun i => test i && decide (first < i)) set := by
  induction first generalizing test set with
  | zero =>
    -- No number is smaller, and all that pass are larger, because zero does not.
    have hnone : numbered (fun i => test i && decide (i < 0)) set = [] :=
      numbered_eq_nil fun i => by simp
    have hall : (fun i => test i && decide (0 < i)) = test := by
      funext i
      cases i with
      | zero => simp [hfirst]
      | succ i => simp
    rw [hnone, hall]
    rfl
  | succ first ih =>
    cases set with
    | nil => rfl
    | cons t set =>
      -- The first selection passes and stays in front, so that the number goes down by one.
      have hzero := hbelow 0 (Nat.zero_lt_succ _)
      have hrest := ih (fun i hi => hbelow _ (Nat.succ_lt_succ hi)) hfirst set
      rw [numbered_cons_of_pos hzero, numbered_cons_of_pos (by simp [hzero]),
        numbered_cons_of_neg (by simp)]
      simp only [Nat.add_lt_add_iff_right]
      rw [List.cons_append, ← hrest]
      rfl

/-- Putting in a selection at a number that does not pass gives the same set only if that number
alone does not pass, and has the same selection. -/
theorem sameSet_insertAt_numbered_iff (hbelow : ∀ i < first, test i = true)
    (hfirst : test first = false) :
    sameSet (insertAt first s (numbered test set)) set = true ↔
      (∃ old, set[first]? = some old ∧ s.same old = true) ∧
        ∀ i < set.length, test i = false → i = first := by
  -- The induction is on the number: entries in front of it pass and are the same on both sides.
  induction first generalizing test set with
  | zero =>
    cases set with
    | nil => simp [insertAt, numbered, sameSet]
    | cons t set =>
      -- The new selection takes the place of the first one, so that all others have to pass.
      have hinsert : insertAt 0 s (numbered test (t :: set)) =
          s :: numbered (fun i => test (i + 1)) set := by
        rw [numbered_cons_of_neg hfirst]
        rfl
      rw [hinsert, sameSet, Bool.and_eq_true, sameSet_numbered_iff]
      refine and_congr (by simp) ⟨fun h i hi hnone => ?_, fun h i hi => ?_⟩
      · cases i with
        | zero => rfl
        | succ i => cases hnone.symm.trans (h i (Nat.lt_of_succ_lt_succ hi))
      · apply Bool.of_not_eq_false
        intro hnone
        cases h (i + 1) (Nat.succ_lt_succ hi) hnone
  | succ first ih =>
    cases set with
    | nil => simp [insertAt, numbered, sameSet]
    | cons t set =>
      have hzero := hbelow 0 (Nat.zero_lt_succ _)
      have hinsert : insertAt (first + 1) s (numbered test (t :: set)) =
          t :: insertAt first s (numbered (fun i => test (i + 1)) set) := by
        rw [numbered_cons_of_pos hzero]
        rfl
      rw [hinsert, sameSet, same_self, Bool.true_and,
        ih (fun i hi => hbelow _ (Nat.succ_lt_succ hi)) hfirst, List.getElem?_cons_succ]
      refine and_congr_right fun _ => ⟨fun h i hi hnone => ?_, fun h i hi hnone => ?_⟩
      · cases i with
        | zero => cases hnone.symm.trans hzero
        | succ i => exact congrArg Nat.succ (h i (Nat.lt_of_succ_lt_succ hi) hnone)
      · exact Nat.succ_inj.mp (h (i + 1) (Nat.succ_lt_succ hi) hnone)

/-! ## A selection in place of listed ones -/

/-- Selections may be taken out by their numbers as long as those that are taken out later have
smaller ones. -/
theorem without_cons {index : Nat} {rest : List Nat} (h : ∀ i ∈ rest, i < index)
    (set : List Selection) :
    without (index :: rest) set = without rest (set.eraseIdx index) := by
  rw [without_eq_numbered, without_eq_numbered, numbered_eraseIdx]
  · congr 1
    funext i
    rw [List.contains_cons, Bool.not_or, Bool.and_comm]
    rfl
  · intro i hle
    have hi : i ∉ rest := fun hi => Nat.not_lt.mpr hle (h i hi)
    simpa using hi

/-- Only which numbers are there counts, not in which order or how often. -/
theorem without_congr {indices' : List Nat} (h : ∀ i, i ∈ indices ↔ i ∈ indices')
    (set : List Selection) : without indices set = without indices' set := by
  rw [without_eq_numbered, without_eq_numbered]
  congr 1
  funext i
  rw [Bool.eq_iff_iff]
  simp [h]

/-- Putting a selection in at a number, or at the end if the number is behind it. -/
theorem insertAt_eq_insertIdx_min (first : Nat) (s : Selection) (set : List Selection) :
    insertAt first s set = set.insertIdx (min first set.length) s := by
  rcases Nat.le_total first set.length with hle | hle
  · rw [Nat.min_eq_left hle, insertAt_eq_insertIdx hle]
  · rw [Nat.min_eq_right hle, List.insertIdx_length_self, insertAt, List.take_of_length_le hle,
      List.drop_of_length_le hle]

section Least

variable (hfirst : indices.min? = some first)

include hfirst

/-- All numbers in front of the least one of a list are not listed, and that one is. -/
theorem contains_of_min? :
    (∀ i < first, (!indices.contains i) = true) ∧ (!indices.contains first) = false := by
  obtain ⟨hmem, hleast⟩ := List.min?_eq_some_iff.mp hfirst
  refine ⟨fun i hi => ?_, by simpa using hmem⟩
  have hnot : i ∉ indices := fun h => Nat.not_lt.mpr (hleast i h) hi
  simpa using hnot

/-- A selection in place of listed ones gives the same set only if it is the same as the only one of
them that is there. -/
theorem sameSet_insertAt_without_iff :
    sameSet (insertAt first s (without indices set)) set = true ↔
      (∃ old, set[first]? = some old ∧ s.same old = true) ∧
        ∀ i ∈ indices, i < set.length → i = first := by
  obtain ⟨hbelow, hlisted⟩ := contains_of_min? hfirst
  rw [without_eq_numbered, sameSet_insertAt_numbered_iff hbelow hlisted]
  simp only [Bool.not_eq_false', List.contains_iff_mem]
  exact and_congr_right fun _ => forall_congr' fun i => imp.swap

/-- A selection in place of listed ones stands behind what was in front of the first of them. -/
theorem insertAt_without (s : Selection) (set : List Selection) :
    insertAt first s (without indices set) =
      numbered (fun i => !indices.contains i && decide (i < first)) set ++
        s :: numbered (fun i => !indices.contains i && decide (first < i)) set := by
  obtain ⟨hbelow, hlisted⟩ := contains_of_min? hfirst
  exact insertAt_numbered hbelow hlisted s set

end Least

/-- Numbers that are not there or are listed twice do no harm. -/
example (a b c d : Selection) : insertAt 1 s (without [7, 3, 1, 3] [a, b, c, d]) = [a, s, c] := rfl

/-! ## One selection at a time -/

namespace Checked

/-- A set without the selection of a number. It fails if there is none. -/
def remove? (index : Nat) (set : List Selection) : Option (List Selection) :=
  if index < set.length then some (set.eraseIdx index) else none

/-- A set with a selection put in at a number. It fails if that is behind the end. -/
def insert? (index : Nat) (s : Selection) (set : List Selection) : Option (List Selection) :=
  if index ≤ set.length then some (set.insertIdx index s) else none

/-- A set without the selections of some numbers, taken out one after the other as far as they are
there. -/
def removeEach? : List Nat → List Selection → Option (List Selection)
  | [], set => some set
  | index :: rest, set =>
    if index < set.length then (remove? index set).bind (removeEach? rest)
    else removeEach? rest set

/-- A set with a selection in place of those of some numbers, of which there is at least one. The
numbers are sorted, and each is kept once. The selections are taken out from the last one to the
first one, and the new one is put in where the first one was, or at the end. -/
def replace? (indices : List Nat) (s : Selection) (set : List Selection) :
    Option (List Selection) := do
  let numbers := indices.mergeSort.destutter (· ≠ ·)
  let first ← numbers.head?
  let kept ← removeEach? numbers.reverse set
  insert? (min first kept.length) s kept

end Checked

/-- Taking out selections from the last one to the first one never goes wrong. -/
theorem Checked.removeEach?_eq {numbers : List Nat} (h : numbers.Pairwise (· > ·))
    (set : List Selection) : removeEach? numbers set = some (without numbers set) := by
  induction numbers generalizing set with
  | nil => exact congrArg some (numbered_eq_self_iff.mpr fun _ _ => rfl).symm
  | cons index rest ih =>
    -- The numbers that are still to come are smaller and name the same selections as before.
    obtain ⟨hindex, hrest⟩ := List.pairwise_cons.mp h
    rw [without_cons hindex, ← ih hrest, removeEach?]
    split
    · rename_i hlt
      rw [remove?, if_pos hlt, Option.bind_some]
    · rename_i hlt
      rw [List.eraseIdx_of_length_le (Nat.le_of_not_lt hlt)]

/-- The numbers that are left of a sorted list. -/
theorem Checked.numbers_spec (indices : List Nat) :
    (indices.mergeSort.destutter (· ≠ ·)).Pairwise (· < ·) ∧
      ∀ i, i ∈ indices.mergeSort.destutter (· ≠ ·) ↔ i ∈ indices := by
  -- In a sorted list equal numbers stand side by side, so that none is left twice.
  have hsorted : indices.mergeSort.Pairwise (· ≤ ·) := List.pairwise_mergeSort' _ _
  rw [hsorted.destutter_eq_dedup]
  constructor
  · refine (List.Pairwise.and (hsorted.sublist (List.dedup_sublist _)) (List.nodup_dedup _)).imp ?_
    exact fun h => Nat.lt_of_le_of_ne h.1 h.2
  · intro i
    rw [List.mem_dedup, List.mem_mergeSort]

/-- Of numbers in order, the first one is the least. -/
theorem Checked.head?_eq {numbers : List Nat} (h : numbers.Pairwise (· < ·))
    (hmem : ∀ i, i ∈ numbers ↔ i ∈ indices) : numbers.head? = indices.min? := by
  cases numbers with
  | nil =>
    have hnil : indices = [] := List.eq_nil_iff_forall_not_mem.mpr fun i hi =>
      List.not_mem_nil ((hmem i).mpr hi)
    rw [hnil]
    rfl
  | cons first rest =>
    refine (List.min?_eq_some_iff.mpr ⟨(hmem first).mp List.mem_cons_self, fun i hi => ?_⟩).symm
    rcases List.mem_cons.mp ((hmem i).mpr hi) with rfl | hi
    · exact Nat.le_refl i
    · exact Nat.le_of_lt ((List.pairwise_cons.mp h).1 i hi)

/-- Selections are taken out one at a time and one is put in, with all numbers in bounds. -/
theorem Checked.replace?_eq (hfirst : indices.min? = some first) (s : Selection)
    (set : List Selection) :
    replace? indices s set = some (insertAt first s (without indices set)) := by
  obtain ⟨hascending, hmem⟩ := numbers_spec indices
  have hkept : removeEach? (indices.mergeSort.destutter (· ≠ ·)).reverse set =
      some (without indices set) := by
    rw [removeEach?_eq (List.pairwise_reverse.mpr hascending)]
    refine congrArg some (without_congr (fun i => ?_) set)
    rw [List.mem_reverse, hmem]
  rw [replace?, head?_eq hascending hmem, hfirst]
  simp only [Option.bind_eq_bind, Option.bind_some, hkept, insert?, if_pos (Nat.min_le_right _ _),
    insertAt_eq_insertIdx_min first s]

end Selection

/-! ## Plans -/

namespace FragmentPlan

variable (plan : FragmentPlan) (name : String)

/-- The names that a spread for a plan needs, in the order in which they are checked. -/
def names : List String := plan.variableTypes.map (·.1) ++ [name]

/-- The directives that pass on the variables of a plan, if there are any. -/
def passing : List Directive :=
  if plan.variableTypes = [] then []
  else [⟨"arguments", plan.variableTypes.map fun p => ⟨p.1, .var p.1 none⟩⟩]

/-- The spread for a plan. -/
def spread : Selection := .spread ⟨name, plan.passing, none⟩

/-- Whether all that a plan takes out of a set is the very spread that is put in. -/
def PutsBack (set : List Selection) : Prop :=
  ∃ first, plan.indices.min? = some first ∧
    (∃ old, set[first]? = some old ∧ (plan.spread name).same old = true) ∧
    ∀ i ∈ plan.indices, i < set.length → i = first

/-- The variables are passed on, unless one of them has no name that can be written. -/
theorem passedOn_eq : plan.passedOn =
    match (plan.variableTypes.map (·.1)).find? fun text => !isName text with
    | some text => .error (.invalidName text)
    | none => .ok plan.passing := by
  unfold passedOn passing
  cases plan.variableTypes with
  | nil => rfl
  | cons p rest =>
    rw [List.isEmpty_cons, if_neg Bool.false_ne_true,
      mapM_checkedName_eq (p :: rest) fun name _ => ⟨name, .var name none⟩]
    cases ((p :: rest).map (·.1)).find? fun text => !isName text <;> rfl

/-- The spread for a plan is made, unless one of the names cannot be written. -/
theorem bind_newSpread_eq : (plan.passedOn >>= Selection.newSpread name) =
    match (plan.names name).find? fun text => !isName text with
    | some text => .error (.invalidName text)
    | none => .ok (plan.spread name) := by
  rw [passedOn_eq, names, List.find?_append]
  cases (plan.variableTypes.map (·.1)).find? fun text => !isName text with
  | some text => rfl
  | none =>
    -- The variables are in order, so that it is up to the name of the fragment.
    show Selection.newSpread name plan.passing = _
    rw [Option.none_or, List.find?_singleton, Selection.newSpread, checkedName]
    cases isName name <;> rfl

end FragmentPlan

namespace Document

variable {d : Document} {plan : FragmentPlan} {name : String}

/-- A spread is put in for a plan with names that can be written. -/
theorem replaceWithSpread_eq (d : Document) (plan : FragmentPlan) (name : String) :
    d.replaceWithSpread plan name =
      match (plan.names name).find? fun text => !isName text with
      | some text => .error (.invalidName text)
      | none =>
        match plan.indices.min? with
        | none => .ok d
        | some first => d.changeSelections plan.target fun set =>
            Selection.insertAt first (plan.spread name) (Selection.without plan.indices set) := by
  -- The spread is made before anything is looked up in the document.
  have hspread : d.replaceWithSpread plan name =
      (plan.passedOn >>= Selection.newSpread name) >>= fun spread =>
        match plan.indices.min? with
        | none => .ok d
        | some first => d.changeSelections plan.target fun set =>
            Selection.insertAt first spread (Selection.without plan.indices set) := by
    rw [replaceWithSpread]
    cases plan.passedOn <;> rfl
  rw [hspread, plan.bind_newSpread_eq]
  cases (plan.names name).find? fun text => !isName text <;> rfl

/-- A change of the selections of a node is made, and gives the same document if the selections are
the same. -/
theorem exists_changeSelections_eq {a : Address} {n : Node} (hn : d.get? a = some n)
    (change : List Selection → List Selection) :
    ∃ d', d.set? a (n.withSelections (change n.selections)) = some d' ∧
      d.changeSelections a change = .ok d' ∧
      d'.same d = Selection.sameSet (change n.selections) n.selections := by
  obtain ⟨d', hd'⟩ := exists_set? hn (n.sameKind_withSelections (change n.selections))
  refine ⟨d', hd', changeSelections_eq_ok hn hd', ?_⟩
  rw [same_set? hd' hn, n.same_withSelections]

/-- A change of selections is refused only if their node is not there. -/
theorem changeSelections_eq_error_iff {a : Address} {change : List Selection → List Selection}
    {e : EditError} :
    d.changeSelections a change = .error e ↔ d.get? a = none ∧ EditError.nodeNotFound a = e := by
  cases hn : d.get? a with
  | none =>
    rw [changeSelections, modify?, hn]
    simp
  | some n =>
    obtain ⟨d', -, hd', -⟩ := exists_changeSelections_eq hn change
    simp [hd']

section Named

variable (hnames : ∀ text ∈ plan.names name, isName text = true)

include hnames

/-- A plan with names leaves the document as it is, or changes the selections of its target. -/
theorem replaceWithSpread_of_names : d.replaceWithSpread plan name =
    match plan.indices.min? with
    | none => .ok d
    | some first => d.changeSelections plan.target fun set =>
        Selection.insertAt first (plan.spread name) (Selection.without plan.indices set) := by
  have hnone : (plan.names name).find? (fun text => !isName text) = none := by
    rw [List.find?_eq_none]
    intro text htext
    simp [hnames text htext]
  rw [replaceWithSpread_eq, hnone]

/-- The same document comes back if no selection is listed or the spread takes its own place. -/
theorem replaceWithSpread_same_iff :
    (∃ d', d.replaceWithSpread plan name = .ok d' ∧ d'.same d = true) ↔
      plan.indices = [] ∨
        ∃ node, d.get? plan.target = some node ∧ plan.PutsBack name node.selections := by
  rw [replaceWithSpread_of_names hnames]
  cases hfirst : plan.indices.min? with
  | none =>
    -- Nothing is listed, and the document itself is given back.
    exact iff_of_true ⟨d, rfl, d.same_self⟩ (.inl (List.min?_eq_none_iff.mp hfirst))
  | some first =>
    have hne : plan.indices ≠ [] := by
      intro hnil
      rw [hnil] at hfirst
      cases hfirst
    rw [or_iff_right hne]
    cases hn : d.get? plan.target with
    | none =>
      -- A target that is not there is an error, and no document comes back.
      refine iff_of_false ?_ (by simp)
      rintro ⟨d', hd', -⟩
      cases hd'.symm.trans (changeSelections_eq_error_iff.mpr ⟨hn, rfl⟩)
    | some node =>
      -- The document is the same exactly if the set of the target is.
      obtain ⟨d', -, hd', hsame⟩ := exists_changeSelections_eq hn fun set =>
        Selection.insertAt first (plan.spread name) (Selection.without plan.indices set)
      have hback : plan.PutsBack name node.selections ↔ d'.same d = true := by
        rw [hsame, Selection.sameSet_insertAt_without_iff hfirst]
        simp [FragmentPlan.PutsBack, hfirst]
      simp [hd', hback]

end Named

/-- A spread is put in for a plan of any kind, or it is said what is wrong: the first of the names
that cannot be written, or a target that is not there. A plan without selections leaves the document
as it is. Any other plan gives a document that is not the same, unless all that it takes out is the
very spread that is put in. It keeps the selections that are not listed, in their order, with the
spread between those in front of the first listed one and those behind it, and no number by which
they are taken out, or at which the spread is put in, is out of bounds. -/
theorem replaceWithSpread_spec (d : Document) (plan : FragmentPlan) (name : String) :
    (∀ text, d.replaceWithSpread plan name = .error (.invalidName text) ↔
      (plan.names name).find? (fun text => !isName text) = some text) ∧
    ((∀ text ∈ plan.names name, isName text = true) →
      (plan.indices = [] → d.replaceWithSpread plan name = .ok d) ∧
      ((∃ d', d.replaceWithSpread plan name = .ok d' ∧ d'.same d = true) ↔
        plan.indices = [] ∨
          ∃ node, d.get? plan.target = some node ∧ plan.PutsBack name node.selections) ∧
      ∀ first, plan.indices.min? = some first →
        (d.replaceWithSpread plan name = .error (.nodeNotFound plan.target) ↔
          d.get? plan.target = none) ∧
        ∀ node, d.get? plan.target = some node → ∃ new d',
          Selection.Checked.replace? plan.indices (plan.spread name) node.selections = some new ∧
          new = Selection.numbered (fun i => !plan.indices.contains i && decide (i < first))
              node.selections ++ plan.spread name ::
            Selection.numbered (fun i => !plan.indices.contains i && decide (first < i))
              node.selections ∧
          d.set? plan.target (node.withSelections new) = some d' ∧
          d.replaceWithSpread plan name = .ok d') := by
  refine ⟨fun text => ?_, fun hnames => ⟨?_, replaceWithSpread_same_iff hnames, ?_⟩⟩
  · rw [replaceWithSpread_eq]
    cases (plan.names name).find? fun text => !isName text with
    | some other => simp
    | none =>
      cases plan.indices.min? with
      | none => simp
      | some first => simp [changeSelections_eq_error_iff]
  · intro hnil
    rw [replaceWithSpread_of_names hnames, hnil]
    rfl
  · intro first hfirst
    rw [replaceWithSpread_of_names hnames, hfirst]
    refine ⟨by simp [changeSelections_eq_error_iff], fun node hnode => ?_⟩
    obtain ⟨d', hset, hd', -⟩ := exists_changeSelections_eq hnode fun set =>
      Selection.insertAt first (plan.spread name) (Selection.without plan.indices set)
    exact ⟨_, d', Selection.Checked.replace?_eq hfirst _ _,
      Selection.insertAt_without hfirst _ _, hset, hd'⟩

/-- A query of nothing but a spread, over several lines. -/
def spreadQuery : String := "\x7b\n  ...F\n\x7d"

/-- Not every plan with a listed selection changes the document: the line of the spread of `F`,
moved into a fragment that is called `F` as well, leaves the spread where it was. -/
theorem not_replaceWithSpread_same_iff :
    ¬ ∀ (d : Document) (plan : FragmentPlan) (name : String),
      (∀ text ∈ plan.names name, isName text = true) →
        ((∃ d', d.replaceWithSpread plan name = .ok d' ∧ d'.same d = true) ↔
          plan.indices = []) := by
  intro h
  -- The plan lists the spread, and the document that comes back is the same.
  have hfound : ((Schema.ofTexts? ["type Query \x7b a: Int \x7d"]).bind fun schema =>
      (parse? spreadQuery).bind fun d =>
        (FragmentPlan.find? schema d spreadQuery ⟨1, 1⟩).map fun plan =>
          decide (plan.indices = [0]) && (plan.names "F").all isName &&
            match d.replaceWithSpread plan "F" with
            | .ok d' => d'.same d
            | .error _ => false) = some true := by
    decide +kernel
  obtain ⟨schema, -, hfound⟩ := Option.bind_eq_some_iff.mp hfound
  obtain ⟨d, -, hfound⟩ := Option.bind_eq_some_iff.mp hfound
  obtain ⟨plan, -, hfound⟩ := Option.map_eq_some_iff.mp hfound
  simp only [Bool.and_eq_true, decide_eq_true_eq] at hfound
  obtain ⟨⟨hindices, hnames⟩, hsame⟩ := hfound
  split at hsame
  · rename_i d' hreplaced
    have hnil := (h d plan "F" (List.all_eq_true.mp hnames)).mp ⟨d', hreplaced, hsame⟩
    rw [hindices] at hnil
    cases hnil
  · cases hsame

end Document
end EmbeddedGraphQL
