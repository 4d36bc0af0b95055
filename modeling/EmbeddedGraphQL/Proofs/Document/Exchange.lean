import EmbeddedGraphQL.Proofs.Document.Grammatical
import EmbeddedGraphQL.Proofs.Document.RereadDefinitions
import EmbeddedGraphQL.Proofs.Walk.Inherited

/-!
# Exchanging parts of a grammatical document

What can be written at one depth can be written further out as well, and a node of a grammatical
document can be exchanged for another one that can be written at its depth.

* `Value.Grammatical.mono`, `Selection.Grammatical.mono`: a greater allowance of depth.
* `Node.Grammatical`: nodes within an allowance of depth, which is handed down.
* `Document.Grammatical.set?`: a node exchanged for a grammatical one.
* `Document.reprintable_set?_iff`: what is printed for a document is read again if it was before.
-/

namespace EmbeddedGraphQL

open Grammar (maxDepth)

/-! ## Depth -/

mutual

/-- A value can be written within every greater allowance of depth. -/
theorem Value.Grammatical.mono {const : Bool} {depth more : Nat} (hle : depth ≤ more) (v : Value)
    (h : v.Grammatical const depth) : v.Grammatical const more := by
  cases v with
  | list items => exact Value.grammaticalItems_mono hle items h
  | object fields => exact Value.grammaticalFields_mono hle fields h
  | _ => exact h

/-- The items of a list can be written within every greater allowance of depth. -/
theorem Value.grammaticalItems_mono {const : Bool} {depth more : Nat} (hle : depth ≤ more)
    (items : List Value) (h : GrammaticalItems const depth items) :
    GrammaticalItems const more items := by
  cases items with
  | nil => trivial
  | cons v rest =>
    obtain ⟨⟨hpos, hv⟩, hrest⟩ := h
    exact ⟨⟨by omega, Value.Grammatical.mono (by omega) v hv⟩,
      Value.grammaticalItems_mono hle rest hrest⟩

/-- The fields of an object can be written within every greater allowance of depth. -/
theorem Value.grammaticalFields_mono {const : Bool} {depth more : Nat} (hle : depth ≤ more)
    (fields : List (String × Value)) (h : GrammaticalFields const depth fields) :
    GrammaticalFields const more fields := by
  cases fields with
  | nil => trivial
  | cons field rest =>
    obtain ⟨name, v⟩ := field
    obtain ⟨⟨hname, hpos, hv⟩, hrest⟩ := h
    exact ⟨⟨hname, by omega, Value.Grammatical.mono (by omega) v hv⟩,
      Value.grammaticalFields_mono hle rest hrest⟩

end

section Heads

variable {depth more : Nat}

/-- An argument that is grammatical at some depth is so at a greater one. -/
theorem Argument.Grammatical.mono {const : Bool} (hle : depth ≤ more) {a : Argument}
    (h : a.Grammatical const depth) : a.Grammatical const more :=
  ⟨h.name, Value.Grammatical.mono hle _ h.value⟩

/-- A directive that is grammatical at some depth is so at a greater one. -/
theorem Directive.Grammatical.mono {const : Bool} (hle : depth ≤ more) {d : Directive}
    (h : d.Grammatical const depth) : d.Grammatical const more :=
  ⟨h.name, fun a ha => (h.arguments a ha).mono hle⟩

/-- A field that is grammatical at some depth is so at a greater one. -/
theorem Field.Grammatical.mono (hle : depth ≤ more) {f : Field} (h : f.Grammatical depth) :
    f.Grammatical more :=
  ⟨h.aliasName, h.name, fun a ha => (h.arguments a ha).mono hle,
    fun d hd => (h.directives d hd).mono hle⟩

/-- An inline fragment that is grammatical at some depth is so at a greater one. -/
theorem InlineFragment.Grammatical.mono (hle : depth ≤ more) {f : InlineFragment}
    (h : f.Grammatical depth) : f.Grammatical more :=
  ⟨h.typeCondition, fun d hd => (h.directives d hd).mono hle⟩

/-- A spread that is grammatical at some depth is so at a greater one. -/
theorem FragmentSpread.Grammatical.mono (hle : depth ≤ more) {s : FragmentSpread}
    (h : s.Grammatical depth) : s.Grammatical more :=
  ⟨h.name, h.notOn, fun d hd => (h.directives d hd).mono hle⟩

end Heads

mutual

/-- A selection can be written within every greater allowance of depth. -/
theorem Selection.Grammatical.mono {depth more : Nat} (hle : depth ≤ more) (s : Selection)
    (h : s.Grammatical depth) : s.Grammatical more := by
  cases s with
  | field f set => exact ⟨h.1.mono hle, Selection.grammaticalSet_mono hle set h.2⟩
  | inline f set => exact ⟨h.1.mono hle, h.2.1, Selection.grammaticalSet_mono hle set h.2.2⟩
  | spread s => exact FragmentSpread.Grammatical.mono hle h

/-- A selection set can be written within every greater allowance of depth. -/
theorem Selection.grammaticalSet_mono {depth more : Nat} (hle : depth ≤ more)
    (set : List Selection) (h : GrammaticalSet depth set) : GrammaticalSet more set := by
  cases set with
  | nil => trivial
  | cons s rest =>
    obtain ⟨⟨hpos, hs⟩, hrest⟩ := h
    exact ⟨⟨by omega, Selection.Grammatical.mono (by omega) s hs⟩,
      Selection.grammaticalSet_mono hle rest hrest⟩

end

/-! ## Nodes -/

namespace Node

/-- Whether a node can be written within an allowance of depth; a definition has the whole of it. -/
def Grammatical (depth : Nat) : Node → Prop
  | .operation o => o.Grammatical
  | .fragment f => f.Grammatical
  | .field f set => Selection.Grammatical depth (.field f set)
  | .inline f set => Selection.Grammatical depth (.inline f set)

/-- How deep what is in the set of a node may be nested. -/
def setDepth (depth : Nat) : Node → Nat
  | .operation _ | .fragment _ => maxDepth
  | .field _ _ | .inline _ _ => depth

/-- The selections of a grammatical node can be written. -/
theorem Grammatical.selections {depth : Nat} {n : Node} (h : n.Grammatical depth) :
    Selection.GrammaticalSet (n.setDepth depth) n.selections := by
  cases n with
  | operation o => exact Operation.Grammatical.selections h
  | fragment f => exact Fragment.Grammatical.selections h
  | field f set => exact h.2
  | inline f set => exact h.2.2

/-- A grammatical node stays so with other selections that can be written; something is still
selected on it if there was. -/
theorem Grammatical.withSelections {depth : Nat} {n : Node} {set : List Selection}
    (h : n.Grammatical depth) (hset : Selection.GrammaticalSet (n.setDepth depth) set)
    (hne : n.selections ≠ [] → set ≠ []) : (n.withSelections set).Grammatical depth := by
  cases n with
  | operation o =>
    exact ⟨h.name, h.variableDefinitions, h.directives, hne h.nonempty, hset⟩
  | fragment f => exact ⟨h.name, h.notOn, h.typeCondition, h.directives, hne h.nonempty, hset⟩
  | field f old => exact ⟨h.1, hset⟩
  | inline f old => exact ⟨h.1, hne h.2.1, hset⟩

/-- Other selections leave the depth that a set may have. -/
theorem setDepth_withSelections (depth : Nat) (n : Node) (set : List Selection) :
    (n.withSelections set).setDepth depth = n.setDepth depth := by
  cases n <;> rfl

/-- A selection that is a node can be written if the node can. -/
theorem grammatical_of_ofSelection? {depth : Nat} {s : Selection} {n : Node}
    (h : ofSelection? s = some n) : s.Grammatical depth ↔ n.Grammatical depth := by
  cases s with
  | spread s => cases h
  | _ =>
    cases h
    rfl

/-- Being grammatical is handed down; each level takes one from the allowance of depth. -/
theorem handedDown_grammatical :
    HandedDown (fun depth n => n.setDepth depth - 1) Grammatical where
  down h hs hm :=
    (grammatical_of_ofSelection? hm).mp (Selection.grammaticalSet_iff.mp h.selections _ hs).2
  exchange {depth n index new m} h hindex hm := by
    rw [← grammatical_of_ofSelection? hm]
    have hold := Selection.grammaticalSet_iff.mp h.selections
    -- Something is selected there already, so that one more level is allowed for the new one.
    have hpos : 0 < n.setDepth depth := (hold _ (List.getElem_mem hindex)).1
    constructor
    · intro hnew
      have hset := Selection.grammaticalSet_iff.mp hnew.selections
      rw [selections_withSelections, setDepth_withSelections] at hset
      exact (hset new (List.mem_set hindex new)).2
    · intro hnew
      refine h.withSelections (Selection.grammaticalSet_iff.mpr fun s hs => ?_) ?_
      · exact (List.mem_or_eq_of_mem_set hs).elim (hold s) (· ▸ ⟨hpos, hnew⟩)
      · exact fun hne => (List.set_eq_nil_iff _ _).not.mpr hne

end Node

/-! ## Documents -/

/-- A definition that is a node can be written if the node can. -/
theorem Definition.grammatical_of_ofDefinition? {depth : Nat} {x : Definition} {n : Node}
    (h : Node.ofDefinition? x = some n) : x.Grammatical ↔ n.Grammatical depth := by
  cases x <;> cases h <;> rfl

/-- What is printed for a definition that is a node can be read. -/
theorem Definition.reprintable_of_ofDefinition? {x : Definition} {n : Node}
    (h : Node.ofDefinition? x = some n) : x.Reprintable := by
  cases x <;> cases h <;> trivial

namespace Document

variable {d d' : Document} {a : Address} {line : List Node} {n m : Node}

/-- How deep a node that stands inside some others may be nested. -/
def depthInside (line : List Node) : Nat :=
  Node.contextIn (fun depth n => n.setDepth depth - 1) maxDepth line

/-- No set is allowed more than the whole depth. -/
theorem setDepth_depthInside_le (n : Node) (line : List Node) :
    n.setDepth (depthInside line) ≤ maxDepth := by
  have hline : depthInside line ≤ maxDepth := by
    induction line with
    | nil => exact Nat.le_refl _
    | cons m line ih =>
      change m.setDepth (depthInside line) - 1 ≤ maxDepth
      cases m <;> simp only [Node.setDepth] <;> omega
  cases n <;> simp only [Node.setDepth] <;> omega

/-- The roots of a grammatical document are grammatical at full depth. -/
theorem Grammatical.rootsHave (h : d.Grammatical) : d.RootsHave (Node.Grammatical maxDepth) := by
  intro index n hn
  obtain ⟨x, hx, hxn⟩ := Option.bind_eq_some_iff.mp hn
  exact (Definition.grammatical_of_ofDefinition? hxn).mp
    (h.definitions x (List.mem_of_getElem? hx))

/-- Every node of a grammatical document can be written where it stands. -/
theorem Grammatical.node (h : d.Grammatical) (hin : Standing.In d ⟨a, line, .node n⟩) :
    n.Grammatical (depthInside line) :=
  hin.handedDown Node.handedDown_grammatical h.rootsHave

/-- A node of a grammatical document can be exchanged for one that can be written at its depth. -/
theorem Grammatical.set? (h : d.Grammatical) (hin : Standing.In d ⟨a, line, .node n⟩)
    (hset : d.set? a m = some d') (hm : m.Grammatical (depthInside line)) : d'.Grammatical := by
  -- The principle speaks of operations and fragments only; the other definitions stay as they are.
  have hroots := (handedDown_set?_iff Node.handedDown_grammatical h.rootsHave hin hset).mpr hm
  obtain ⟨old, root, changed, new, hold, -, -, hnew, rfl⟩ := set?_eq_some_iff.mp hset
  refine ⟨(List.set_eq_nil_iff _ _).not.mpr h.nonempty, fun x hx => ?_⟩
  rcases List.mem_or_eq_of_mem_set hx with hx | rfl
  · exact h.definitions x hx
  · exact (Definition.grammatical_of_ofDefinition? (ofDefinition?_of_replaceDefinition? hnew)).mpr
      (hroots _ _ (root?_set hold hnew))

/-- Exchanging a node does not matter to whether a document can be read from what is printed. -/
theorem reprintable_set?_iff (hset : d.set? a m = some d') : d'.Reprintable ↔ d.Reprintable := by
  obtain ⟨old, root, changed, new, hold, hroot, -, hnew, rfl⟩ := set?_eq_some_iff.mp hset
  constructor
  · intro h x hx
    obtain ⟨index, hindex⟩ := List.getElem?_of_mem hx
    by_cases heq : a.definition = index
    · rw [← heq, hold, Option.some.injEq] at hindex
      exact Definition.reprintable_of_ofDefinition? (hindex ▸ hroot)
    · exact h x (List.mem_of_getElem? ((List.getElem?_set_ne heq).trans hindex))
  · intro h x hx
    rcases List.mem_or_eq_of_mem_set hx with hx | rfl
    · exact h x hx
    · exact Definition.reprintable_of_ofDefinition? (ofDefinition?_of_replaceDefinition? hnew)

end Document
end EmbeddedGraphQL
