import EmbeddedGraphQL.Document.Value
import EmbeddedGraphQL.Proofs.Walk.Standing

/-!
# Variables in values

A value is a tree: lists have items and objects have fields. A path of steps leads from a value to a
part of it at any depth. The variables of a value are those parts that are variables, each with the
path that leads to it.

* `Value.at?`: the part of a value at the end of a path.
* `Value.uses`: the variables of a value, from left to right.
* `Value.mem_uses_iff`: the list holds every variable that a path leads to, and nothing else.
* `Value.uses_pairwise`: it is in the order of the paths, so that each comes once.
-/

namespace EmbeddedGraphQL

/-- A step from a value to one of its parts. -/
inductive ValueStep where
  /-- To an item of a list. -/
  | item (index : Nat)
  /-- To a field of an object; a name may be repeated, so that fields are numbered too. -/
  | field (index : Nat) (name : String)
deriving DecidableEq

/-- The number of the part that a step leads to. -/
def ValueStep.index : ValueStep → Nat
  | .item index => index
  | .field index _ => index

/-- A variable in a value. -/
structure VariableUse where
  /-- The steps that lead to it. -/
  path : List ValueStep
  /-- The name. -/
  name : String
  /-- Where in the source it stands. -/
  span : Option Span

namespace VariableUse

/-- The use as seen from a value that is one step further out. -/
def under (step : ValueStep) (u : VariableUse) : VariableUse := { u with path := step :: u.path }

/-- Whether a use comes before another one in the same value: its path branches off to the left. -/
def Before (u w : VariableUse) : Prop := u.path.map ValueStep.index < w.path.map ValueStep.index

end VariableUse

namespace Value

/-! ## Parts -/

/-- The part of a value that a step leads to. -/
def part? : Value → ValueStep → Option Value
  | .list items, .item index => items[index]?
  | .object fields, .field index name =>
    fields[index]?.bind fun field => if field.1 = name then some field.2 else none
  | _, _ => none

/-- The part of a value at the end of a path. -/
def at? : Value → List ValueStep → Option Value
  | v, [] => some v
  | v, step :: path => (v.part? step).bind fun part => part.at? path

/-- The parts of a value one step further in, from left to right. -/
def parts : Value → List (ValueStep × Value)
  | .list items => items.zipIdx.map fun (v, index) => (.item index, v)
  | .object fields => fields.zipIdx.map fun ((name, v), index) => (.field index name, v)
  | _ => []

/-- Whether a value is a variable. -/
def IsVar (v : Value) : Prop := ∃ name span, v = .var name span

/-- The parts are what single steps lead to. -/
theorem mem_parts_iff {v part : Value} {step : ValueStep} :
    (step, part) ∈ v.parts ↔ v.part? step = some part := by
  cases v with
  | list items =>
    cases step <;> simp [parts, part?, List.mem_map, List.mem_zipIdx_iff_getElem?]
  | object fields =>
    cases step with
    | item index => simp [parts, part?]
    | field index name =>
      simp only [parts, part?, List.mem_map, Prod.exists, List.mem_zipIdx_iff_getElem?,
        Prod.mk.injEq, ValueStep.field.injEq, Option.bind_eq_some_iff, Option.ite_none_right_eq_some,
        Option.some.injEq]
      constructor
      · rintro ⟨_, _, _, hfield, ⟨rfl, rfl⟩, rfl⟩
        exact ⟨_, _, hfield, rfl, rfl⟩
      · rintro ⟨_, _, hfield, rfl, rfl⟩
        exact ⟨_, _, _, hfield, ⟨rfl, rfl⟩, rfl⟩
  | _ => simp [parts, part?]

/-- The parts are numbered from left to right. -/
theorem parts_pairwise (v : Value) : v.parts.Pairwise fun p q => p.1.index < q.1.index := by
  cases v with
  | list items => exact List.pairwise_map.mpr (zipIdx_pairwise items)
  | object fields => exact List.pairwise_map.mpr (zipIdx_pairwise fields)
  | _ => exact .nil

/-- A part is smaller than the value. -/
theorem sizeOf_lt_of_mem_parts {v : Value} {p : ValueStep × Value} (h : p ∈ v.parts) :
    sizeOf p.2 < sizeOf v := by
  cases v with
  | list items =>
    obtain ⟨⟨w, index⟩, hw, rfl⟩ := List.mem_map.mp h
    have hlt : sizeOf w < sizeOf items := List.sizeOf_lt_of_mem (List.fst_mem_of_mem_zipIdx hw)
    simp only [list.sizeOf_spec]
    omega
  | object fields =>
    obtain ⟨⟨⟨name, w⟩, index⟩, hw, rfl⟩ := List.mem_map.mp h
    have hlt := List.sizeOf_lt_of_mem (List.fst_mem_of_mem_zipIdx hw)
    simp only [object.sizeOf_spec, Prod.mk.sizeOf_spec] at hlt ⊢
    omega
  | _ => simp [parts] at h

/-- What holds of variables, and of any other value if it holds of its parts, holds of all
values. -/
theorem parts_induction {P : Value → Prop} (var : ∀ name span, P (.var name span))
    (other : ∀ v, ¬ v.IsVar → (∀ p ∈ v.parts, P p.2) → P v) (v : Value) : P v := by
  by_cases hv : v.IsVar
  · obtain ⟨name, span, rfl⟩ := hv
    exact var name span
  · exact other v hv fun p hp => parts_induction var other p.2
termination_by sizeOf v
decreasing_by exact sizeOf_lt_of_mem_parts hp

/-! ## Uses -/

mutual

/-- The variables of a value, from left to right. -/
def uses : Value → List VariableUse
  | .var name span => [⟨[], name, span⟩]
  | .list items => itemUses 0 items
  | .object fields => fieldUses 0 fields
  | .null | .boolean _ | .enum _ | .int _ | .float _ | .string _ => []

/-- The variables of the items of a list from a number on. -/
def itemUses (index : Nat) : List Value → List VariableUse
  | [] => []
  | v :: rest => v.uses.map (·.under (.item index)) ++ itemUses (index + 1) rest

/-- The variables of the fields of an object from a number on. -/
def fieldUses (index : Nat) : List (String × Value) → List VariableUse
  | [] => []
  | (name, v) :: rest => v.uses.map (·.under (.field index name)) ++ fieldUses (index + 1) rest

end

/-- The uses in a list are those of its items, each under its index. -/
theorem itemUses_eq (index : Nat) (items : List Value) :
    itemUses index items =
      (items.zipIdx index).flatMap fun p => p.1.uses.map (·.under (.item p.2)) := by
  induction items generalizing index with
  | nil => rfl
  | cons v rest ih => rw [itemUses, ih, List.zipIdx_cons, List.flatMap_cons]

/-- The uses in an object are those of its fields, each under its index and name. -/
theorem fieldUses_eq (index : Nat) (fields : List (String × Value)) :
    fieldUses index fields =
      (fields.zipIdx index).flatMap fun p => p.1.2.uses.map (·.under (.field p.2 p.1.1)) := by
  induction fields generalizing index with
  | nil => rfl
  | cons field rest ih =>
    obtain ⟨name, v⟩ := field
    rw [fieldUses, ih, List.zipIdx_cons, List.flatMap_cons]

/-- The variables of a value that is none itself are those of its parts. -/
theorem uses_eq_flatMap {v : Value} (hv : ¬ v.IsVar) :
    v.uses = v.parts.flatMap fun p => p.2.uses.map (·.under p.1) := by
  cases v with
  | var name span => exact absurd ⟨name, span, rfl⟩ hv
  | list items => rw [uses, itemUses_eq, parts, List.flatMap_map]
  | object fields => rw [uses, fieldUses_eq, parts, List.flatMap_map]
  | _ => rfl

/-- The list of uses holds what paths lead to, if it is a variable. -/
theorem mem_uses_iff (v : Value) {u : VariableUse} :
    u ∈ v.uses ↔ v.at? u.path = some (.var u.name u.span) := by
  induction v using parts_induction generalizing u with
  | var name span =>
    obtain ⟨path, _, _⟩ := u
    cases path with
    | nil => simp [uses, at?, eq_comm]
    | cons step path => simp [uses, at?, part?]
  | other v hv ih =>
    -- A use in any other value is a use in one of its parts, one step further on.
    rw [uses_eq_flatMap hv, List.mem_flatMap]
    constructor
    · rintro ⟨⟨step, part⟩, hpart, hu⟩
      obtain ⟨w, hw, rfl⟩ := List.mem_map.mp hu
      rw [VariableUse.under, at?, mem_parts_iff.mp hpart, Option.bind_some]
      exact (ih _ hpart).mp hw
    · intro hu
      obtain ⟨path, name, span⟩ := u
      cases path with
      | nil => exact absurd ⟨name, span, Option.some.inj hu⟩ hv
      | cons step path =>
        obtain ⟨part, hpart, hat⟩ := Option.bind_eq_some_iff.mp hu
        have hmem : (step, part) ∈ v.parts := mem_parts_iff.mpr hpart
        exact ⟨_, hmem, List.mem_map.mpr ⟨⟨path, name, span⟩, (ih _ hmem).mpr hat, rfl⟩⟩

/-- The list of uses is in the order of the paths. -/
theorem uses_pairwise (v : Value) : v.uses.Pairwise VariableUse.Before := by
  induction v using parts_induction with
  | var name span => exact List.pairwise_singleton _ _
  | other v hv ih =>
    rw [uses_eq_flatMap hv, List.pairwise_flatMap]
    constructor
    · intro p hp
      -- One step more in front of two paths does not change which of them comes first.
      refine List.pairwise_map.mpr ((ih p hp).imp fun {u w} h => ?_)
      exact List.cons_lt_cons_iff.mpr (Or.inr ⟨rfl, h⟩)
    · refine v.parts_pairwise.imp ?_
      intro p q hpq u hu w hw
      obtain ⟨u, -, rfl⟩ := List.mem_map.mp hu
      obtain ⟨w, -, rfl⟩ := List.mem_map.mp hw
      exact List.cons_lt_cons_iff.mpr (Or.inl hpq)

end Value
end EmbeddedGraphQL
