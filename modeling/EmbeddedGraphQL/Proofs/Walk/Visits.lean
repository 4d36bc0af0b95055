import EmbeddedGraphQL.Walk

/-!
# Visits of a walk

A walk pushes what it enters and pops what it leaves. This file lists its visits without any
popping: what is known at a place is handed down from the outside in, so that it depends on what
stands around the place alone. Every walk is a run of its visitor through that list.

* `Sight`: a visit together with what is known at its place.
* `Visits.ofSelection`, `Visits.ofDocument`: the visits of a walk, in order.
* `Walk.document_eq_run`: a walk shows its visitor these visits and no others.
-/

namespace EmbeddedGraphQL

/-- A visit and what is known at its place. -/
structure Sight where
  /-- What is known at the place. -/
  info : TypeInfo
  /-- What is visited. -/
  visit : Visit

/-- The state of a visitor after a list of visits. -/
def Visitor.run {σ : Type} (visitor : Visitor σ) (sights : List Sight) (state : σ) : σ :=
  sights.foldl (fun state sight => visitor sight.info sight.visit state) state

/-- A walk after a list of visits, at the place where it was before. -/
def Walk.replay {σ : Type} (visitor : Visitor σ) (sights : List Sight) (w : Walk σ) : Walk σ :=
  { w with state := visitor.run sights w.state }

namespace TypeInfo

/-- What is known at a definition of a document. -/
def atDefinition (index : Nat) : TypeInfo := ⟨[], [], [], [], .root, .ofDefinition index⟩

/-- What is known at a field of the current set. -/
def atField (schema : Schema) (f : Field) (info : TypeInfo) : TypeInfo :=
  let found := info.parentTypeName.bind (schema.fieldType? · f.name)
  (info.pushField (found.bind (·.1)) (found.map (·.2))).pushPath f.name

/-- What is known inside the selection set of the innermost field. -/
def underField (info : TypeInfo) : TypeInfo := info.pushParent (info.fieldType.map (·.innerName))

/-- What is known at an inline fragment of the current set, and inside its own set. -/
def atInline (f : InlineFragment) (info : TypeInfo) : TypeInfo :=
  let entered := match f.typeCondition with
    | some condition => info.pushPath condition
    | none => info
  entered.pushParent (f.typeCondition.or entered.parentTypeName)

@[simp] theorem popParent_pushParent (info : TypeInfo) (type : Option String) :
    (info.pushParent type).popParent = info := rfl

@[simp] theorem popField_pushField (info : TypeInfo) (declaration : Option FieldDeclaration)
    (type : Option TypeRef) : (info.pushField declaration type).popField = info := rfl

@[simp] theorem popInput_pushInput (info : TypeInfo) (type : Option TypeRef) :
    (info.pushInput type).popInput = info := rfl

@[simp] theorem popPath_pushPath (info : TypeInfo) (segment : String) :
    (info.pushPath segment).popPath = info := by
  simp [popPath, pushPath, RecordPath.pop, RecordPath.push]

@[simp] theorem popIndex_pushIndex (info : TypeInfo) (index : Nat) :
    (info.pushIndex index).popIndex = info := by
  simp [popIndex, pushIndex, Address.parent, Address.child]

end TypeInfo

/-! ## The list of visits -/

namespace Visits

mutual

/-- The visits of the variables in a value of an expected type. -/
def ofValue (schema : Schema) (info : TypeInfo) (expected : Option TypeRef) : Value → List Sight
  | .var name span => [⟨info.pushInput expected, .var name span⟩]
  | .list items => ofValues schema (info.pushInput expected) (expected.map (·.item)) items
  | .object fields => ofObjectFields schema (info.pushInput expected) expected fields
  | .null | .boolean _ | .enum _ | .int _ | .float _ | .string _ => []

/-- The visits of the variables in the items of a list. -/
def ofValues (schema : Schema) (info : TypeInfo) (expected : Option TypeRef) :
    List Value → List Sight
  | [] => []
  | v :: rest => ofValue schema info expected v ++ ofValues schema info expected rest

/-- The visits of the variables in the fields of an object of an expected type. -/
def ofObjectFields (schema : Schema) (info : TypeInfo) (expected : Option TypeRef) :
    List (String × Value) → List Sight
  | [] => []
  | (name, v) :: rest =>
    ofValue schema info (Walk.objectFieldType schema expected name) v ++
      ofObjectFields schema info expected rest

end

/-- The visits of the variables in arguments, given how they are declared. -/
def ofArguments (schema : Schema) (info : TypeInfo) (declared : Option (List InputDeclaration))
    (args : List Argument) : List Sight :=
  args.flatMap fun a => ofValue schema info (Walk.argumentType declared a.name) a.value

/-- The visits of the variables in directives. -/
def ofDirectives (schema : Schema) (info : TypeInfo) (ds : List Directive) : List Sight :=
  ds.flatMap fun d =>
    ofArguments schema info ((schema.directive? d.name).map (·.arguments)) d.arguments

/-- The visit of a selection set; an empty one is passed over. -/
def ofSet (info : TypeInfo) (owner : Option Span) (set : List Selection) : List Sight :=
  if set.isEmpty then [] else [⟨info, .enterSet set owner⟩]

/-- The visits of a field before its selection set. -/
def ofFieldHead (schema : Schema) (info : TypeInfo) (f : Field) : List Sight :=
  ⟨info, .enterField f⟩ ::
    (ofArguments schema info (info.fieldDeclaration.map (·.arguments)) f.arguments ++
      ofDirectives schema info f.directives)

/-- The visits of an inline fragment before its selection set. -/
def ofInlineHead (schema : Schema) (info : TypeInfo) (f : InlineFragment) : List Sight :=
  ⟨info, .enterInline f⟩ :: ofDirectives schema info f.directives

mutual

/-- The visits of a selection. -/
def ofSelection (schema : Schema) (info : TypeInfo) : Selection → List Sight
  | .field f set =>
    let here := info.atField schema f
    ofFieldHead schema here f ++ ofSet here.underField f.span set ++
      ofSelections schema here.underField 0 set ++ [⟨here, .leaveField f⟩]
  | .inline f set =>
    let here := info.atInline f
    ofInlineHead schema here f ++ ofSet here f.span set ++ ofSelections schema here 0 set ++
      [⟨here, .leaveInline f⟩]
  | .spread s => ⟨info, .spread s⟩ :: ofDirectives schema info s.directives

/-- The visits of the selections of a set from a number on. -/
def ofSelections (schema : Schema) (info : TypeInfo) (index : Nat) : List Selection → List Sight
  | [] => []
  | s :: rest =>
    ofSelection schema (info.pushIndex index) s ++ ofSelections schema info (index + 1) rest

end

/-- The visits of an operation. -/
def ofOperation (schema : Schema) (info : TypeInfo) (o : Operation) : List Sight :=
  let here := info.pushParent (schema.root? o.kind)
  ⟨here, .enterOperation o⟩ ::
    (ofDirectives schema here o.directives ++ ofSet here o.span o.selections ++
      ofSelections schema here 0 o.selections ++ [⟨here, .leaveOperation o⟩])

/-- The visits of a fragment definition. -/
def ofFragment (schema : Schema) (info : TypeInfo) (f : Fragment) : List Sight :=
  let here := info.pushParent (some f.typeCondition)
  ⟨here, .enterFragment f⟩ ::
    (ofDirectives schema here f.directives ++ ofSet here f.span f.selections ++
      ofSelections schema here 0 f.selections ++ [⟨here, .leaveFragment f⟩])

/-- The visits of the definition of a number. -/
def ofDefinition (schema : Schema) (index : Nat) : Definition → List Sight
  | .operation o => ofOperation schema (.atDefinition index) o
  | .fragment f => ofFragment schema (.atDefinition index) f
  | _ => []

/-- The visits of a document. -/
def ofDocument (schema : Schema) (d : Document) : List Sight :=
  d.definitions.zipIdx.flatMap fun (definition, index) => ofDefinition schema index definition

end Visits

/-! ## Walks are runs through the list -/

section Run

variable {σ : Type} (schema : Schema) (visitor : Visitor σ)

@[simp] theorem Visitor.run_nil (state : σ) : visitor.run [] state = state := rfl

@[simp] theorem Visitor.run_cons (sight : Sight) (sights : List Sight) (state : σ) :
    visitor.run (sight :: sights) state =
      visitor.run sights (visitor sight.info sight.visit state) := rfl

@[simp] theorem Visitor.run_append (s t : List Sight) (state : σ) :
    visitor.run (s ++ t) state = visitor.run t (visitor.run s state) :=
  List.foldl_append

/-- What holds of the state at first and is kept at each visit holds at the end. -/
theorem Visitor.run_induction {visitor : Visitor σ} {P : σ → Prop} {sights : List Sight}
    {state : σ} (hfirst : P state)
    (hstep : ∀ s ∈ sights, ∀ state, P state → P (visitor s.info s.visit state)) :
    P (visitor.run sights state) := by
  induction sights generalizing state with
  | nil => exact hfirst
  | cons s sights ih =>
    obtain ⟨hs, hrest⟩ := List.forall_mem_cons.mp hstep
    exact ih (hs state hfirst) hrest

namespace Walk

/-- A walk is known by its place and by the state of its visitor. -/
@[ext] theorem ext {v w : Walk σ} (info : v.info = w.info) (state : v.state = w.state) :
    v = w := by
  cases v
  cases w
  simp_all

@[simp] theorem info_replay (sights : List Sight) (w : Walk σ) :
    (w.replay visitor sights).info = w.info := rfl

@[simp] theorem state_replay (sights : List Sight) (w : Walk σ) :
    (w.replay visitor sights).state = visitor.run sights w.state := rfl

@[simp] theorem info_see (visit : Visit) (w : Walk σ) : (w.see visitor visit).info = w.info := rfl

@[simp] theorem state_see (visit : Visit) (w : Walk σ) :
    (w.see visitor visit).state = visitor w.info visit w.state := rfl

@[simp] theorem info_know (change : TypeInfo → TypeInfo) (w : Walk σ) :
    (w.know change).info = change w.info := rfl

@[simp] theorem state_know (change : TypeInfo → TypeInfo) (w : Walk σ) :
    (w.know change).state = w.state := rfl

mutual

/-- The walk through a value sees its variables and returns to where it was. -/
theorem value_eq_replay (expected : Option TypeRef) (v : Value) (w : Walk σ) :
    value schema visitor expected v w =
      w.replay visitor (Visits.ofValue schema w.info expected v) := by
  cases v with
  | var name span => rfl
  | list items =>
    rw [value, values_eq_replay, Visits.ofValue]
    rfl
  | object fields =>
    rw [value, objectFields_eq_replay, Visits.ofValue]
    rfl
  | _ => rfl

/-- The walk through the items of a list sees their variables. -/
theorem values_eq_replay (expected : Option TypeRef) (items : List Value) (w : Walk σ) :
    values schema visitor expected items w =
      w.replay visitor (Visits.ofValues schema w.info expected items) := by
  cases items with
  | nil => rfl
  | cons v rest =>
    rw [values, value_eq_replay, values_eq_replay, Visits.ofValues]
    ext <;> simp

/-- The walk through the fields of an object sees their variables. -/
theorem objectFields_eq_replay (expected : Option TypeRef) (fields : List (String × Value))
    (w : Walk σ) :
    objectFields schema visitor expected fields w =
      w.replay visitor (Visits.ofObjectFields schema w.info expected fields) := by
  cases fields with
  | nil => rfl
  | cons field rest =>
    obtain ⟨name, v⟩ := field
    rw [objectFields, value_eq_replay, objectFields_eq_replay, Visits.ofObjectFields]
    ext <;> simp

end

/-- The walk through arguments sees their variables. -/
theorem arguments_eq_replay (declared : Option (List InputDeclaration)) (args : List Argument)
    (w : Walk σ) :
    arguments schema visitor declared args w =
      w.replay visitor (Visits.ofArguments schema w.info declared args) := by
  induction args generalizing w with
  | nil => rfl
  | cons a args ih =>
    rw [arguments, List.foldl_cons, ← arguments, ih, value_eq_replay, Visits.ofArguments,
      Visits.ofArguments, List.flatMap_cons]
    ext <;> simp

/-- The walk through directives sees their variables. -/
theorem directives_eq_replay (ds : List Directive) (w : Walk σ) :
    directives schema visitor ds w =
      w.replay visitor (Visits.ofDirectives schema w.info ds) := by
  induction ds generalizing w with
  | nil => rfl
  | cons d ds ih =>
    rw [directives, List.foldl_cons, ← directives, ih, arguments_eq_replay, Visits.ofDirectives,
      Visits.ofDirectives, List.flatMap_cons]
    ext <;> simp

/-- A selection set is seen once unless it is empty. -/
theorem seeSet_eq_replay (owner : Option Span) (set : List Selection) (w : Walk σ) :
    seeSet visitor owner set w = w.replay visitor (Visits.ofSet w.info owner set) := by
  unfold seeSet Visits.ofSet
  split <;> rfl

/-- Entering a field shows its head and leads inside its selection set. -/
theorem enterField_eq (f : Field) (w : Walk σ) :
    enterField schema visitor f w =
      ((w.know (·.atField schema f)).replay visitor
        (Visits.ofFieldHead schema (w.info.atField schema f) f)).know (·.underField) := by
  simp only [enterField, arguments_eq_replay, directives_eq_replay, Visits.ofFieldHead]
  ext
  · rfl
  · simp only [state_know, state_replay, Visitor.run_cons, Visitor.run_append]
    rfl

/-- Entering an inline fragment shows its head and leads inside its selection set. -/
theorem enterInline_eq (f : InlineFragment) (w : Walk σ) :
    enterInline schema visitor f w =
      (w.know (·.atInline f)).replay visitor
        (Visits.ofInlineHead schema (w.info.atInline f) f) := by
  simp only [enterInline, directives_eq_replay, Visits.ofInlineHead, TypeInfo.atInline]
  cases f.typeCondition <;> rfl

/-- Leaving a field undoes what entering it has pushed. -/
theorem popField_underField_atField (info : TypeInfo) (f : Field) :
    ((info.atField schema f).underField.popParent.popPath).popField = info := by
  simp [TypeInfo.underField, TypeInfo.atField]

/-- Leaving an inline fragment undoes what entering it has pushed. -/
theorem pop_atInline (info : TypeInfo) (f : InlineFragment) :
    (if f.typeCondition.isSome then (info.atInline f).popParent.popPath
      else (info.atInline f).popParent) = info := by
  unfold TypeInfo.atInline
  cases f.typeCondition <;> simp

mutual

/-- The walk through a selection shows its visits and returns to where it was: whatever a node
pushes it has popped when it is left. -/
theorem selection_eq_replay (s : Selection) (w : Walk σ) :
    selection schema visitor s w =
      w.replay visitor (Visits.ofSelection schema w.info s) := by
  cases s with
  | field f set =>
    rw [selection, enterField_eq, seeSet_eq_replay, selections_eq_replay, Visits.ofSelection,
      leaveField]
    ext
    · simpa using popField_underField_atField schema w.info f
    · simp [TypeInfo.underField]
  | inline f set =>
    rw [selection, enterInline_eq, seeSet_eq_replay, selections_eq_replay, Visits.ofSelection,
      leaveInline]
    ext
    · have hpop := pop_atInline w.info f
      cases hcondition : f.typeCondition <;> simpa [hcondition] using hpop
    · split <;> simp
  | spread s =>
    rw [selection, directives_eq_replay, Visits.ofSelection]
    rfl

/-- The walk through a selection set shows the visits of its selections, one after the other. -/
theorem selections_eq_replay (index : Nat) (set : List Selection) (w : Walk σ) :
    selections schema visitor index set w =
      w.replay visitor (Visits.ofSelections schema w.info index set) := by
  cases set with
  | nil => rfl
  | cons s rest =>
    rw [selections, selection_eq_replay, selections_eq_replay, Visits.ofSelections]
    ext <;> simp

end

/-- The walk through an operation shows its visits. -/
theorem operation_eq_replay (o : Operation) (w : Walk σ) :
    operation schema visitor o w =
      w.replay visitor (Visits.ofOperation schema w.info o) := by
  simp only [operation, directives_eq_replay, seeSet_eq_replay, selections_eq_replay,
    Visits.ofOperation]
  ext <;> simp

/-- The walk through a fragment definition shows its visits. -/
theorem fragment_eq_replay (f : Fragment) (w : Walk σ) :
    fragment schema visitor f w =
      w.replay visitor (Visits.ofFragment schema w.info f) := by
  simp only [fragment, directives_eq_replay, seeSet_eq_replay, selections_eq_replay,
    Visits.ofFragment]
  ext <;> simp

/-- Between definitions the stacks are empty. -/
def AtRest (w : Walk σ) : Prop :=
  ∃ path address, w.info = ⟨[], [], [], [], path, address⟩

/-- The walk through a definition starts afresh: what the definition before has left behind is
replaced. -/
theorem definition_eq_replay (index : Nat) (d : Definition) {w : Walk σ} (h : w.AtRest) :
    definition schema visitor index d w =
      (w.know fun _ => .atDefinition index).replay visitor
        (Visits.ofDefinition schema index d) := by
  obtain ⟨path, address, hinfo⟩ := h
  have hstart : (w.know fun info => { info with path := .root, address := .ofDefinition index }) =
      w.know fun _ => .atDefinition index := by
    ext
    · simp [hinfo, TypeInfo.atDefinition]
    · rfl
  unfold definition
  simp only [hstart]
  cases d with
  | operation o => exact operation_eq_replay schema visitor o _
  | fragment f => exact fragment_eq_replay schema visitor f _
  | _ => rfl

/-- The walk through a list of numbered definitions shows the visits of each in turn. -/
theorem state_foldl_definition (ds : List (Definition × Nat)) {w : Walk σ} (h : w.AtRest) :
    (ds.foldl (fun w (d, index) => definition schema visitor index d w) w).state =
      visitor.run (ds.flatMap fun (d, index) => Visits.ofDefinition schema index d) w.state := by
  induction ds generalizing w with
  | nil => rfl
  | cons entry ds ih =>
    obtain ⟨d, index⟩ := entry
    simp only [List.foldl_cons, List.flatMap_cons, Visitor.run_append]
    rw [definition_eq_replay schema visitor index d h]
    exact ih ⟨.root, .ofDefinition index, rfl⟩

/-- A walk through a document shows its visitor the visits of the document, in order. -/
theorem document_eq_run (d : Document) (state : σ) :
    document schema visitor d state = visitor.run (Visits.ofDocument schema d) state :=
  state_foldl_definition schema visitor d.definitions.zipIdx ⟨.root, .ofDefinition 0, rfl⟩

end Walk
end Run
end EmbeddedGraphQL
