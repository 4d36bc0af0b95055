import EmbeddedGraphQL.Proofs.Document.VariableUses
import EmbeddedGraphQL.Proofs.Lists
import EmbeddedGraphQL.Proofs.Walk.Preorder

/-!
# Variables on a walk

A variable may stand in the arguments of a field and in the arguments of directives, at any depth of
their values. This file lists the occurrences of variables in a document and the types expected of
them: the declared type of the argument, followed along the path inside its value. A walk visits
each occurrence once, in order, and the type that is known there is the expected one.

* `Occurrence.In`: where a variable occurs in a document.
* `Schema.typeAt?`: the type at the end of a path inside a value.
* `Occurrence.expectedType`: the type expected of an occurrence.
* `Walk.variables_visited_once`: the visits of variables on a walk.
-/

namespace EmbeddedGraphQL

/-! ## Types inside values -/

namespace Schema

/-- The type of a part of a value of a type. An item has the item type of a list, and the type
itself if that is no list; a field has its declared type, if the named type inside is an input type
that has the field. -/
def stepType? (schema : Schema) (type : TypeRef) : ValueStep → Option TypeRef
  | .item _ => some type.item
  | .field _ name => schema.inputType? type.innerName name

/-- The type at the end of a path inside a value of a type. It is unknown from the first step on
that does not lead to a type. -/
def typeAt? (schema : Schema) (type : TypeRef) (path : List ValueStep) : Option TypeRef :=
  path.foldlM schema.stepType? type

/-- A path into a type is followed one step at a time. -/
theorem typeAt?_cons (schema : Schema) (type : TypeRef) (step : ValueStep)
    (path : List ValueStep) :
    schema.typeAt? type (step :: path) =
      (schema.stepType? type step).bind (schema.typeAt? · path) :=
  List.foldlM_cons

end Schema

/-! ## Arguments -/

/-- Where an argument stands at a part of a document. -/
inductive Slot where
  /-- Among the arguments of a field. -/
  | argument (index : Nat)
  /-- Among the arguments of the directive of a number. -/
  | directive (number index : Nat)
deriving DecidableEq

namespace Slot

/-- The place of a slot in the order of slots: first the arguments of the field, then those of its
directives. -/
def position : Slot → List Nat
  | .argument index => [0, index]
  | .directive number index => [1, number, index]

/-- Whether a slot comes before another one at the same part of a document. -/
def Before (a b : Slot) : Prop := a.position < b.position

/-- Arguments in slots that are numbered from left to right. -/
def number (slot : Nat → Slot) (args : List Argument) : List (Slot × Argument) :=
  args.zipIdx.map fun (a, index) => (slot index, a)

/-- An argument is numbered by its place among the arguments. -/
theorem mem_number_iff {slot : Nat → Slot} {args : List Argument} {p : Slot × Argument} :
    p ∈ number slot args ↔ ∃ index, p.1 = slot index ∧ args[index]? = some p.2 := by
  simp only [number, List.mem_map, Prod.exists, List.mem_zipIdx_iff_getElem?]
  constructor
  · rintro ⟨a, index, ha, rfl⟩
    exact ⟨index, rfl, ha⟩
  · rintro ⟨index, hp, ha⟩
    exact ⟨p.2, index, ha, by rw [← hp]⟩

/-- Arguments are numbered in order. -/
theorem number_pairwise {slot : Nat → Slot} (args : List Argument)
    (h : ∀ {i j}, i < j → (slot i).Before (slot j)) :
    (number slot args).Pairwise fun p q => p.1.Before q.1 :=
  List.pairwise_map.mpr ((zipIdx_pairwise args).imp fun hlt => h hlt)

end Slot

namespace Standing

/-- The arguments of a field that stands in a document; anything else has none. -/
def arguments (s : Standing) : List Argument :=
  match s.entry with
  | .node (.field f _) => f.arguments
  | _ => []

/-- The directives of something that stands in a document. -/
def directives (s : Standing) : List Directive :=
  match s.entry with
  | .node n => n.directives
  | .spread spread => spread.directives

/-- The argument in a slot. -/
def argument? (s : Standing) : Slot → Option Argument
  | .argument index => s.arguments[index]?
  | .directive number index => s.directives[number]?.bind fun d => d.arguments[index]?

/-- The inputs that are declared for a slot: those of the field or of the directive, if the schema
has it. -/
def inputs? (schema : Schema) (s : Standing) : Slot → Option (List InputDeclaration)
  | .argument _ => (s.declaration? schema).map (·.arguments)
  | .directive number _ =>
    (s.directives[number]?.bind fun d => schema.directive? d.name).map (·.arguments)

/-- The declared type of the argument of a name in a slot. -/
def inputType? (schema : Schema) (s : Standing) (slot : Slot) (name : String) : Option TypeRef :=
  ((s.inputs? schema slot).bind fun inputs => inputs.find? (·.name = name)).map (·.type)

/-- The arguments in the directives of something that stands in a document, from left to right. -/
def directiveSlots (s : Standing) : List (Slot × Argument) :=
  s.directives.zipIdx.flatMap fun (d, number) => Slot.number (.directive number) d.arguments

/-- All arguments of something that stands in a document, from left to right. -/
def slots (s : Standing) : List (Slot × Argument) :=
  Slot.number .argument s.arguments ++ s.directiveSlots

/-- The slots hold the arguments. -/
theorem mem_slots_iff {s : Standing} {slot : Slot} {a : Argument} :
    (slot, a) ∈ s.slots ↔ s.argument? slot = some a := by
  simp only [slots, directiveSlots, List.mem_append, List.mem_flatMap, Slot.mem_number_iff,
    Prod.exists, List.mem_zipIdx_iff_getElem?]
  cases slot with
  | argument index => simp [argument?]
  | directive number index => simp [argument?, Option.bind_eq_some_iff]

/-- The slots come in order. -/
theorem slots_pairwise (s : Standing) : s.slots.Pairwise fun p q => p.1.Before q.1 := by
  have hslots : ∀ p ∈ s.directiveSlots, ∃ number index, p.1 = .directive number index := by
    intro p hp
    obtain ⟨⟨d, number⟩, -, hp⟩ := List.mem_flatMap.mp hp
    obtain ⟨index, hindex, -⟩ := Slot.mem_number_iff.mp hp
    exact ⟨number, index, hindex⟩
  refine List.pairwise_append.mpr ⟨Slot.number_pairwise _ ?_, ?_, ?_⟩
  · exact fun hlt => by simp [Slot.Before, Slot.position, List.cons_lt_cons_iff, hlt]
  · rw [directiveSlots, List.pairwise_flatMap]
    constructor
    · intro p _
      refine Slot.number_pairwise _ fun hlt => ?_
      simp [Slot.Before, Slot.position, List.cons_lt_cons_iff, hlt]
    · refine (zipIdx_pairwise s.directives).imp ?_
      intro x y hlt p hp q hq
      obtain ⟨i, hi, -⟩ := Slot.mem_number_iff.mp hp
      obtain ⟨j, hj, -⟩ := Slot.mem_number_iff.mp hq
      simp [Slot.Before, Slot.position, List.cons_lt_cons_iff, hi, hj, hlt]
  · -- An argument of the field comes before every argument of a directive.
    intro p hp q hq
    obtain ⟨i, hi, -⟩ := Slot.mem_number_iff.mp hp
    obtain ⟨number, j, hj⟩ := hslots q hq
    simp [Slot.Before, Slot.position, List.cons_lt_cons_iff, hi, hj]

end Standing

/-! ## Occurrences -/

/-- A variable in an argument of something that stands in a document. -/
structure Occurrence where
  /-- What has the argument. -/
  standing : Standing
  /-- Where the argument stands at it. -/
  slot : Slot
  /-- The argument. -/
  argument : Argument
  /-- Where in the value of the argument the variable stands. -/
  use : VariableUse

/-- What is seen where a variable is visited. -/
structure VariableSight where
  /-- The address of what has the argument. -/
  address : Address
  /-- The name of the variable. -/
  name : String
  /-- Where in the source it stands. -/
  span : Option Span
  /-- The type it is expected to have. -/
  type : Option TypeRef

namespace Occurrence

/-- Whether an occurrence is one in a document. -/
structure In (d : Document) (o : Occurrence) : Prop where
  standing : o.standing.In d
  argument : o.standing.argument? o.slot = some o.argument
  value : o.argument.value.at? o.use.path = some (.var o.use.name o.use.span)

/-- Whether an occurrence comes before another one: at something that comes first in document order,
or in an earlier argument of the same thing, or further to the left in the same argument. -/
def Before (o p : Occurrence) : Prop :=
  o.standing.address.Before p.standing.address ∨
    o.standing.address = p.standing.address ∧
      (o.slot.Before p.slot ∨ o.slot = p.slot ∧ o.use.Before p.use)

/-- The type expected of an occurrence: the declared type of the argument, followed along the path
inside its value. -/
def expectedType (schema : Schema) (o : Occurrence) : Option TypeRef :=
  (o.standing.inputType? schema o.slot o.argument.name).bind (schema.typeAt? · o.use.path)

/-- What is to be seen at an occurrence. -/
def seen (schema : Schema) (o : Occurrence) : VariableSight :=
  ⟨o.standing.address, o.use.name, o.use.span, o.expectedType schema⟩

/-- No occurrence comes before itself. -/
theorem not_before_self (o : Occurrence) : ¬ o.Before o := by
  rintro (h | ⟨-, h | ⟨-, h⟩⟩)
  · exact o.standing.address.not_before_self h
  · exact List.lt_irrefl _ h
  · exact List.lt_irrefl _ h

end Occurrence

/-- The occurrences in an argument of something that stands in a document. -/
def Standing.occurrencesIn (s : Standing) (p : Slot × Argument) : List Occurrence :=
  p.2.value.uses.map fun u => ⟨s, p.1, p.2, u⟩

/-- The occurrences at something that stands in a document. -/
def Standing.occurrences (s : Standing) : List Occurrence := s.slots.flatMap s.occurrencesIn

/-- The occurrences of variables in a document. -/
def Document.occurrences (d : Document) : List Occurrence := d.standings.flatMap (·.occurrences)

/-- The list of occurrences is complete, and holds nothing else. -/
theorem Document.mem_occurrences_iff {d : Document} {o : Occurrence} :
    o ∈ d.occurrences ↔ o.In d := by
  simp only [occurrences, Standing.occurrences, Standing.occurrencesIn, List.mem_flatMap,
    List.mem_map, Prod.exists, Standing.mem_slots_iff, Value.mem_uses_iff, mem_standings_iff]
  constructor
  · rintro ⟨s, hs, slot, a, ha, u, hu, rfl⟩
    exact ⟨hs, ha, hu⟩
  · intro h
    exact ⟨o.standing, h.standing, o.slot, o.argument, h.argument, o.use, h.value, rfl⟩

/-- The list of occurrences is in order. -/
theorem Document.occurrences_pairwise (d : Document) :
    d.occurrences.Pairwise Occurrence.Before := by
  have hstanding : ∀ {s : Standing} {o : Occurrence}, o ∈ s.occurrences → o.standing = s := by
    intro s o ho
    obtain ⟨p, -, ho⟩ := List.mem_flatMap.mp ho
    obtain ⟨u, -, rfl⟩ := List.mem_map.mp ho
    rfl
  have hslot : ∀ {s : Standing} {p : Slot × Argument} {o : Occurrence},
      o ∈ s.occurrencesIn p → o.standing = s ∧ o.slot = p.1 := by
    intro s p o ho
    obtain ⟨u, -, rfl⟩ := List.mem_map.mp ho
    exact ⟨rfl, rfl⟩
  -- Ordered within an argument, then over the arguments of one place, then over the places.
  rw [occurrences, List.pairwise_flatMap]
  constructor
  · intro s _
    rw [Standing.occurrences, List.pairwise_flatMap]
    constructor
    · intro p _
      refine List.pairwise_map.mpr (p.2.value.uses_pairwise.imp ?_)
      exact fun h => Or.inr ⟨rfl, Or.inr ⟨rfl, h⟩⟩
    · refine s.slots_pairwise.imp ?_
      intro p q hpq x hx y hy
      obtain ⟨hxs, hxp⟩ := hslot hx
      obtain ⟨hys, hyq⟩ := hslot hy
      exact Or.inr ⟨by rw [hxs, hys], Or.inl (by rw [hxp, hyq]; exact hpq)⟩
  · refine d.standings_pairwise.imp ?_
    intro s t hst x hx y hy
    exact Or.inl (by rw [hstanding hx, hstanding hy]; exact hst)

/-! ## Visits -/

/-- What is seen at a visit of a variable. -/
def Sight.variable? (s : Sight) : Option VariableSight :=
  match s.visit with
  | .var name span => some ⟨s.info.address, name, span, s.info.inputType⟩
  | _ => none

namespace Visits

variable {schema : Schema}

/-- The occurrences in a list are those of its items in turn. -/
theorem ofValues_eq_flatMap (info : TypeInfo) (expected : Option TypeRef) (items : List Value) :
    ofValues schema info expected items = items.flatMap (ofValue schema info expected) := by
  induction items with
  | nil => rfl
  | cons v rest ih => rw [ofValues, ih, List.flatMap_cons]

/-- The occurrences in an object are those of its fields in turn. -/
theorem ofObjectFields_eq_flatMap (info : TypeInfo) (expected : Option TypeRef)
    (fields : List (String × Value)) :
    ofObjectFields schema info expected fields =
      fields.flatMap fun p =>
        ofValue schema info (Walk.objectFieldType schema expected p.1) p.2 := by
  induction fields with
  | nil => rfl
  | cons field rest ih =>
    obtain ⟨name, v⟩ := field
    rw [ofObjectFields, ih, List.flatMap_cons]

/-- The visits in a value that is no variable are those in its parts, each with the type that the
step to it leads to. -/
theorem ofValue_eq_flatMap (info : TypeInfo) (expected : Option TypeRef) {v : Value}
    (hv : ¬ v.IsVar) :
    ofValue schema info expected v = v.parts.flatMap fun p =>
      ofValue schema (info.pushInput expected) (expected.bind (schema.stepType? · p.1)) p.2 := by
  cases v with
  | var name span => exact absurd ⟨name, span, rfl⟩ hv
  | list items =>
    rw [ofValue, ofValues_eq_flatMap, flatMap_zipIdx, Value.parts, List.flatMap_map,
      Option.map_eq_bind]
    rfl
  | object fields =>
    rw [ofValue, ofObjectFields_eq_flatMap, flatMap_zipIdx, Value.parts, List.flatMap_map]
    rfl
  | _ => rfl

/-- In a value of an expected type every variable is visited once, with the type at the end of its
path. -/
theorem variables_ofValue (info : TypeInfo) (expected : Option TypeRef) (v : Value) :
    (ofValue schema info expected v).filterMap Sight.variable? =
      v.uses.map fun u =>
        ⟨info.address, u.name, u.span, expected.bind (schema.typeAt? · u.path)⟩ := by
  induction v using Value.parts_induction generalizing info expected with
  | var name span => cases expected <;> rfl
  | other v hv ih =>
    rw [ofValue_eq_flatMap info expected hv, List.filterMap_flatMap, Value.uses_eq_flatMap hv,
      List.map_flatMap]
    apply List.flatMap_congr
    intro p hp
    rw [ih p hp, List.map_map]
    apply List.map_congr_left
    intro u _
    -- The first step of the path is taken on the way down, the others below.
    simp only [Function.comp_apply, VariableUse.under, Schema.typeAt?_cons, Option.bind_assoc]
    rfl

/-- The visits in arguments are those of the occurrences in their slots, if the arguments are
declared as the slots say. -/
theorem variables_ofArguments {s : Standing} {info : TypeInfo} (haddress : info.address = s.address)
    {slot : Nat → Slot} {declared : Option (List InputDeclaration)}
    (hdeclared : ∀ index, s.inputs? schema (slot index) = declared) (args : List Argument) :
    (ofArguments schema info declared args).filterMap Sight.variable? =
      ((Slot.number slot args).flatMap s.occurrencesIn).map (Occurrence.seen schema) := by
  rw [ofArguments, flatMap_zipIdx, List.filterMap_flatMap, Slot.number, List.flatMap_map,
    List.map_flatMap]
  apply List.flatMap_congr
  intro p _
  rw [variables_ofValue, Standing.occurrencesIn, List.map_map]
  apply List.map_congr_left
  intro u _
  rw [Function.comp_apply, Occurrence.seen, Occurrence.expectedType, Standing.inputType?,
    hdeclared, haddress]
  rfl

/-- The visits in directives are those of the occurrences in their slots. -/
theorem variables_ofDirectives {s : Standing} {info : TypeInfo}
    (haddress : info.address = s.address) :
    (ofDirectives schema info s.directives).filterMap Sight.variable? =
      (s.directiveSlots.flatMap s.occurrencesIn).map (Occurrence.seen schema) := by
  rw [ofDirectives, flatMap_zipIdx, List.filterMap_flatMap, Standing.directiveSlots,
    List.flatMap_assoc, List.map_flatMap]
  apply List.flatMap_congr
  rintro ⟨directive, number⟩ hmem
  apply variables_ofArguments haddress
  intro index
  rw [Standing.inputs?, List.mem_zipIdx_iff_getElem?.mp hmem, Option.bind_some]

/-- No variable is visited where a set is. -/
theorem variables_ofSet (info : TypeInfo) (owner : Option Span) (set : List Selection) :
    (ofSet info owner set).filterMap Sight.variable? = [] := by
  unfold ofSet
  split <;> rfl

/-- What is seen at something without arguments of its own. -/
theorem variables_ofHead {s : Standing} {info inside : TypeInfo} {enter : Visit}
    {owner : Option Span} {set : List Selection} (haddress : info.address = s.address)
    (henter : Sight.variable? ⟨info, enter⟩ = none) (harguments : s.arguments = []) :
    (⟨info, enter⟩ :: (ofDirectives schema info s.directives ++ ofSet inside owner set)).filterMap
        Sight.variable? = s.occurrences.map (Occurrence.seen schema) := by
  rw [List.filterMap_cons_none henter, List.filterMap_append, variables_ofDirectives haddress,
    variables_ofSet, List.append_nil, Standing.occurrences, Standing.slots, harguments]
  rfl

/-- The visits of variables are those of the occurrences. -/
theorem gathers_variables (schema : Schema) :
    Gathers schema Sight.variable? fun s => s.occurrences.map (Occurrence.seen schema) where
  leave _ n := by cases n <;> rfl
  root {info index n} h hn := by
    refine variables_ofHead (s := ⟨.ofDefinition index, [], .node n⟩) h.address ?_ ?_
    · cases n <;> rfl
    · cases n with
      | field f set => simp [Node.typingLine] at hn
      | _ => rfl
  field {info address line} h f set := by
    let s : Standing := ⟨address, line, .node (.field f set)⟩
    have haddress : (info.atField schema f).address = s.address := h.address
    -- At a field the context has its declaration, which says what its arguments may be.
    have hdeclared : ∀ index, s.inputs? schema (.argument index) =
        (info.atField schema f).fieldDeclaration.map (·.arguments) := by
      intro index
      have hdeclaration := (h.underField f set).declaration
      change (s.declaration? schema).map _ = _
      exact congrArg (Option.map _) hdeclaration.symm
    have hdirectives : (ofDirectives schema (info.atField schema f) f.directives).filterMap
        Sight.variable? = (s.directiveSlots.flatMap s.occurrencesIn).map (Occurrence.seen schema) :=
      variables_ofDirectives haddress
    rw [ofFieldHead, List.cons_append, List.filterMap_cons_none rfl, List.filterMap_append,
      List.filterMap_append, variables_ofArguments haddress hdeclared, hdirectives,
      variables_ofSet, List.append_nil, ← List.map_append, ← List.flatMap_append]
    rfl
  inline {info address line} h f set := by
    exact variables_ofHead (s := ⟨address, line, .node (.inline f set)⟩) (h.atInline f set).address
      rfl rfl
  spread {info address line} h s := by
    rw [List.filterMap_cons_none rfl]
    exact variables_ofDirectives (s := ⟨address, line, .spread s⟩) h.address

end Visits

/-! ## The contract -/

namespace Walk

/-- A walk through a document shows its visitor one list of visits. Among them are those of
variables: each occurrence of a variable is visited once, in order, and the type that is known at
the visit is the one expected of the occurrence. Document order, the order of slots and that of
paths put what has an argument before its selections, and the arguments of a field before those of
its directives. -/
theorem variables_visited_once (schema : Schema) (d : Document) :
    (∀ (σ : Type) (visitor : Visitor σ) (state : σ),
        Walk.document schema visitor d state =
          visitor.run (Visits.ofDocument schema d) state) ∧
      (Visits.ofDocument schema d).filterMap Sight.variable? =
        d.occurrences.map (Occurrence.seen schema) ∧
      (∀ o, o ∈ d.occurrences ↔ o.In d) ∧
      d.occurrences.Nodup ∧
      d.occurrences.Pairwise Occurrence.Before := by
  refine ⟨fun σ visitor state => document_eq_run schema visitor d state, ?_,
    fun o => Document.mem_occurrences_iff, ?_, d.occurrences_pairwise⟩
  · rw [(Visits.gathers_variables schema).ofDocument, Document.occurrences, List.map_flatMap]
  · refine d.occurrences_pairwise.imp ?_
    rintro o p hbefore rfl
    exact o.not_before_self hbefore

/-- A schema of users that are searched for by a nested filter. -/
def searchTypes : Schema :=
  ⟨[⟨"Query", none, .object []
      [⟨none, "user", [⟨none, "id", .named "ID" true, none, []⟩], .named "User" false, []⟩,
        ⟨none, "search", [⟨none, "filter", .named "Filter" false, none, []⟩],
          .list (.named "User" true) true, []⟩]⟩,
    ⟨"User", none, .object []
      [⟨none, "friends", [⟨none, "ids", .list (.named "ID" true) false, none, []⟩],
        .list (.named "User" true) true, []⟩]⟩,
    ⟨"Filter", none, .inputObject
      [⟨none, "name", .named "String" false, none, []⟩,
        ⟨none, "nested", .named "Filter" false, none, []⟩]⟩],
    [⟨"include", [⟨none, "if", .named "Boolean" true, none, []⟩], false, ["FIELD"]⟩],
    [(.query, "Query")]⟩

/-- The document
`{ search(filter: {nested: {name: $n, age: [$a]}}) { friends(ids: [$i]) @include(if: $k) }
user(id: $u) }`. -/
def searchQuery : Document :=
  ⟨[.operation ⟨.query, none, [], [],
    [.field ⟨none, "search", [⟨"filter", .object [("nested", .object
          [("name", .var "n" none), ("age", .list [.var "a" none])])]⟩], [], none⟩
        [.field ⟨none, "friends", [⟨"ids", .list [.var "i" none]⟩],
          [⟨"include", [⟨"if", .var "k" none⟩]⟩], none⟩ []],
      .field ⟨none, "user", [⟨"id", .var "u" none⟩], [], none⟩ []],
    none⟩]⟩

/-- The filter has no field `age`, so that nothing is known of the type inside it; all other types
are found. -/
theorem variables_visited_once_search :
    ((Visits.ofDocument searchTypes searchQuery).filterMap Sight.variable?).map
        (fun v => (v.name, v.address.selections, v.type.map (·.text))) =
      [("n", [0], some "String"), ("a", [0], none), ("i", [0, 0], some "ID!"),
        ("k", [0, 0], some "Boolean!"), ("u", [1], some "ID!")] := by
  rw [(variables_visited_once searchTypes searchQuery).2.1]
  rfl

end Walk
end EmbeddedGraphQL
