import EmbeddedGraphQL.Proofs.Walk.Standing
import EmbeddedGraphQL.Proofs.Walk.Visits

/-!
# Walks in document order

What a walk reports when it enters something is said here by recursion on the nodes around it: the
type that a selection set selects on, the innermost field and its type, and the record path. A walk
enters everything that stands in a document once, in the order of addresses, and reports exactly
that.

* `Schema.selectedType`, `Schema.innermostField`, `RecordPath.ofLine`: what the nodes around a
  place determine.
* `Standing.report`: what is to be reported of something that stands in a document.
* `Visits.reports_ofDocument`: the reports of a walk are those, in document order.
* `Walk.document_preorder`: the whole contract of a walk.
-/

namespace EmbeddedGraphQL

/-! ## What the nodes around a place determine -/

namespace Schema

/-- The type that the set of the innermost of some nodes selects on; the nodes are given from the
inside out. It stays unknown below a field that the schema does not have. -/
def selectedType (schema : Schema) : List Node → Option String
  | [] => none
  | .operation o :: _ => schema.root? o.kind
  | .fragment f :: _ => some f.typeCondition
  | .field f _ :: outer =>
    ((schema.selectedType outer).bind (schema.fieldType? · f.name)).map (·.2.innerName)
  | .inline f _ :: outer => f.typeCondition.or (schema.selectedType outer)

/-- The declaration and the type of the innermost field among some nodes, looked up on the type
that the set of the field selects on. -/
def innermostField (schema : Schema) : List Node → Option (Option FieldDeclaration × TypeRef)
  | .field f _ :: outer => (schema.selectedType outer).bind (schema.fieldType? · f.name)
  | .inline _ _ :: outer => schema.innermostField outer
  | _ => none

end Schema

/-- The declaration of a field that stands in a document, if it has one: it is looked up on the type
that the set around the field selects on. -/
def Standing.declaration? (schema : Schema) (s : Standing) : Option FieldDeclaration :=
  match s.entry with
  | .node (.field f _) =>
    ((schema.selectedType s.ancestors).bind (schema.fieldType? · f.name)).bind (·.1)
  | _ => none

/-- The segment that a node adds to record paths. -/
def Node.segment? : Node → Option String
  | .field f _ => some f.name
  | .inline f _ => f.typeCondition
  | .operation _ | .fragment _ => none

/-- The record path that leads through some nodes, given from the inside out. -/
def RecordPath.ofLine (line : List Node) : RecordPath := ⟨(line.filterMap Node.segment?).reverse⟩

/-! ## Reports -/

/-- What is reported where something is entered. -/
structure Report where
  /-- What is entered. -/
  visit : Visit
  /-- The address. -/
  address : Address
  /-- The record path. -/
  path : RecordPath
  /-- The name of the type that is selected on. -/
  parentType : Option String
  /-- The declaration of the innermost field. -/
  declaration : Option FieldDeclaration
  /-- The type of the innermost field. -/
  fieldType : Option TypeRef

/-- Whether a visit enters an operation, a fragment, a field, an inline fragment or a spread. -/
def Visit.isEntry : Visit → Bool
  | .enterOperation _ | .enterFragment _ | .enterField _ | .enterInline _ | .spread _ => true
  | _ => false

/-- What a walk reports at a visit that enters something. -/
def Sight.report? (s : Sight) : Option Report :=
  if s.visit.isEntry then
    some ⟨s.visit, s.info.address, s.info.path, s.info.parentTypeName, s.info.fieldDeclaration,
      s.info.fieldType⟩
  else none

/-- The reports of a walk with some visits. -/
def Visits.reports (sights : List Sight) : List Report := sights.filterMap Sight.report?

/-- The visit that enters a node. -/
def Node.visit : Node → Visit
  | .operation o => .enterOperation o
  | .fragment f => .enterFragment f
  | .field f _ => .enterField f
  | .inline f _ => .enterInline f

/-- The nodes that a node is typed by: the type of a field is that of the set it stands in, the
type of any other node is that of its own set. -/
def Node.typingLine (ancestors : List Node) : Node → List Node
  | .field _ _ => ancestors
  | n => n :: ancestors

/-- What is to be reported of something that stands in a document. It depends on the thing itself
and on the nodes around it. -/
def Standing.report (schema : Schema) (s : Standing) : Report :=
  match s.entry with
  | .node n =>
    let field := schema.innermostField (n :: s.ancestors)
    ⟨n.visit, s.address, .ofLine (n :: s.ancestors),
      schema.selectedType (n.typingLine s.ancestors), field.bind (·.1), field.map (·.2)⟩
  | .spread spread =>
    let field := schema.innermostField s.ancestors
    ⟨.spread spread, s.address, .ofLine s.ancestors, schema.selectedType s.ancestors,
      field.bind (·.1), field.map (·.2)⟩

/-! ## What is known in a set -/

/-- Whether what is known at an address is what the nodes around it determine. -/
structure TypeInfo.Knows (schema : Schema) (info : TypeInfo) (address : Address)
    (line : List Node) : Prop where
  address : info.address = address
  path : info.path = .ofLine line
  parentType : info.parentTypeName = schema.selectedType line
  declaration : info.fieldDeclaration = (schema.innermostField line).bind (·.1)
  fieldType : info.fieldType = (schema.innermostField line).map (·.2)

namespace TypeInfo.Knows

variable {schema : Schema} {info : TypeInfo} {address : Address} {line : List Node}

/-- The path through one node more. -/
theorem ofLine_cons (n : Node) (line : List Node) :
    RecordPath.ofLine (n :: line) =
      match n.segment? with
      | some segment => (RecordPath.ofLine line).push segment
      | none => RecordPath.ofLine line := by
  unfold RecordPath.ofLine RecordPath.push
  cases h : n.segment? <;> simp [h]

/-- At the selections of a set it is known what is known in the set. -/
theorem pushIndex (h : info.Knows schema address line) (index : Nat) :
    (info.pushIndex index).Knows schema (address.child index) line where
  address := congrArg (·.child index) h.address
  path := h.path
  parentType := h.parentType
  declaration := h.declaration
  fieldType := h.fieldType

/-- What is known in the set of an operation. -/
theorem ofOperation (schema : Schema) (index : Nat) (o : Operation) :
    ((atDefinition index).pushParent (schema.root? o.kind)).Knows schema (.ofDefinition index)
      [.operation o] :=
  ⟨rfl, rfl, rfl, rfl, rfl⟩

/-- What is known in the set of a fragment definition. -/
theorem ofFragment (schema : Schema) (index : Nat) (f : Fragment) :
    ((atDefinition index).pushParent (some f.typeCondition)).Knows schema (.ofDefinition index)
      [.fragment f] :=
  ⟨rfl, rfl, rfl, rfl, rfl⟩

/-- At a field its declaration is looked up on the type of the set the field stands in. -/
theorem found_eq (h : info.Knows schema address line) (f : Field) (set : List Selection) :
    info.parentTypeName.bind (schema.fieldType? · f.name) =
      schema.innermostField (.field f set :: line) := by
  rw [h.parentType, Schema.innermostField]

/-- What is known in the set of a field. -/
theorem underField (h : info.Knows schema address line) (f : Field) (set : List Selection) :
    (info.atField schema f).underField.Knows schema address (.field f set :: line) where
  address := h.address
  path := by
    rw [ofLine_cons]
    exact congrArg (·.push f.name) h.path
  parentType := by
    have hfound := h.found_eq f set
    calc (info.atField schema f).underField.parentTypeName
        = ((info.parentTypeName.bind (schema.fieldType? · f.name)).map (·.2)).map (·.innerName) :=
          rfl
      _ = schema.selectedType (.field f set :: line) := by
          rw [hfound, Option.map_map]
          rfl
  declaration := congrArg (·.bind (·.1)) (h.found_eq f set)
  fieldType := congrArg (·.map (·.2)) (h.found_eq f set)

/-- What is known in the set of an inline fragment. -/
theorem atInline (h : info.Knows schema address line) (f : InlineFragment)
    (set : List Selection) :
    (info.atInline f).Knows schema address (.inline f set :: line) := by
  have hparent := h.parentType
  unfold TypeInfo.atInline
  cases hcondition : f.typeCondition with
  | none =>
    refine ⟨h.address, ?_, ?_, h.declaration, h.fieldType⟩
    · rw [ofLine_cons]
      simp only [Node.segment?, hcondition]
      exact h.path
    · simpa [Schema.selectedType, hcondition, parentTypeName, TypeInfo.pushParent] using hparent
  | some condition =>
    refine ⟨h.address, ?_, ?_, h.declaration, h.fieldType⟩
    · rw [ofLine_cons]
      simp only [Node.segment?, hcondition]
      exact congrArg (·.push condition) h.path
    · simp [Schema.selectedType, hcondition, parentTypeName, TypeInfo.pushParent]

/-- The report of a field. -/
theorem report_field (h : info.Knows schema address line) (f : Field) (set : List Selection) :
    Sight.report? ⟨info.atField schema f, .enterField f⟩ =
      some (Standing.report schema ⟨address, line, .node (.field f set)⟩) := by
  have hinside := h.underField f set
  have hparent : (info.atField schema f).parentTypeName = schema.selectedType line := h.parentType
  have haddress : (info.atField schema f).address = address := hinside.address
  have hpath : (info.atField schema f).path = .ofLine (.field f set :: line) := hinside.path
  have hdeclaration := hinside.declaration
  have htype := hinside.fieldType
  simp only [Sight.report?, Visit.isEntry, Standing.report, Node.visit, Node.typingLine, if_true]
  rw [haddress, hpath, hparent, ← hdeclaration, ← htype]
  rfl

/-- The report of an inline fragment. -/
theorem report_inline (h : info.Knows schema address line) (f : InlineFragment)
    (set : List Selection) :
    Sight.report? ⟨info.atInline f, .enterInline f⟩ =
      some (Standing.report schema ⟨address, line, .node (.inline f set)⟩) := by
  have hinside := h.atInline f set
  simp [Sight.report?, Visit.isEntry, Standing.report, Node.visit, Node.typingLine,
    hinside.address, hinside.path, hinside.parentType, hinside.declaration, hinside.fieldType]

/-- The report of a spread. -/
theorem report_spread (h : info.Knows schema address line) (s : FragmentSpread) :
    Sight.report? ⟨info, .spread s⟩ =
      some (Standing.report schema ⟨address, line, .spread s⟩) := by
  simp [Sight.report?, Visit.isEntry, Standing.report, h.address, h.path, h.parentType,
    h.declaration, h.fieldType]

end TypeInfo.Knows

/-! ## What is noted of the parts of a document -/

/-- The visit that leaves a node. -/
def Node.leave : Node → Visit
  | .operation o => .leaveOperation o
  | .fragment f => .leaveFragment f
  | .field f _ => .leaveField f
  | .inline f _ => .leaveInline f

namespace Visits

variable {β : Type} {schema : Schema}

/-- Whether notes taken on a walk, which do not mind what is left, amount to `told` of each thing
that stands in the document. What is noted of a node is noted from where it is entered up to its
set: at its own visit, in its arguments and directives and at the set. -/
structure Gathers (schema : Schema) (note? : Sight → Option β) (told : Standing → List β) :
    Prop where
  leave : ∀ info (n : Node), note? ⟨info, n.leave⟩ = none
  root : ∀ {info : TypeInfo} {index} {n : Node}, info.Knows schema (.ofDefinition index) [n] →
    n.typingLine [] = [n] →
    List.filterMap note? (⟨info, n.visit⟩ ::
      (ofDirectives schema info n.directives ++ ofSet info n.span n.selections)) =
      told ⟨.ofDefinition index, [], .node n⟩
  field : ∀ {info : TypeInfo} {address line}, info.Knows schema address line → ∀ f set,
    List.filterMap note? (ofFieldHead schema (info.atField schema f) f ++
      ofSet (info.atField schema f).underField f.span set) =
      told ⟨address, line, .node (.field f set)⟩
  inline : ∀ {info : TypeInfo} {address line}, info.Knows schema address line → ∀ f set,
    List.filterMap note? (ofInlineHead schema (info.atInline f) f ++
      ofSet (info.atInline f) f.span set) =
      told ⟨address, line, .node (.inline f set)⟩
  spread : ∀ {info : TypeInfo} {address line}, info.Knows schema address line → ∀ s,
    List.filterMap note? (⟨info, .spread s⟩ :: ofDirectives schema info s.directives) =
      told ⟨address, line, .spread s⟩

namespace Gathers

variable {note? : Sight → Option β} {told : Standing → List β}

/-- Where a node is left, nothing is noted any more. -/
theorem node (h : Gathers schema note? told) (head within : List Sight) (info : TypeInfo)
    (n : Node) :
    List.filterMap note? (head ++ within ++ [⟨info, n.leave⟩]) =
      head.filterMap note? ++ within.filterMap note? := by
  rw [List.filterMap_append, List.filterMap_append, List.filterMap_cons_none (h.leave info n),
    List.filterMap_nil, List.append_nil]

mutual

/-- What is noted of a selection is what is told of what stands in it. -/
theorem ofSelection (h : Gathers schema note? told) {info : TypeInfo} {address : Address}
    {line : List Node} (hinfo : info.Knows schema address line) (s : Selection) :
    (Visits.ofSelection schema info s).filterMap note? =
      (s.standings address line).flatMap told := by
  cases s with
  | field f set =>
    rw [Visits.ofSelection, Selection.standings, List.flatMap_cons, ← h.field hinfo f set,
      ← h.ofSelections (hinfo.underField f set) 0 set]
    exact h.node _ _ _ (.field f set)
  | inline f set =>
    rw [Visits.ofSelection, Selection.standings, List.flatMap_cons, ← h.inline hinfo f set,
      ← h.ofSelections (hinfo.atInline f set) 0 set]
    exact h.node _ _ _ (.inline f set)
  | spread s =>
    rw [Visits.ofSelection, Selection.standings, List.flatMap_singleton, ← h.spread hinfo s]

/-- What is noted of a selection set is what is told of what stands in it. -/
theorem ofSelections (h : Gathers schema note? told) {info : TypeInfo} {owner : Address}
    {line : List Node} (hinfo : info.Knows schema owner line) (index : Nat)
    (set : List Selection) :
    (Visits.ofSelections schema info index set).filterMap note? =
      (Selection.setStandings owner line index set).flatMap told := by
  cases set with
  | nil => rfl
  | cons s rest =>
    rw [Visits.ofSelections, List.filterMap_append, h.ofSelection (hinfo.pushIndex index) s,
      h.ofSelections hinfo (index + 1) rest, Selection.setStandings, List.flatMap_append]

end

/-- What is noted of an operation or a fragment definition. -/
theorem ofRoot (h : Gathers schema note? told) {info : TypeInfo} {index : Nat} {n : Node}
    (hinfo : info.Knows schema (.ofDefinition index) [n]) (hn : n.typingLine [] = [n]) :
    (⟨info, n.visit⟩ :: (Visits.ofDirectives schema info n.directives ++
        ofSet info n.span n.selections ++ Visits.ofSelections schema info 0 n.selections ++
        [⟨info, n.leave⟩])).filterMap note? =
      (n.standings index).flatMap told := by
  rw [Node.standings, List.flatMap_cons, ← h.root hinfo hn, ← h.ofSelections hinfo 0 n.selections]
  exact h.node (_ :: _) _ _ n

/-- What is noted of a definition is what is told of what stands in it. -/
theorem ofDefinition (h : Gathers schema note? told) (index : Nat) (d : Definition) :
    (Visits.ofDefinition schema index d).filterMap note? = (d.standings index).flatMap told := by
  cases d with
  | operation o => exact h.ofRoot (.ofOperation schema index o) rfl
  | fragment f => exact h.ofRoot (.ofFragment schema index f) rfl
  | _ => rfl

/-- What is noted on a walk is what is told of everything that stands in the document, in document
order. -/
theorem ofDocument (h : Gathers schema note? told) (d : Document) :
    (Visits.ofDocument schema d).filterMap note? = d.standings.flatMap told := by
  rw [Visits.ofDocument, List.filterMap_flatMap, Document.standings, List.flatMap_assoc]
  congr 1
  funext p
  exact h.ofDefinition p.2 p.1

end Gathers

/-- Whether notes taken on a walk, which mind neither variables nor what is left, amount to `told`
of each thing that stands in the document. What is noted of a node is noted where it is entered
and where its set is. -/
structure Observes (schema : Schema) (note? : Sight → Option β) (told : Standing → List β) :
    Prop where
  var : ∀ info name span, note? ⟨info, .var name span⟩ = none
  leave : ∀ info (n : Node), note? ⟨info, n.leave⟩ = none
  root : ∀ {info : TypeInfo} {index} {n : Node}, info.Knows schema (.ofDefinition index) [n] →
    n.typingLine [] = [n] →
    List.filterMap note? (⟨info, n.visit⟩ :: ofSet info n.span n.selections) =
      told ⟨.ofDefinition index, [], .node n⟩
  field : ∀ {info : TypeInfo} {address line}, info.Knows schema address line → ∀ f set,
    List.filterMap note? (⟨info.atField schema f, .enterField f⟩ ::
      ofSet (info.atField schema f).underField f.span set) =
      told ⟨address, line, .node (.field f set)⟩
  inline : ∀ {info : TypeInfo} {address line}, info.Knows schema address line → ∀ f set,
    List.filterMap note? (⟨info.atInline f, .enterInline f⟩ :: ofSet (info.atInline f) f.span set) =
      told ⟨address, line, .node (.inline f set)⟩
  spread : ∀ {info : TypeInfo} {address line}, info.Knows schema address line → ∀ s,
    (note? ⟨info, .spread s⟩).toList = told ⟨address, line, .spread s⟩

namespace Observes

variable {note? : Sight → Option β} {told : Standing → List β}

mutual

/-- Inside values only variables are visited. -/
theorem ofValue (h : Observes schema note? told) (info : TypeInfo) (expected : Option TypeRef)
    (v : Value) : (Visits.ofValue schema info expected v).filterMap note? = [] := by
  cases v with
  | var name span =>
    rw [Visits.ofValue, List.filterMap_cons_none (h.var _ name span)]
    rfl
  | list items =>
    rw [Visits.ofValue]
    exact h.ofValues _ _ items
  | object fields =>
    rw [Visits.ofValue]
    exact h.ofObjectFields _ _ fields
  | _ => rfl

/-- Inside lists only variables are visited. -/
theorem ofValues (h : Observes schema note? told) (info : TypeInfo) (expected : Option TypeRef)
    (items : List Value) : (Visits.ofValues schema info expected items).filterMap note? = [] := by
  cases items with
  | nil => rfl
  | cons v rest =>
    rw [Visits.ofValues, List.filterMap_append, h.ofValue, h.ofValues]
    rfl

/-- Inside objects only variables are visited. -/
theorem ofObjectFields (h : Observes schema note? told) (info : TypeInfo)
    (expected : Option TypeRef) (fields : List (String × Value)) :
    (Visits.ofObjectFields schema info expected fields).filterMap note? = [] := by
  cases fields with
  | nil => rfl
  | cons field rest =>
    obtain ⟨name, v⟩ := field
    rw [Visits.ofObjectFields, List.filterMap_append, h.ofValue, h.ofObjectFields]
    rfl

end

/-- In arguments only variables are visited. -/
theorem ofArguments (h : Observes schema note? told) (info : TypeInfo)
    (declared : Option (List InputDeclaration)) (args : List Argument) :
    (Visits.ofArguments schema info declared args).filterMap note? = [] := by
  rw [Visits.ofArguments, List.filterMap_flatMap, List.flatMap_eq_nil_iff]
  intro a _
  exact h.ofValue info _ a.value

/-- In directives only variables are visited. -/
theorem ofDirectives (h : Observes schema note? told) (info : TypeInfo) (ds : List Directive) :
    (Visits.ofDirectives schema info ds).filterMap note? = [] := by
  rw [Visits.ofDirectives, List.filterMap_flatMap, List.flatMap_eq_nil_iff]
  intro d _
  exact h.ofArguments info _ d.arguments

/-- What is passed over leaves no notes. -/
theorem passed {enter : Sight} {passed set : List Sight} (h : passed.filterMap note? = []) :
    (enter :: (passed ++ set)).filterMap note? = (enter :: set).filterMap note? := by
  rw [List.filterMap_cons, List.filterMap_append, h, List.nil_append, List.filterMap_cons]

/-- Notes that do not mind variables are taken where nodes are entered and where their sets are. -/
theorem gathers (h : Observes schema note? told) : Gathers schema note? told where
  leave := h.leave
  root {info index n} hinfo hn := by
    rw [passed (h.ofDirectives info n.directives)]
    exact h.root hinfo hn
  field {info address line} hinfo f set := by
    rw [ofFieldHead, List.cons_append, passed, h.field hinfo f set]
    rw [List.filterMap_append, h.ofArguments, h.ofDirectives, List.append_nil]
  inline {info address line} hinfo f set := by
    rw [ofInlineHead, List.cons_append, passed (h.ofDirectives _ f.directives)]
    exact h.inline hinfo f set
  spread {info address line} hinfo s := by
    rw [List.filterMap_cons, h.ofDirectives, ← h.spread hinfo s]
    cases note? ⟨info, .spread s⟩ <;> rfl

/-- What is noted on a walk is what is told of everything that stands in the document, in document
order. -/
theorem ofDocument (h : Observes schema note? told) (d : Document) :
    (Visits.ofDocument schema d).filterMap note? = d.standings.flatMap told :=
  h.gathers.ofDocument d

end Observes

/-! ## Reports -/

/-- Selection sets are not reported. -/
theorem report?_ofSet (info : TypeInfo) (owner : Option Span) (set : List Selection) :
    (ofSet info owner set).filterMap Sight.report? = [] := by
  unfold ofSet
  split <;> rfl

/-- The reports of a walk are those of what stands in the document. -/
theorem observes_reports (schema : Schema) :
    Observes schema Sight.report? fun s => [s.report schema] where
  var _ _ _ := rfl
  leave _ n := by cases n <;> rfl
  root {info index n} h hn := by
    have hentry : n.visit.isEntry = true := by cases n <;> rfl
    have hreport : Sight.report? ⟨info, n.visit⟩ =
        some (Standing.report schema ⟨.ofDefinition index, [], .node n⟩) := by
      simp [Sight.report?, hentry, Standing.report, hn, h.address, h.path, h.parentType,
        h.declaration, h.fieldType]
    rw [List.filterMap_cons_some hreport, report?_ofSet]
  field h f set := by rw [List.filterMap_cons_some (h.report_field f set), report?_ofSet]
  inline h f set := by rw [List.filterMap_cons_some (h.report_inline f set), report?_ofSet]
  spread h s := by
    rw [h.report_spread s]
    rfl

/-- The reports of a walk are those of what stands in the document, in document order. -/
theorem reports_ofDocument (schema : Schema) (d : Document) :
    reports (ofDocument schema d) = d.standings.map (Standing.report schema) := by
  rw [reports, (observes_reports schema).ofDocument, List.map_eq_flatMap]

end Visits

/-! ## The contract -/

/-- Whether an address leads to something of a document: a node is at its own address, a spread is
at a number in the set of the node that its address without the number leads to. -/
def Standing.Resolves (d : Document) (s : Standing) : Prop :=
  match s.entry with
  | .node n => d.get? s.address = some n
  | .spread spread => ∃ owner n index, s.address = Address.child owner index ∧
      d.get? owner = some n ∧ n.selections[index]? = some (.spread spread)

/-- The address of everything that stands in a document leads to it. -/
theorem Standing.In.resolves {d : Document} {s : Standing} (h : s.In d) : s.Resolves d := by
  have hnode : ∀ {address ancestors n}, Standing.In d ⟨address, ancestors, .node n⟩ →
      d.get? address = some n := fun h => Document.get?_eq_some_iff.mpr ⟨_, h⟩
  induction h with
  | definition h => exact hnode (.definition h)
  | @selection address ancestors node index s hparent hs =>
    have hin := Standing.In.selection hparent hs
    cases s with
    | field f set => exact hnode hin
    | inline f set => exact hnode hin
    | spread spread => exact ⟨address, node, index, rfl, hnode hparent, hs⟩

/-- A walk through a document shows its visitor one list of visits. Those that enter something
enter, in the order of addresses, everything that stands in the document: each operation,
fragment, field, inline fragment and spread once, at the address that leads to it, and with what
the nodes around it determine. -/
theorem Walk.document_preorder (schema : Schema) (d : Document) :
    (∀ (σ : Type) (visitor : Visitor σ) (state : σ),
        Walk.document schema visitor d state =
          visitor.run (Visits.ofDocument schema d) state) ∧
      Visits.reports (Visits.ofDocument schema d) = d.standings.map (Standing.report schema) ∧
      (∀ s, s ∈ d.standings ↔ s.In d) ∧
      d.standings.Pairwise (fun s t => s.address.Before t.address) ∧
      (∀ s ∈ d.standings, s.Resolves d) ∧
      ∀ a n, d.get? a = some n ↔ ∃ s ∈ d.standings, s.address = a ∧ s.entry = .node n := by
  refine ⟨fun σ visitor state => document_eq_run schema visitor d state,
    Visits.reports_ofDocument schema d, fun s => Document.mem_standings_iff, d.standings_pairwise,
    fun s hs => (Document.mem_standings_iff.mp hs).resolves, ?_⟩
  intro a n
  rw [Document.get?_eq_some_iff]
  constructor
  · rintro ⟨ancestors, h⟩
    exact ⟨_, Document.mem_standings_iff.mpr h, rfl, rfl⟩
  · rintro ⟨⟨_, ancestors, _⟩, hs, rfl, rfl⟩
    exact ⟨ancestors, Document.mem_standings_iff.mp hs⟩

/-- In `mutation { a { ... on T { b } ... { c ...F } } }` the walk goes down into both fragments,
and the one without a type condition adds nothing to the path. -/
theorem Walk.document_preorder_nested :
    (Visits.reports (Visits.ofDocument ⟨[], [], []⟩ ⟨[.operation ⟨.mutation, none, [], [],
        [.newField "a"
          [.inline ⟨some "T", [], none⟩ [.newField "b" []],
            .inline ⟨none, [], none⟩ [.newField "c" [], .spread ⟨"F", [], none⟩]]],
        none⟩]⟩)).map (fun r => (r.address.selections, r.path.segments, r.parentType)) =
      [([], [], none), ([0], ["a"], none), ([0, 0], ["a", "T"], some "T"),
        ([0, 0, 0], ["a", "T", "b"], some "T"), ([0, 1], ["a"], none),
        ([0, 1, 0], ["a", "c"], none), ([0, 1, 1], ["a"], none)] := by
  rw [(Walk.document_preorder _ _).2.1]
  rfl

end EmbeddedGraphQL
