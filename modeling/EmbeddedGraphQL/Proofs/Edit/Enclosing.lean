import EmbeddedGraphQL.Edit.Enclosing
import EmbeddedGraphQL.Proofs.Document.Placement
import EmbeddedGraphQL.Proofs.LineIndex.Reached
import EmbeddedGraphQL.Proofs.Walk.Preorder

/-!
# The selection set around a range of lines

What a search by lines gives: a selection set of the document together with the address of its
owner, the selections of that set on the lines, which are a block of it, and the names of variables.

* `Visits.observes_sets`: a walk visits the selection sets that are not empty, each with the address
  of its owner.
* `Enclosing.exists_children_eq`: the selections on some lines are a block of their set.
* `Enclosing.find?_spec`: what is found in a grammatical document.
-/

namespace EmbeddedGraphQL

/-! ## Visits of selection sets -/

/-- A selection set that is visited. -/
structure SetSight where
  /-- The address of the owner. -/
  address : Address
  /-- The selections. -/
  selections : List Selection
  /-- Where the owner stands. -/
  owner : Option Span
  /-- The name of the type that the set selects on. -/
  typeName : Option String

/-- The selection set that is visited, if one is. -/
def Sight.set? (s : Sight) : Option SetSight :=
  match s.visit with
  | .enterSet selections owner => some ⟨s.info.address, selections, owner, s.info.parentTypeName⟩
  | _ => none

/-- The selection set of something that stands in a document, unless it is empty. -/
def Standing.set? (schema : Schema) (s : Standing) : Option SetSight :=
  match s.entry with
  | .node n =>
    if n.selections.isEmpty then none
    else some ⟨s.address, n.selections, n.span, schema.selectedType (n :: s.ancestors)⟩
  | .spread _ => none

namespace Visits

variable {schema : Schema}

/-- The set of a node is visited where its type is known. -/
theorem set?_ofSet {info : TypeInfo} {address : Address} {line : List Node} {n : Node}
    (h : info.Knows schema address (n :: line)) :
    (ofSet info n.span n.selections).filterMap Sight.set? =
      (Standing.set? schema ⟨address, line, .node n⟩).toList := by
  simp only [ofSet, Standing.set?]
  cases n.selections.isEmpty with
  | true => rfl
  | false => simp [Sight.set?, h.address, h.parentType]

/-- A walk visits the selection sets of what stands in the document. -/
theorem observes_sets (schema : Schema) :
    Observes schema Sight.set? fun s => (Standing.set? schema s).toList where
  var _ _ _ := rfl
  leave _ n := by cases n <;> rfl
  root {info index n} h _ := by
    have hentry : Sight.set? ⟨info, n.visit⟩ = none := by cases n <;> rfl
    rw [List.filterMap_cons_none hentry]
    exact set?_ofSet h
  field h f set := by
    rw [List.filterMap_cons_none rfl]
    exact set?_ofSet (h.underField f set)
  inline h f set := by
    rw [List.filterMap_cons_none rfl]
    exact set?_ofSet (h.atInline f set)
  spread _ _ := rfl

/-- A set that is visited is that of the node at its address. -/
theorem get?_of_enterSet {d : Document} {info : TypeInfo} {set : List Selection}
    {owner : Option Span} (h : ⟨info, .enterSet set owner⟩ ∈ ofDocument schema d) :
    ∃ n, d.get? info.address = some n ∧ n.selections = set := by
  have hmem : (⟨info.address, set, owner, info.parentTypeName⟩ : SetSight) ∈
      (ofDocument schema d).filterMap Sight.set? := List.mem_filterMap.mpr ⟨_, h, rfl⟩
  rw [(observes_sets schema).ofDocument, List.mem_flatMap] at hmem
  obtain ⟨⟨address, ancestors, entry⟩, hs, hset⟩ := hmem
  cases entry with
  | spread s => simp [Standing.set?] at hset
  | node n =>
    obtain ⟨-, rfl, hn, -⟩ : _ ∧ address = info.address ∧ n.selections = set ∧ _ := by
      simpa [Standing.set?] using hset
    exact ⟨n, Document.get?_eq_some_iff.mpr ⟨ancestors, Document.mem_standings_iff.mp hs⟩, hn⟩

end Visits

/-! ## Visits of variables -/

/-- Whether the variable that is visited, if one is, has a name. -/
def Sight.IsNamed (s : Sight) : Prop := ∀ name span, s.visit = .var name span → isName name = true

namespace Visits

variable {schema : Schema}

mutual

/-- The variables in a grammatical value have names. -/
theorem isNamed_ofValue {const : Bool} {depth : Nat} {info : TypeInfo} {expected : Option TypeRef}
    (v : Value) (h : v.Grammatical const depth) :
    ∀ s ∈ ofValue schema info expected v, s.IsNamed := by
  cases v with
  | var name span =>
    intro s hs shown place hvar
    rw [ofValue, List.mem_singleton] at hs
    subst hs
    cases hvar
    exact h.2
  | list items =>
    rw [ofValue]
    exact isNamed_ofValues items h
  | object fields =>
    rw [ofValue]
    exact isNamed_ofObjectFields fields h
  | _ => simp [ofValue]

/-- The variables in the items of a grammatical list have names. -/
theorem isNamed_ofValues {const : Bool} {depth : Nat} {info : TypeInfo}
    {expected : Option TypeRef} (items : List Value)
    (h : Value.GrammaticalItems const depth items) :
    ∀ s ∈ ofValues schema info expected items, s.IsNamed := by
  cases items with
  | nil => simp [ofValues]
  | cons v rest =>
    rw [ofValues, List.forall_mem_append]
    exact ⟨isNamed_ofValue v h.1.2, isNamed_ofValues rest h.2⟩

/-- The variables in the fields of a grammatical object have names. -/
theorem isNamed_ofObjectFields {const : Bool} {depth : Nat} {info : TypeInfo}
    {expected : Option TypeRef} (fields : List (String × Value))
    (h : Value.GrammaticalFields const depth fields) :
    ∀ s ∈ ofObjectFields schema info expected fields, s.IsNamed := by
  cases fields with
  | nil => simp [ofObjectFields]
  | cons field rest =>
    obtain ⟨name, v⟩ := field
    rw [ofObjectFields, List.forall_mem_append]
    exact ⟨isNamed_ofValue v h.1.2.2, isNamed_ofObjectFields rest h.2⟩

end

/-- The variables in grammatical arguments have names. -/
theorem isNamed_ofArguments {const : Bool} {depth : Nat} {info : TypeInfo}
    {declared : Option (List InputDeclaration)} {args : List Argument}
    (h : ∀ a ∈ args, a.Grammatical const depth) :
    ∀ s ∈ ofArguments schema info declared args, s.IsNamed := by
  intro s hs
  obtain ⟨a, ha, hs⟩ := List.mem_flatMap.mp hs
  exact isNamed_ofValue a.value (h a ha).value s hs

/-- The variables in grammatical directives have names. -/
theorem isNamed_ofDirectives {const : Bool} {depth : Nat} {info : TypeInfo} {ds : List Directive}
    (h : ∀ d ∈ ds, d.Grammatical const depth) :
    ∀ s ∈ ofDirectives schema info ds, s.IsNamed := by
  intro s hs
  obtain ⟨d, hd, hs⟩ := List.mem_flatMap.mp hs
  exact isNamed_ofArguments (h d hd).arguments s hs

/-- A visit of something else than a variable. -/
theorem isNamed_of_ne {s : Sight} (h : ∀ name span, s.visit ≠ .var name span) : s.IsNamed :=
  fun name span hvar => absurd hvar (h name span)

/-- Entering a set is no visit of a variable. -/
theorem isNamed_ofSet {info : TypeInfo} {owner : Option Span} {set : List Selection} :
    ∀ s ∈ ofSet info owner set, s.IsNamed := by
  intro s hs
  unfold ofSet at hs
  split at hs
  · simp at hs
  · rw [List.mem_singleton.mp hs]
    exact isNamed_of_ne (by simp)

mutual

/-- The variables in a grammatical selection have names. -/
theorem isNamed_ofSelection {depth : Nat} {info : TypeInfo} (x : Selection)
    (h : x.Grammatical depth) : ∀ s ∈ ofSelection schema info x, s.IsNamed := by
  cases x with
  | field f set =>
    rw [ofSelection, ofFieldHead]
    simp only [List.forall_mem_append, List.forall_mem_cons]
    exact ⟨⟨⟨⟨isNamed_of_ne (by simp), isNamed_ofArguments h.1.arguments,
      isNamed_ofDirectives h.1.directives⟩, isNamed_ofSet⟩, isNamed_ofSelections set h.2⟩,
      isNamed_of_ne (by simp), by simp⟩
  | inline f set =>
    rw [ofSelection, ofInlineHead]
    simp only [List.forall_mem_append, List.forall_mem_cons]
    exact ⟨⟨⟨⟨isNamed_of_ne (by simp), isNamed_ofDirectives h.1.directives⟩, isNamed_ofSet⟩,
      isNamed_ofSelections set h.2.2⟩, isNamed_of_ne (by simp), by simp⟩
  | spread s =>
    rw [ofSelection, List.forall_mem_cons]
    exact ⟨isNamed_of_ne (by simp), isNamed_ofDirectives h.directives⟩

/-- The variables in a grammatical selection set have names. -/
theorem isNamed_ofSelections {depth index : Nat} {info : TypeInfo} (set : List Selection)
    (h : Selection.GrammaticalSet depth set) :
    ∀ s ∈ ofSelections schema info index set, s.IsNamed := by
  cases set with
  | nil => simp [ofSelections]
  | cons x rest =>
    rw [ofSelections, List.forall_mem_append]
    exact ⟨isNamed_ofSelection x h.1.2, isNamed_ofSelections rest h.2⟩

end

/-- The variables in a grammatical definition have names. -/
theorem isNamed_ofDefinition {index : Nat} {x : Definition} (h : x.Grammatical) :
    ∀ s ∈ ofDefinition schema index x, s.IsNamed := by
  cases x with
  | operation o =>
    rw [ofDefinition, ofOperation]
    simp only [List.forall_mem_append, List.forall_mem_cons]
    exact ⟨isNamed_of_ne (by simp), ⟨⟨isNamed_ofDirectives h.directives, isNamed_ofSet⟩,
      isNamed_ofSelections _ h.selections⟩, isNamed_of_ne (by simp), by simp⟩
  | fragment f =>
    rw [ofDefinition, ofFragment]
    simp only [List.forall_mem_append, List.forall_mem_cons]
    exact ⟨isNamed_of_ne (by simp), ⟨⟨isNamed_ofDirectives h.directives, isNamed_ofSet⟩,
      isNamed_ofSelections _ h.selections⟩, isNamed_of_ne (by simp), by simp⟩
  | _ => simp [ofDefinition]

/-- The variables in a grammatical document have names. -/
theorem isNamed_ofDocument {d : Document} (h : d.Grammatical) :
    ∀ s ∈ ofDocument schema d, s.IsNamed := by
  intro s hs
  obtain ⟨⟨x, index⟩, hx, hs⟩ := List.mem_flatMap.mp hs
  exact isNamed_ofDefinition (h.definitions x (List.fst_mem_of_mem_zipIdx hx)) s hs

end Visits

/-! ## Lines and blocks of selections -/

namespace Enclosing

variable {index : LineIndex} {lines : LineRange} {lo hi : Nat} {set : List Selection}

/-- A placed selection is on some lines exactly if it starts and ends on them. -/
theorem isInside_iff {s : Selection} {span : Span} (h : s.span = some span) :
    isInside index lines s = true ↔
      lines.first ≤ (index.position span.start).line ∧
        (index.position span.stop).line ≤ lines.last := by
  simp only [isInside, h, LineRange.contains, LineIndex.lineRange, Bool.and_eq_true]
  exact and_congr decide_eq_true_iff decide_eq_true_iff

/-- No entry of a placed set that starts after some lines is on them. -/
theorem filter_of_after (h : Selection.PlacedSet lo hi set)
    (hlo : lines.last < (index.position lo).line) (first : Nat) :
    (set.zipIdx first).filter (fun p => isInside index lines p.1) = [] := by
  induction set generalizing lo first with
  | nil => rfl
  | cons s rest ih =>
    obtain ⟨mid, hs, -, hrest⟩ := h
    obtain ⟨span, hspan, hstart, hle, hstop, -⟩ := hs.span
    have hlines := index.line_mono (Nat.le_trans hstart hle)
    have hmid := index.line_mono (Nat.le_trans (Nat.le_trans hstart hle) hstop)
    have houtside : isInside index lines s = false := by
      rw [Bool.eq_false_iff, ne_eq, isInside_iff hspan]
      omega
    rw [List.zipIdx_cons, List.filter_cons_of_neg (by simp [houtside])]
    exact ih hrest (by omega) (first + 1)

/-- Of a placed set that starts on some lines or after them, a first part is on the lines. -/
theorem filter_of_start (h : Selection.PlacedSet lo hi set)
    (hlo : lines.first ≤ (index.position lo).line) (first : Nat) :
    ∃ n, n ≤ set.length ∧
      (set.zipIdx first).filter (fun p => isInside index lines p.1) =
        (set.take n).zipIdx first := by
  induction set generalizing lo first with
  | nil => exact ⟨0, Nat.le_refl _, rfl⟩
  | cons s rest ih =>
    obtain ⟨mid, hs, -, hrest⟩ := h
    obtain ⟨span, hspan, hstart, hle, hstop, -⟩ := hs.span
    have hline := index.line_mono hstart
    have hmid := index.line_mono hstop
    have hspanned := index.line_mono hle
    rw [List.zipIdx_cons]
    -- Entries are taken as long as they end on the lines; from the first that does not, all lie
    -- behind them.
    by_cases hlast : (index.position span.stop).line ≤ lines.last
    · have hinside : isInside index lines s = true := (isInside_iff hspan).mpr ⟨by omega, hlast⟩
      obtain ⟨n, hn, hrest⟩ := ih hrest (by omega) (first + 1)
      refine ⟨n + 1, Nat.succ_le_succ hn, ?_⟩
      rw [List.filter_cons_of_pos (by simpa using hinside), hrest, List.take_succ_cons,
        List.zipIdx_cons]
    · have houtside : isInside index lines s = false := by
        rw [Bool.eq_false_iff, ne_eq, isInside_iff hspan]
        omega
      refine ⟨0, Nat.zero_le _, ?_⟩
      rw [List.filter_cons_of_neg (by simp [houtside]),
        filter_of_after hrest (by omega) (first + 1)]
      rfl

/-- The entries of a placed set on some lines are a block of it. -/
theorem exists_filter_eq (h : Selection.PlacedSet lo hi set) (first : Nat) :
    ∃ i n, i + n ≤ set.length ∧
      (set.zipIdx first).filter (fun p => isInside index lines p.1) =
        ((set.drop i).take n).zipIdx (first + i) := by
  induction set generalizing lo first with
  | nil => exact ⟨0, 0, Nat.le_refl _, rfl⟩
  | cons s rest ih =>
    obtain ⟨mid, hs, -, hrest⟩ := h
    obtain ⟨span, hspan, hstart, hle, hstop, -⟩ := hs.span
    have hmid := index.line_mono (Nat.le_trans hle hstop)
    rw [List.zipIdx_cons]
    by_cases hinside : isInside index lines s = true
    · -- All later entries start on the lines or after them.
      have hfirst := ((isInside_iff hspan).mp hinside).1
      have hlo : lines.first ≤ (index.position mid).line := by omega
      obtain ⟨n, hn, hrest⟩ := filter_of_start hrest hlo (first + 1)
      refine ⟨0, n + 1, by simpa using Nat.succ_le_succ hn, ?_⟩
      rw [List.filter_cons_of_pos (by simpa using hinside), hrest]
      rfl
    · obtain ⟨i, n, hn, hrest⟩ := ih hrest (first + 1)
      refine ⟨i + 1, n, by simp only [List.length_cons]; omega, ?_⟩
      rw [List.filter_cons_of_neg (by simpa using hinside), hrest, List.drop_succ_cons,
        Nat.add_assoc, Nat.add_comm 1 i]

/-- The selections of a placed set on some lines are a block of it. -/
theorem exists_children_eq (e : Enclosing) (lines : LineRange)
    (h : Selection.PlacedSet lo hi e.set.selections) :
    ∃ i n, i + n ≤ e.set.selections.length ∧
      e.children lines = ((e.set.selections.drop i).take n).zipIdx i := by
  obtain ⟨i, n, hbound, hfilter⟩ := exists_filter_eq h 0
  exact ⟨i, n, hbound, by rw [children, hfilter, Nat.zero_add]⟩

end Enclosing

/-! ## What a search finds -/

namespace EnclosingSearch

/-- Whether what is gathered comes from a document: the set is that of the node at its address, and
the variables have names. -/
structure ComesFrom (d : Document) (search : EnclosingSearch) : Prop where
  set : ∀ e, search.set = some (some e) → ∃ n, d.get? e.address = some n ∧
    n.selections = e.selections
  names : ∀ p ∈ search.variableTypes, isName p.1 = true

/-- What is put in is the new entry or was there before. -/
theorem mem_insertSorted {key value : String} {entries : List (String × String)}
    {p : String × String} (h : p ∈ insertSorted key value entries) :
    p = (key, value) ∨ p ∈ entries := by
  fun_induction insertSorted key value entries with
  | case1 => simpa using h
  | case2 v rest =>
    rcases List.mem_cons.mp h with h | h
    · exact Or.inl h
    · exact Or.inr (List.mem_cons_of_mem _ h)
  | case3 k v rest => exact List.mem_cons.mp h
  | case4 k v rest _ _ ih =>
    rcases List.mem_cons.mp h with h | h
    · exact Or.inr (h ▸ List.mem_cons_self)
    · exact (ih h).imp_right (List.mem_cons_of_mem _)

variable {d : Document} {schema : Schema} {index : LineIndex} {lines : LineRange}
  {info : TypeInfo} {search : EnclosingSearch}

/-- Flagging a name keeps what is gathered. -/
theorem ComesFrom.flag (h : search.ComesFrom d) (name : String) :
    (search.flag name).ComesFrom d := by
  unfold EnclosingSearch.flag
  split
  · exact h
  · exact ⟨h.set, h.names⟩

/-- At a set of the document, what is gathered still comes from it. -/
theorem ComesFrom.atSet {set : List Selection} (owner : Option Span) (h : search.ComesFrom d)
    (hset : ∃ n, d.get? info.address = some n ∧ n.selections = set) :
    (search.atSet schema index lines info set owner).ComesFrom d := by
  unfold EnclosingSearch.atSet
  split
  · exact h
  · split
    · refine ⟨fun e he => ?_, h.names⟩
      obtain ⟨typeName, -, rfl⟩ := Option.map_eq_some_iff.mp (Option.some.inj he)
      exact hset
    · exact h

/-- At a variable with a name, what is gathered still comes from the document. -/
theorem ComesFrom.atVariable {name : String} (span : Option Span) (h : search.ComesFrom d)
    (hname : isName name = true) :
    (search.atVariable index lines info name span).ComesFrom d := by
  unfold EnclosingSearch.atVariable
  split
  · exact h.flag name
  · split
    · split
      · refine ⟨h.set, fun p hp => ?_⟩
        rcases mem_insertSorted hp with rfl | hp
        · exact hname
        · exact h.names p hp
      · exact h.flag name
    · exact h

/-- What a search gathers on the walk through a grammatical document comes from it. -/
theorem comesFrom_document (schema : Schema) (index : LineIndex) (lines : LineRange)
    (hd : d.Grammatical) :
    (Walk.document schema (visitor schema index lines) d initial).ComesFrom d := by
  rw [Walk.document_eq_run]
  refine Visitor.run_induction ⟨by simp [initial], by simp [initial]⟩ ?_
  rintro ⟨info, visit⟩ hs search hsearch
  cases visit with
  | enterSet set owner => exact hsearch.atSet owner (Visits.get?_of_enterSet hs)
  | var name span =>
    exact hsearch.atVariable span (Visits.isNamed_ofDocument hd _ hs name span rfl)
  | _ => exact hsearch

end EnclosingSearch

namespace Enclosing

/-- What is found in a grammatical document: the selection set of the node at its address, and
variables with names. -/
theorem find?_spec {schema : Schema} {d : Document} {source : String} {lines : LineRange}
    {found : Enclosing} (hd : d.Grammatical) (h : find? schema d source lines = some found) :
    found.index = LineIndex.ofString source ∧
      (∃ n, d.get? found.set.address = some n ∧ n.selections = found.set.selections) ∧
      ∀ p ∈ found.variableTypes, isName p.1 = true := by
  obtain ⟨set, hset, h⟩ := Option.bind_eq_some_iff.mp h
  cases h
  have hsearch :=
    EnclosingSearch.comesFrom_document schema (LineIndex.ofString source) lines hd
  exact ⟨rfl, hsearch.set set (Option.join_eq_some_iff.mp hset), hsearch.names⟩

end Enclosing
end EmbeddedGraphQL
