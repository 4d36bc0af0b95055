import EmbeddedGraphQL.Proofs.Document.VariableSpans
import EmbeddedGraphQL.Proofs.Edit.Innermost
import Mathlib.Data.String.Basic

/-!
# Variables of a new fragment

A search by lines collects variables on a walk of its own, apart from the selections that it takes:
each variable on the lines with the type expected of it, or as one of unknown type. This file says
what is collected after any number of visits, hence after the whole walk, and that no variable of
the selections is missed.

* `EnclosingSearch.Collected`: what has been collected after some visits of variables.
* `EnclosingSearch.Collected.see`, `EnclosingSearch.collected_run`: one visit, then a whole walk.
* `Selection.variableNames`: the variables in a selection, at any depth.
* `Selection.exists_occurrence`: each of them occurs in the document, within the selection.
* `FragmentPlan.find?_keeps_variables`: what a plan says of variables.
-/

namespace EmbeddedGraphQL

/-! ## Entries sorted by key -/

namespace EnclosingSearch

variable {key value name text : String} {entries : List (String × String)}

/-- Whether entries are sorted by key, each key once. -/
def IsSorted (entries : List (String × String)) : Prop := entries.Pairwise fun p q => p.1 < q.1

/-- An entry that is put in takes the place of the one with its key, if there is one. -/
theorem mem_insertSorted_iff (h : IsSorted entries) :
    (name, text) ∈ insertSorted key value entries ↔
      name = key ∧ text = value ∨ name ≠ key ∧ (name, text) ∈ entries := by
  fun_induction insertSorted key value entries with
  | case1 => simp
  | case2 v rest =>
    -- The names behind are larger, so that there is no second entry for the key.
    have hrest : (key, text) ∉ rest := fun hmem =>
      lt_irrefl key ((List.pairwise_cons.mp h).1 _ hmem)
    by_cases hname : name = key
    · subst hname
      simp [hrest]
    · simp [hname]
  | case3 k v rest hne hlt =>
    -- The key would have stood here or further on, where all names are larger.
    have hrest : (key, text) ∉ (k, v) :: rest := by
      intro hmem
      rcases List.mem_cons.mp hmem with heq | hmem
      · exact hne (congrArg Prod.fst heq)
      · exact lt_asymm hlt ((List.pairwise_cons.mp h).1 _ hmem)
    rw [List.mem_cons, Prod.mk.injEq]
    by_cases hname : name = key
    · subst hname
      simp only [hrest, true_and, ne_eq, not_true_eq_false, false_and, or_false]
    · simp only [hname, false_and, false_or, ne_eq, not_false_eq_true, true_and]
  | case4 k v rest hne _ ih =>
    have hne' : k ≠ key := fun heq => hne heq.symm
    rw [List.mem_cons, ih (List.pairwise_cons.mp h).2, List.mem_cons]
    by_cases hname : name = key
    · subst hname
      simp [hne]
    · simp [hname]

/-- Entries stay sorted when one is put in its place. -/
theorem IsSorted.insertSorted (h : IsSorted entries) (key value : String) :
    IsSorted (insertSorted key value entries) := by
  fun_induction EnclosingSearch.insertSorted key value entries with
  | case1 => exact List.pairwise_singleton _ _
  | case2 v rest => exact List.pairwise_cons.mpr (List.pairwise_cons.mp h)
  | case3 k v rest hne hlt =>
    refine List.pairwise_cons.mpr ⟨fun p hp => ?_, h⟩
    rcases List.mem_cons.mp hp with rfl | hp
    · exact hlt
    · exact lt_trans hlt ((List.pairwise_cons.mp h).1 p hp)
  | case4 k v rest hne hlt ih =>
    obtain ⟨hhead, hrest⟩ := List.pairwise_cons.mp h
    refine List.pairwise_cons.mpr ⟨fun p hp => ?_, ih hrest⟩
    rcases mem_insertSorted hp with rfl | hp
    · exact lt_of_le_of_ne (not_lt.mp hlt) fun heq => hne heq.symm
    · exact hhead p hp

end EnclosingSearch

/-! ## What is collected -/

namespace VariableSight

variable {index : LineIndex} {lines : LineRange}

/-- Whether a variable that is visited stands on some lines. -/
def isOn (index : LineIndex) (lines : LineRange) (v : VariableSight) : Bool :=
  v.span.any fun span => lines.contains (index.lineRange span)

/-- Whether a visit is one of a variable on some lines, with a known type. -/
def isTyped (index : LineIndex) (lines : LineRange) (name : String) (v : VariableSight) : Bool :=
  v.name = name && v.isOn index lines && v.type.isSome

/-- Whether a visit marks its variable as unresolved: it is not known where it stands, or it stands
on the lines and its type is not known. -/
def isUnresolved (index : LineIndex) (lines : LineRange) (v : VariableSight) : Bool :=
  v.span.isNone || v.isOn index lines && v.type.isNone

end VariableSight

namespace EnclosingSearch

variable {schema : Schema} {index : LineIndex} {lines : LineRange} {vs : List VariableSight}
  {search : EnclosingSearch}

/-- What has been collected after some visits of variables: for each variable the type of the last
visit on the lines with a known one, and each unresolved variable once. -/
structure Collected (index : LineIndex) (lines : LineRange) (vs : List VariableSight)
    (search : EnclosingSearch) : Prop where
  sorted : IsSorted search.variableTypes
  types : ∀ name text, (name, text) ∈ search.variableTypes ↔
    ∃ v type, (vs.filter (·.isTyped index lines name)).getLast? = some v ∧
      v.type = some type ∧ text = type.text
  nodup : search.unresolved.Nodup
  unresolved : ∀ name, name ∈ search.unresolved ↔
    ∃ v ∈ vs, v.isUnresolved index lines = true ∧ v.name = name

/-- The names without a type are the flagged one and those before it. -/
theorem mem_flag {name other : String} :
    other ∈ (search.flag name).unresolved ↔ other = name ∨ other ∈ search.unresolved := by
  unfold flag
  split
  · rename_i hmem
    exact ⟨.inr, fun h => h.elim (fun heq => heq ▸ by simpa using hmem) id⟩
  · simp [or_comm]

/-- Flagging keeps the names without a type free of repetitions. -/
theorem nodup_flag (h : search.unresolved.Nodup) (name : String) :
    (search.flag name).unresolved.Nodup := by
  unfold flag
  split
  · exact h
  · rename_i hmem
    exact List.nodup_append.mpr ⟨h, by simp, by
      rintro a ha b hb rfl
      exact hmem (by simpa using List.mem_singleton.mp hb ▸ ha)⟩

/-- Flagging a name leaves the types alone. -/
theorem variableTypes_flag (search : EnclosingSearch) (name : String) :
    (search.flag name).variableTypes = search.variableTypes := by
  unfold flag
  split <;> rfl

/-- A visit that neither gives a type nor marks its variable changes nothing. -/
theorem Collected.pass (h : search.Collected index lines vs) {v : VariableSight}
    (htyped : ∀ name, v.isTyped index lines name = false)
    (hunresolved : v.isUnresolved index lines = false) :
    search.Collected index lines (vs ++ [v]) where
  sorted := h.sorted
  types name text := by
    rw [h.types, List.filter_append, List.filter_singleton, htyped]
    simp
  nodup := h.nodup
  unresolved name := by simp [h.unresolved, hunresolved, or_and_right, exists_or]

/-- A visit that marks its variable. -/
theorem Collected.flag (h : search.Collected index lines vs) {v : VariableSight}
    (htyped : ∀ name, v.isTyped index lines name = false)
    (hunresolved : v.isUnresolved index lines = true) :
    (search.flag v.name).Collected index lines (vs ++ [v]) where
  sorted := variableTypes_flag search v.name ▸ h.sorted
  types name text := by
    rw [variableTypes_flag, h.types, List.filter_append, List.filter_singleton, htyped]
    simp
  nodup := nodup_flag h.nodup v.name
  unresolved name := by
    rw [mem_flag, h.unresolved]
    simp only [List.mem_append, List.mem_singleton, or_and_right, exists_or, exists_eq_left,
      hunresolved, true_and]
    exact or_comm.trans (or_congr_right eq_comm)

/-- A visit on the lines with a known type: it is now the last one of its variable. -/
theorem Collected.record (h : search.Collected index lines vs) {v : VariableSight}
    {type : TypeRef} (hon : v.isOn index lines = true) (htype : v.type = some type) :
    Collected index lines (vs ++ [v])
      { search with
        variableTypes := insertSorted v.name type.text search.variableTypes } where
  sorted := h.sorted.insertSorted _ _
  types name text := by
    have htyped : v.isTyped index lines name = decide (v.name = name) := by
      simp [VariableSight.isTyped, hon, htype]
    rw [mem_insertSorted_iff h.sorted, h.types, List.filter_append, List.filter_singleton, htyped,
      List.getLast?_append]
    -- The sight is the last one of its own name and none of any other.
    by_cases hname : v.name = name
    · subst hname
      simp [htype]
    · have hname' : name ≠ v.name := fun heq => hname heq.symm
      simp [hname, hname']
  nodup := h.nodup
  unresolved name := by
    have hunresolved : v.isUnresolved index lines = false := by
      have hspan : v.span.isNone = false := by
        cases hspan : v.span with
        | none => simp [VariableSight.isOn, hspan] at hon
        | some span => rfl
      simp [VariableSight.isUnresolved, hspan, htype]
    simp [h.unresolved, hunresolved, or_and_right, exists_or]

/-- What one visit of a variable does to what is collected. -/
theorem Collected.atVariable (h : search.Collected index lines vs) (info : TypeInfo)
    (name : String) (span : Option Span) :
    (search.atVariable index lines info name span).Collected index lines
      (vs ++ [⟨info.address, name, span, info.inputType⟩]) := by
  unfold EnclosingSearch.atVariable
  cases span with
  | none => exact h.flag (by simp [VariableSight.isTyped, VariableSight.isOn]) rfl
  | some span =>
    by_cases hon : lines.contains (index.lineRange span) = true
    · simp only [hon, if_true]
      cases htype : info.inputType with
      | none =>
        exact h.flag (by simp [VariableSight.isTyped])
          (by simp [VariableSight.isUnresolved, VariableSight.isOn, hon])
      | some type => exact h.record (by simp [VariableSight.isOn, hon]) rfl
    · simp only [hon]
      exact h.pass (by simp [VariableSight.isTyped, VariableSight.isOn, hon])
        (by simp [VariableSight.isUnresolved, VariableSight.isOn, hon])

/-- Selection sets have nothing to do with variables. -/
theorem Collected.atSet (h : search.Collected index lines vs) (info : TypeInfo)
    (set : List Selection) (owner : Option Span) :
    (search.atSet schema index lines info set owner).Collected index lines vs := by
  unfold EnclosingSearch.atSet
  split
  · exact h
  · split
    · exact ⟨h.sorted, h.types, h.nodup, h.unresolved⟩
    · exact h

/-- What one visit does to what is collected. -/
theorem Collected.see (h : search.Collected index lines vs) (schema : Schema) (s : Sight) :
    (visitor schema index lines s.info s.visit search).Collected index lines
      (vs ++ s.variable?.toList) := by
  obtain ⟨info, visit⟩ := s
  cases visit with
  | var name span => exact h.atVariable info name span
  | enterSet set owner => exact (List.append_nil vs).symm ▸ h.atSet info set owner
  | _ => exact (List.append_nil vs).symm ▸ h

/-- What a run over visits does to what is collected. -/
theorem collected_run (h : search.Collected index lines vs) (schema : Schema)
    (sights : List Sight) :
    ((visitor schema index lines).run sights search).Collected index lines
      (vs ++ sights.filterMap Sight.variable?) := by
  induction sights generalizing search vs with
  | nil => simpa using h
  | cons s sights ih =>
    have hnext := ih (h.see schema s)
    rw [Visitor.run_cons]
    cases hv : s.variable? with
    | none => simpa [hv] using hnext
    | some v => simpa [hv] using hnext

/-- What the walk through a document collects. -/
theorem collected_document (schema : Schema) (index : LineIndex) (lines : LineRange)
    (d : Document) :
    (Walk.document schema (visitor schema index lines) d initial).Collected index lines
      (d.occurrences.map (Occurrence.seen schema)) := by
  have hinitial : initial.Collected index lines [] :=
    ⟨List.Pairwise.nil, by simp [initial], List.nodup_nil, by simp [initial]⟩
  have hrun := collected_run hinitial schema (Visits.ofDocument schema d)
  rw [Walk.document_eq_run]
  rwa [List.nil_append, (Visits.gathers_variables schema).ofDocument, ← List.map_flatMap] at hrun

end EnclosingSearch

/-! ## Variables in selections -/

/-- The names of the variables in arguments, from left to right. -/
def Argument.variableNames (args : List Argument) : List String :=
  args.flatMap fun a => a.value.uses.map (·.name)

/-- The names of the variables in directives, from left to right. -/
def Directive.variableNames (ds : List Directive) : List String :=
  ds.flatMap fun d => Argument.variableNames d.arguments

namespace Selection

mutual

/-- The names of the variables in a selection, at any depth. -/
def variableNames : Selection → List String
  | .field f set =>
    Argument.variableNames f.arguments ++ Directive.variableNames f.directives ++
      setVariableNames set
  | .inline f set => Directive.variableNames f.directives ++ setVariableNames set
  | .spread s => Directive.variableNames s.directives

/-- The names of the variables in a selection set, at any depth. -/
def setVariableNames : List Selection → List String
  | [] => []
  | s :: rest => s.variableNames ++ setVariableNames rest

end

end Selection

namespace Standing

variable {s : Standing} {name : String}

/-- A variable in an argument of a part of a document occurs there. -/
theorem exists_occurrence_of_argument (slot : Slot) {a : Argument}
    (ha : s.argument? slot = some a) {u : VariableUse} (hu : u ∈ a.value.uses) :
    ∃ o ∈ s.occurrences, o.use.name = u.name :=
  ⟨⟨s, slot, a, u⟩, List.mem_flatMap.mpr ⟨(slot, a), mem_slots_iff.mpr ha,
    List.mem_map.mpr ⟨u, hu, rfl⟩⟩, rfl⟩

/-- Every variable of the arguments of a standing occurs at it. -/
theorem exists_occurrence_of_arguments (h : name ∈ Argument.variableNames s.arguments) :
    ∃ o ∈ s.occurrences, o.use.name = name := by
  obtain ⟨a, ha, h⟩ := List.mem_flatMap.mp h
  obtain ⟨u, hu, rfl⟩ := List.mem_map.mp h
  obtain ⟨index, hindex⟩ := List.mem_iff_getElem?.mp ha
  exact exists_occurrence_of_argument (.argument index) hindex hu

/-- Every variable of the directives of a standing occurs at it. -/
theorem exists_occurrence_of_directives (h : name ∈ Directive.variableNames s.directives) :
    ∃ o ∈ s.occurrences, o.use.name = name := by
  obtain ⟨d, hd, h⟩ := List.mem_flatMap.mp h
  obtain ⟨a, ha, h⟩ := List.mem_flatMap.mp h
  obtain ⟨u, hu, rfl⟩ := List.mem_map.mp h
  obtain ⟨number, hnumber⟩ := List.mem_iff_getElem?.mp hd
  obtain ⟨index, hindex⟩ := List.mem_iff_getElem?.mp ha
  refine exists_occurrence_of_argument (.directive number index) ?_ hu
  rw [argument?, hnumber, Option.bind_some, hindex]

end Standing

namespace Selection

mutual

/-- A variable in a selection occurs at something that stands in it. -/
theorem exists_occurrence (s : Selection) {name : String} (h : name ∈ s.variableNames)
    (address : Address) (line : List Node) :
    ∃ t ∈ s.standings address line, ∃ o ∈ t.occurrences, o.use.name = name := by
  cases s with
  | field f set =>
    rw [variableNames, List.mem_append, List.mem_append] at h
    rw [standings]
    rcases h with (h | h) | h
    · exact ⟨_, List.mem_cons_self, Standing.exists_occurrence_of_arguments h⟩
    · exact ⟨_, List.mem_cons_self, Standing.exists_occurrence_of_directives h⟩
    · obtain ⟨t, ht, ho⟩ := exists_set_occurrence set h address (.field f set :: line) 0
      exact ⟨t, List.mem_cons_of_mem _ ht, ho⟩
  | inline f set =>
    rw [variableNames, List.mem_append] at h
    rw [standings]
    rcases h with h | h
    · exact ⟨_, List.mem_cons_self, Standing.exists_occurrence_of_directives h⟩
    · obtain ⟨t, ht, ho⟩ := exists_set_occurrence set h address (.inline f set :: line) 0
      exact ⟨t, List.mem_cons_of_mem _ ht, ho⟩
  | spread s =>
    rw [variableNames] at h
    exact ⟨_, List.mem_cons_self, Standing.exists_occurrence_of_directives h⟩

/-- A variable in a selection set occurs at something that stands in it. -/
theorem exists_set_occurrence (set : List Selection) {name : String}
    (h : name ∈ setVariableNames set) (owner : Address) (line : List Node) (index : Nat) :
    ∃ t ∈ setStandings owner line index set, ∃ o ∈ t.occurrences, o.use.name = name := by
  cases set with
  | nil => cases h
  | cons s rest =>
    rw [setVariableNames, List.mem_append] at h
    rw [setStandings]
    rcases h with h | h
    · obtain ⟨t, ht, ho⟩ := exists_occurrence s h (owner.child index) line
      exact ⟨t, List.mem_append_left _ ht, ho⟩
    · obtain ⟨t, ht, ho⟩ := exists_set_occurrence rest h owner line (index + 1)
      exact ⟨t, List.mem_append_right _ ht, ho⟩

end

end Selection

/-! ## Plans -/

namespace Occurrence

/-- Whether an occurrence stands on some lines. -/
def isOn (index : LineIndex) (lines : LineRange) (o : Occurrence) : Bool :=
  o.use.span.any fun span => lines.contains (index.lineRange span)

/-- Whether an occurrence is, in document order, the last one of its variable on some lines of
which the expected type is known. -/
structure IsLastTyped (schema : Schema) (d : Document) (index : LineIndex) (lines : LineRange)
    (o : Occurrence) (type : TypeRef) : Prop where
  standsIn : o.In d
  isOn : o.isOn index lines = true
  type : o.expectedType schema = some type
  last : ∀ p : Occurrence, p.In d → p.use.name = o.use.name → p.isOn index lines = true →
    (p.expectedType schema).isSome → p = o ∨ p.Before o

variable {schema : Schema} {d : Document} {index : LineIndex} {lines : LineRange}

/-- An occurrence is on some lines exactly if it starts and ends on them. -/
theorem isOn_iff {o : Occurrence} {span : Span} (h : o.use.span = some span) :
    o.isOn index lines = true ↔
      lines.first ≤ (index.position span.start).line ∧
        (index.position span.stop).line ≤ lines.last := by
  simp only [isOn, h, Option.any_some, LineRange.contains, LineIndex.lineRange, Bool.and_eq_true]
  exact and_congr decide_eq_true_iff decide_eq_true_iff

/-- What occurs in a document is listed at the part of the document that it stands at. -/
theorem In.mem_occurrences {o : Occurrence} (h : o.In d) : o ∈ o.standing.occurrences :=
  List.mem_flatMap.mpr ⟨(o.slot, o.argument), Standing.mem_slots_iff.mpr h.argument,
    List.mem_map.mpr ⟨o.use, (Value.mem_uses_iff _).mpr h.value, rfl⟩⟩

/-- Of two occurrences only one comes before the other. -/
theorem Before.asymm {o p : Occurrence} (h : o.Before p) : ¬ p.Before o := by
  rintro (hp | ⟨haddress, hp⟩)
  · rcases h with ho | ⟨heq, -⟩
    · exact List.lt_asymm ho hp
    · exact Address.not_before_self _ (heq ▸ hp)
  · rcases h with ho | ⟨-, ho | ⟨hslot, ho⟩⟩
    · exact Address.not_before_self _ (haddress ▸ ho)
    · rcases hp with hp | ⟨hslot, -⟩
      · exact List.lt_asymm ho hp
      · exact List.lt_irrefl _ (hslot ▸ ho)
    · rcases hp with hp | ⟨-, hp⟩
      · exact List.lt_irrefl _ (hslot ▸ hp)
      · exact List.lt_asymm ho hp

/-- A variable has one last occurrence on some lines with a known type. -/
theorem IsLastTyped.eq {o p : Occurrence} {type type' : TypeRef}
    (ho : o.IsLastTyped schema d index lines type) (hp : p.IsLastTyped schema d index lines type')
    (hname : o.use.name = p.use.name) : o = p := by
  have hbefore := hp.last o ho.standsIn hname ho.isOn (ho.type ▸ rfl)
  have hbehind := ho.last p hp.standsIn hname.symm hp.isOn (hp.type ▸ rfl)
  rcases hbefore with heq | hbefore
  · exact heq
  · exact hbehind.elim Eq.symm fun hbehind => absurd hbefore hbehind.asymm

/-- What makes the visit of an occurrence one on the lines with a known type. -/
theorem isTyped_seen_iff {name : String} {o : Occurrence} :
    (o.seen schema).isTyped index lines name = true ↔
      o.use.name = name ∧ o.isOn index lines = true ∧ (o.expectedType schema).isSome = true := by
  simp only [VariableSight.isTyped, Bool.and_eq_true, decide_eq_true_eq, and_assoc]
  exact Iff.rfl

/-- The last of the visits of a variable on the lines with a known type is that of the last such
occurrence. -/
theorem exists_isLastTyped {name : String} {v : VariableSight} {type : TypeRef}
    (hv : ((d.occurrences.map (seen schema)).filter (·.isTyped index lines name)).getLast? =
      some v) (htype : v.type = some type) :
    ∃ o : Occurrence, o.IsLastTyped schema d index lines type ∧ o.use.name = name := by
  rw [List.filter_map, List.getLast?_map, Option.map_eq_some_iff] at hv
  obtain ⟨o, ho, rfl⟩ := hv
  obtain ⟨init, hinit⟩ := List.getLast?_eq_some_iff.mp ho
  obtain ⟨hmem, htyped⟩ := List.mem_filter.mp (List.mem_of_getLast? ho)
  obtain ⟨hname, hon, -⟩ := isTyped_seen_iff.mp htyped
  have hpairwise := d.occurrences_pairwise.filter ((·.isTyped index lines name) ∘ seen schema)
  rw [hinit, List.pairwise_append] at hpairwise
  refine ⟨o, ⟨Document.mem_occurrences_iff.mp hmem, hon, htype, ?_⟩, hname⟩
  intro p hp hpname hpon hptype
  have hpmem : p ∈ d.occurrences.filter ((·.isTyped index lines name) ∘ seen schema) :=
    List.mem_filter.mpr ⟨Document.mem_occurrences_iff.mpr hp,
      isTyped_seen_iff.mpr ⟨hpname.trans hname, hpon, hptype⟩⟩
  rw [hinit, List.mem_append, List.mem_singleton] at hpmem
  exact hpmem.symm.imp_right fun hp => hpairwise.2.2 p hp o (List.mem_singleton.mpr rfl)

/-- The last of the visits of a variable on the lines with a known type, for an occurrence on the
lines with a known type. -/
theorem exists_getLast? {o : Occurrence} {type : TypeRef} (ho : o.In d)
    (hon : o.isOn index lines = true) (htype : o.expectedType schema = some type) :
    ∃ v last, ((d.occurrences.map (seen schema)).filter
        (·.isTyped index lines o.use.name)).getLast? = some v ∧ v.type = some last := by
  have hmem : o.seen schema ∈ (d.occurrences.map (seen schema)).filter
      (·.isTyped index lines o.use.name) :=
    List.mem_filter.mpr ⟨List.mem_map_of_mem (Document.mem_occurrences_iff.mpr ho),
      isTyped_seen_iff.mpr ⟨rfl, hon, htype ▸ rfl⟩⟩
  obtain ⟨v, hv⟩ := Option.isSome_iff_exists.mp
    (List.getLast?_isSome.mpr (List.ne_nil_of_mem hmem))
  have htyped := (List.mem_filter.mp (List.mem_of_getLast? hv)).2
  simp only [VariableSight.isTyped, Bool.and_eq_true] at htyped
  obtain ⟨last, hlast⟩ := Option.isSome_iff_exists.mp htyped.2
  exact ⟨v, last, hv, hlast⟩

end Occurrence

/-- What is in the set of a part of a document lies in the span of that part. -/
theorem Document.within_of_inSet {text : String} {d : Document} (h : parse? text = some d)
    {s t : Standing} (hs : s.In d) (ht : t.In d) (hin : s.address.InSet 0 t.address)
    {outer inner : Span} (houter : s.span = some outer) (hinner : t.span = some inner) :
    inner.Within outer := by
  rcases eq_or_of_pairwise (d.standings_pairwise.and (standings_laidOut h))
    (mem_standings_iff.mpr hs) (mem_standings_iff.mpr ht) with rfl | ⟨-, hlaid⟩ | ⟨hbefore, -⟩
  · exact absurd hin.before (Address.not_before_self _)
  · exact hlaid.inside hin outer houter inner hinner
  · -- What is in the set of something comes after it.
    exact absurd hin.before (List.lt_asymm hbefore)

namespace FragmentPlan

variable {schema : Schema} {d : Document} {source : String} {lines : LineRange}
  {plan : FragmentPlan}

/-- Whether an occurrence stands in one of the selections of a plan. -/
def Holds (plan : FragmentPlan) (o : Occurrence) : Prop :=
  ∃ i ∈ plan.indices, o.standing.address = plan.target.child i ∨
    (plan.target.child i).InSet 0 o.standing.address

/-- The selections of a plan are selections on the lines of the node at its target. -/
theorem exists_target (hd : Document.parse? source = some d)
    (h : find? schema d source lines = some plan) :
    ∃ ancestors node, Standing.In d ⟨plan.target, ancestors, .node node⟩ ∧
      (∀ s ∈ plan.selections, ∃ i ∈ plan.indices, node.selections[i]? = some s) ∧
      ∀ i ∈ plan.indices, ∃ s, node.selections[i]? = some s ∧
        Enclosing.isInside (LineIndex.ofString source) lines s = true := by
  obtain ⟨found, hfound, h⟩ := Option.bind_eq_some_iff.mp h
  obtain ⟨hindex, ⟨node, hnode, hset⟩, -⟩ :=
    Enclosing.find?_spec (Document.grammatical_of_parse? hd) hfound
  obtain ⟨ancestors, hin⟩ := Document.get?_eq_some_iff.mp hnode
  -- The children that the lines hold are entries of the set, with their numbers.
  have hchild : ∀ p ∈ found.children lines, node.selections[p.2]? = some p.1 ∧
      Enclosing.isInside (LineIndex.ofString source) lines p.1 = true := by
    intro p hp
    obtain ⟨hmem, hinside⟩ := List.mem_filter.mp hp
    rw [hset, ← hindex]
    exact ⟨List.mem_zipIdx_iff_getElem?.mp hmem, hinside⟩
  simp only at h
  split at h
  · cases h
  · cases h
    refine ⟨ancestors, node, hin, fun s hs => ?_, fun i hi => ?_⟩
    · obtain ⟨p, hp, rfl⟩ := List.mem_map.mp hs
      exact ⟨p.2, List.mem_map_of_mem hp, (hchild p hp).1⟩
    · obtain ⟨p, hp, rfl⟩ := List.mem_map.mp hi
      exact ⟨p.1, hchild p hp⟩

/-- The variables of a plan are those that the walk through the document collects. -/
theorem exists_collected (h : find? schema d source lines = some plan) :
    ∃ search : EnclosingSearch, plan.variableTypes = search.variableTypes ∧
      plan.unresolved = search.unresolved ∧
      search.Collected (LineIndex.ofString source) lines
        (d.occurrences.map (Occurrence.seen schema)) := by
  obtain ⟨found, hfound, h⟩ := Option.bind_eq_some_iff.mp h
  obtain ⟨set, -, hfound⟩ := Option.bind_eq_some_iff.mp hfound
  cases hfound
  simp only at h
  split at h
  · cases h
  · cases h
    exact ⟨_, rfl, rfl, EnclosingSearch.collected_document schema _ lines d⟩

/-- What stands in the selections of a plan stands on its lines. -/
theorem isOn_of_holds (hd : Document.parse? source = some d)
    (h : find? schema d source lines = some plan) {o : Occurrence} (ho : o.In d)
    (hholds : plan.Holds o) : o.isOn (LineIndex.ofString source) lines = true := by
  obtain ⟨ancestors, node, hnode, -, hindices⟩ := exists_target hd h
  obtain ⟨i, hi, haddress⟩ := hholds
  obtain ⟨s, hs, hinside⟩ := hindices i hi
  have hchild : Standing.In d ⟨plan.target.child i, node :: ancestors, .ofSelection s⟩ :=
    .selection hnode hs
  obtain ⟨outer, houter, -⟩ := Document.exists_span hd (Document.mem_standings_iff.mpr hchild)
  have hspan : s.span = some outer := by cases s <;> exact houter
  obtain ⟨span, own, hospan, hown, hwithin⟩ := Document.variablesPlaced_of_parse? hd
    (Document.mem_standings_iff.mpr ho.standing) o ho.mem_occurrences
  have hown' : own.Within outer := by
    rcases haddress with haddress | hset
    · have hsame : o.standing = ⟨plan.target.child i, node :: ancestors, .ofSelection s⟩ :=
        Standing.In.eq_of_address ho.standing hchild haddress
      rw [hsame] at hown
      cases houter.symm.trans hown
      exact ⟨Nat.le_refl _, Nat.le_refl _⟩
    · exact Document.within_of_inSet hd hchild ho.standing hset houter hown
  -- The variable lies in the selection, and the selection lies on the lines.
  obtain ⟨hfirst, hlast⟩ := (Enclosing.isInside_iff hspan).mp hinside
  have hstart := (LineIndex.ofString source).line_mono (Nat.le_trans hown'.1 hwithin.1)
  have hstop := (LineIndex.ofString source).line_mono (Nat.le_trans hwithin.2 hown'.2)
  rw [Occurrence.isOn_iff hospan]
  omega

/-- A variable of the selections of a plan occurs in them. -/
theorem exists_holds (hd : Document.parse? source = some d)
    (h : find? schema d source lines = some plan) {s : Selection} (hs : s ∈ plan.selections)
    {name : String} (hname : name ∈ s.variableNames) :
    ∃ o : Occurrence, o.In d ∧ plan.Holds o ∧ o.use.name = name := by
  obtain ⟨ancestors, node, hnode, hselections, -⟩ := exists_target hd h
  obtain ⟨i, hi, hs⟩ := hselections s hs
  obtain ⟨t, ht, o, ho, rfl⟩ :=
    s.exists_occurrence hname (plan.target.child i) (node :: ancestors)
  have htin := Selection.in_of_mem_standings s (.selection hnode hs) ht
  have hin : o.In d := Document.mem_occurrences_iff.mp
    (List.mem_flatMap.mpr ⟨t, Document.mem_standings_iff.mpr htin, ho⟩)
  have hstanding : o.standing = t := by
    obtain ⟨p, -, ho⟩ := List.mem_flatMap.mp ho
    obtain ⟨u, -, rfl⟩ := List.mem_map.mp ho
    rfl
  refine ⟨o, hin, ⟨i, hi, ?_⟩, rfl⟩
  rw [hstanding]
  exact (s.standings_ordered (plan.target.child i) (node :: ancestors)).2 t ht

/-- The types of a plan are those of the last occurrences on its lines with known types. -/
theorem mem_variableTypes_iff (h : find? schema d source lines = some plan) {name text : String} :
    (name, text) ∈ plan.variableTypes ↔ ∃ (o : Occurrence) (type : TypeRef),
      o.IsLastTyped schema d (LineIndex.ofString source) lines type ∧ o.use.name = name ∧
        text = type.text := by
  obtain ⟨search, htypes, -, hcollected⟩ := exists_collected h
  rw [htypes, hcollected.types]
  constructor
  · rintro ⟨v, type, hv, htype, rfl⟩
    obtain ⟨o, ho, hname⟩ := Occurrence.exists_isLastTyped hv htype
    exact ⟨o, type, ho, hname, rfl⟩
  · rintro ⟨o, type, ho, rfl, rfl⟩
    obtain ⟨v, last, hv, hlast⟩ := Occurrence.exists_getLast? ho.standsIn ho.isOn ho.type
    obtain ⟨p, hp, hname⟩ := Occurrence.exists_isLastTyped hv hlast
    have heq := ho.eq hp hname.symm
    subst heq
    exact ⟨v, last, hv, hlast, by rw [Option.some.inj (ho.type.symm.trans hp.type)]⟩

/-- The unresolved variables of a plan are those that occur on its lines without a known type. -/
theorem mem_unresolved_iff (hd : Document.parse? source = some d)
    (h : find? schema d source lines = some plan) {name : String} :
    name ∈ plan.unresolved ↔ ∃ o : Occurrence, o.In d ∧ o.use.name = name ∧
      o.isOn (LineIndex.ofString source) lines = true ∧ o.expectedType schema = none := by
  obtain ⟨search, -, hunresolved, hcollected⟩ := exists_collected h
  rw [hunresolved, hcollected.unresolved]
  simp only [List.mem_map, exists_exists_and_eq_and, Document.mem_occurrences_iff]
  refine exists_congr fun o => ?_
  refine and_congr_right fun ho => ?_
  -- Every variable of a document that was read has a span.
  obtain ⟨span, -, hspan, -⟩ := Document.variablesPlaced_of_parse? hd
    (Document.mem_standings_iff.mpr ho.standing) o ho.mem_occurrences
  simp only [VariableSight.isUnresolved, Occurrence.seen, hspan, Option.isNone_some,
    Bool.false_or, Bool.and_eq_true, Option.isNone_iff_eq_none]
  rw [and_comm, ← hspan]
  exact Iff.rfl

/-- No variable of a plan is lost. Each variable in its selections, at any depth, has a type or is
unresolved. A type is that of the last occurrence of the variable on the lines whose type is known,
and each variable that occurs so has one. The unresolved variables are those that occur on the lines
without a known type, each once. -/
theorem find?_keeps_variables (hd : Document.parse? source = some d)
    (h : find? schema d source lines = some plan) :
    let index := LineIndex.ofString source
    (∀ s ∈ plan.selections, ∀ name ∈ s.variableNames,
        (∃ text, (name, text) ∈ plan.variableTypes) ∨ name ∈ plan.unresolved) ∧
      (∀ name text, (name, text) ∈ plan.variableTypes ↔ ∃ (o : Occurrence) (type : TypeRef),
        o.IsLastTyped schema d index lines type ∧ o.use.name = name ∧ text = type.text) ∧
      (plan.variableTypes.map Prod.fst).Nodup ∧
      plan.unresolved.Nodup ∧
      ∀ name, name ∈ plan.unresolved ↔ ∃ o : Occurrence, o.In d ∧ o.use.name = name ∧
        o.isOn index lines = true ∧ o.expectedType schema = none := by
  intro index
  obtain ⟨search, htypes, hunresolved, hcollected⟩ := exists_collected h
  refine ⟨fun s hs name hname => ?_, fun name text => mem_variableTypes_iff h, ?_,
    hunresolved ▸ hcollected.nodup, fun name => mem_unresolved_iff hd h⟩
  · obtain ⟨o, ho, hholds, rfl⟩ := exists_holds hd h hs hname
    have hon := isOn_of_holds hd h ho hholds
    -- An occurrence without a type leaves its name unresolved; with one, the last of the kind
    -- decides.
    cases htype : o.expectedType schema with
    | none => exact .inr ((mem_unresolved_iff hd h).mpr ⟨o, ho, rfl, hon, htype⟩)
    | some type =>
      obtain ⟨v, last, hv, hlast⟩ := Occurrence.exists_getLast? ho hon htype
      obtain ⟨p, hp, hname⟩ := Occurrence.exists_isLastTyped hv hlast
      exact .inl ⟨last.text, (mem_variableTypes_iff h).mpr ⟨p, last, hp, hname, rfl⟩⟩
  · -- Entries that are sorted by their keys have each key once.
    rw [htypes, List.Nodup, List.pairwise_map]
    exact hcollected.sorted.imp fun hlt => ne_of_lt hlt

end FragmentPlan

/-- The text of a query on five lines: `search` with a filter and `friends`, which takes three
lines, and `user`. -/
def searchText : String :=
  "\x7b\n  search(filter: \x7bnested: \x7bname: $n, age: [$a]\x7d\x7d) \x7b\n" ++
    "    friends(ids: [$i]) @include(if: $k)\n  \x7d user(id: $u)\n\x7d"

namespace FragmentPlan

/-- On the three lines of `search` and `user`, where the type of `$a` is not known. -/
theorem find?_keeps_variables_search :
    ∃ d plan, Document.parse? searchText = some d ∧
      find? Walk.searchTypes d searchText ⟨1, 3⟩ = some plan ∧
      plan.variableTypes =
        [("i", "ID!"), ("k", "Boolean!"), ("n", "String"), ("u", "ID!")] ∧
      plan.unresolved = ["a"] ∧
      (∀ s ∈ plan.selections, ∀ name ∈ s.variableNames,
        (∃ text, (name, text) ∈ plan.variableTypes) ∨ name ∈ plan.unresolved) ∧
      ∃ (o : Occurrence) (type : TypeRef),
        o.IsLastTyped Walk.searchTypes d (LineIndex.ofString searchText) ⟨1, 3⟩ type ∧
          o.use.name = "i" ∧ type.text = "ID!" := by
  have hfound : ((Document.parse? searchText).bind fun d =>
      (find? Walk.searchTypes d searchText ⟨1, 3⟩).map fun plan =>
        (plan.variableTypes, plan.unresolved)) =
      some ([("i", "ID!"), ("k", "Boolean!"), ("n", "String"), ("u", "ID!")], ["a"]) := by
    decide +kernel
  obtain ⟨d, hd, hfound⟩ := Option.bind_eq_some_iff.mp hfound
  obtain ⟨plan, hplan, heq⟩ := Option.map_eq_some_iff.mp hfound
  obtain ⟨htypes, hunresolved⟩ := Prod.mk.inj heq
  obtain ⟨hkept, hlast, -⟩ := find?_keeps_variables hd hplan
  obtain ⟨o, type, ho, hname, htext⟩ := (hlast "i" "ID!").mp (by simp [htypes])
  exact ⟨d, plan, hd, hplan, htypes, hunresolved, hkept, o, type, ho, hname, htext.symm⟩

end FragmentPlan

end EmbeddedGraphQL
