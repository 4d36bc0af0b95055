import EmbeddedGraphQL.Proofs.Document.Exchange
import EmbeddedGraphQL.Proofs.Document.Printed
import EmbeddedGraphQL.Proofs.Edit.Inlining
import EmbeddedGraphQL.Proofs.Schema.Built

/-!
# Reading what was moved into a fragment

A fragment that selections are moved into, and the document with a spread in their place, are made
of parts of a grammatical document and of a name. They can be read again from what is printed for
them unless the name is `on`, which is a name like any other but names no fragment.

* `Standing.In.exists_same`: what stands in a document stands in every document that is the same.
* `FragmentPlan.Fits`: what is known about the parts that a plan is made of.
* `FragmentPlan.grammatical_definition`, `FragmentPlan.grammatical_replaced`: the fragment and the
  document can be written.
* `FragmentPlan.reparses_iff`: when they are read again.
-/

namespace EmbeddedGraphQL

open Grammar (maxDepth)

/-! ## Documents that are the same -/

/-- Whether two parts of documents are alike: nodes with the same selections, or spreads of the same
fragment. -/
def Entry.Alike : Entry → Entry → Prop
  | .node n, .node m => Selection.sameSet n.selections m.selections = true
  | .spread s, .spread t => s.name = t.name
  | _, _ => False

/-- Definitions that are the same are alike. -/
theorem Definition.exists_alike {x y : Definition} {n : Node} (h : x.same y = true)
    (hn : Node.ofDefinition? x = some n) :
    ∃ m, Node.ofDefinition? y = some m ∧ Entry.Alike (.node n) (.node m) := by
  cases x <;> cases hn <;> cases y <;> try cases h
  · exact ⟨_, rfl, (Bool.and_eq_true_iff.mp h).2⟩
  · exact ⟨_, rfl, (Bool.and_eq_true_iff.mp h).2⟩

/-- Selections that are the same are alike. -/
theorem Selection.alike_of_same {s t : Selection} (h : s.same t = true) :
    (Entry.ofSelection s).Alike (.ofSelection t) := by
  cases s <;> cases t <;> simp_all [Selection.same, Entry.ofSelection, Entry.Alike, Node.selections]

/-- What stands in a document stands, at the same address, in every document that is the same. -/
theorem Standing.In.exists_same {d e : Document} (h : d.same e = true) {s : Standing}
    (hin : s.In d) :
    ∃ line entry, Standing.In e ⟨s.address, line, entry⟩ ∧ s.entry.Alike entry := by
  induction hin with
  | definition hroot =>
    obtain ⟨x, hx, hxn⟩ := Option.bind_eq_some_iff.mp hroot
    obtain ⟨y, hy, hsame⟩ := exists_getElem?_of_sameList h hx
    obtain ⟨m, hm, halike⟩ := Definition.exists_alike hsame hxn
    exact ⟨[], .node m, .definition (by rw [Document.root?, hy, Option.bind_some, hm]), halike⟩
  | @selection address ancestors node index s hnode hs ih =>
    obtain ⟨line, entry, hin, halike⟩ := ih
    cases entry with
    | spread t => exact halike.elim
    | node m =>
      have hsets : sameList Selection.same node.selections m.selections = true := by
        rw [← Selection.sameSet_eq]
        exact halike
      obtain ⟨t, ht, hsame⟩ := exists_getElem?_of_sameList hsets hs
      exact ⟨m :: line, .ofSelection t, .selection hin ht, Selection.alike_of_same hsame⟩

/-- No spread of a grammatical document is called `on`. -/
theorem Document.Grammatical.spread_ne_on {d : Document} (h : d.Grammatical) {a : Address}
    {line : List Node} {t : FragmentSpread} (hin : Standing.In d ⟨a, line, .spread t⟩) :
    t.name ≠ "on" := by
  generalize hs : (⟨a, line, .spread t⟩ : Standing) = s at hin
  cases hin with
  | definition hroot => cases hs
  | @selection address ancestors node index s hnode hsel =>
    obtain ⟨-, -, hentry⟩ := (Standing.mk.injEq ..).mp hs
    have hset := Selection.grammaticalSet_iff.mp (h.node hnode).selections
    cases s with
    | spread u =>
      cases hentry
      exact (hset _ (List.mem_of_getElem? hsel)).2.notOn
    | _ => cases hentry

/-- A document with a spread called `on` is never read. -/
theorem Document.not_same_of_spread_on {d : Document} {a : Address} {line : List Node}
    {t : FragmentSpread} (hin : Standing.In d ⟨a, line, .spread t⟩) (ht : t.name = "on")
    (text : String) : ¬ ∃ e, parse? text = some e ∧ d.same e = true := by
  rintro ⟨e, hparse, hsame⟩
  -- What was read would have a spread called `on` at the same address.
  obtain ⟨line', entry, hin', halike⟩ := hin.exists_same hsame
  cases entry with
  | node m => exact halike
  | spread u =>
    exact (grammatical_of_parse? hparse).spread_ne_on hin' (halike.symm.trans ht)

/-- A fragment called `on` is never read. -/
theorem Fragment.not_same_of_on {f : Fragment} (hf : f.name = "on") (text : String) :
    ¬ ∃ e, Document.parse? text = some e ∧ Document.same ⟨[.fragment f]⟩ e = true := by
  rintro ⟨e, hparse, hsame⟩
  obtain ⟨y, hy, hsame⟩ := exists_getElem?_of_sameList hsame (i := 0) rfl
  have hgrammatical :=
    (Document.grammatical_of_parse? hparse).definitions y (List.mem_of_getElem? hy)
  cases y with
  | fragment g =>
    have hname : f.name = g.name := by
      simp only [Definition.same, Fragment.same, Bool.and_eq_true, beq_iff_eq] at hsame
      exact hsame.1.1.1
    exact hgrammatical.notOn (hname.symm.trans hf)
  | _ => cases hsame

/-! ## Names of types -/

/-- The types of a schema that is read from texts have names. -/
theorem Schema.isName_of_ofTexts? {texts : List String} {schema : Schema} {typeName : String}
    (h : ofTexts? texts = some schema) (htype : (schema.type? typeName).isSome) :
    isName typeName = true := by
  obtain ⟨documents, hdocuments, h⟩ := Option.bind_eq_some_iff.mp h
  have hbuilt : schema.Built fun name => isName name = true := by
    refine built_of_ofDocuments? (by decide +kernel) ?_ h
    rintro d hd x hx description type span rfl
    obtain ⟨text, -, hparse⟩ := exists_of_mem_mapM hdocuments hd
    exact ((Document.grammatical_of_parse? hparse).definitions _ hx).name
  obtain ⟨type, htype⟩ := Option.isSome_iff_exists.mp htype
  obtain ⟨hmem, rfl⟩ := declared_of_type? htype
  exact (hbuilt.types type hmem).name

/-! ## Plans -/

/-- Whether the type of the set that a search has gathered is one of the schema. -/
def EnclosingSearch.IsTyped (schema : Schema) (search : EnclosingSearch) : Prop :=
  ∀ e, search.set = some (some e) → (schema.type? e.typeName).isSome

namespace EnclosingSearch

variable {schema : Schema} {search : EnclosingSearch}

/-- Meeting a set keeps a search typed. -/
theorem IsTyped.atSet (h : search.IsTyped schema) (index : LineIndex) (lines : LineRange)
    (info : TypeInfo) (set : List Selection) (owner : Option Span) :
    (search.atSet schema index lines info set owner).IsTyped schema := by
  unfold EnclosingSearch.atSet
  split
  · exact h
  · split
    · intro e he
      obtain ⟨typeName, hknown, rfl⟩ := Option.map_eq_some_iff.mp (Option.some.inj he)
      obtain ⟨type, htype, hname⟩ := Option.bind_eq_some_iff.mp hknown
      rw [TypeInfo.parentType, hname, Option.bind_some] at htype
      exact Option.isSome_of_eq_some htype
    · exact h

/-- Meeting a variable keeps a search typed. -/
theorem IsTyped.atVariable (h : search.IsTyped schema) (index : LineIndex) (lines : LineRange)
    (info : TypeInfo) (name : String) (span : Option Span) :
    (search.atVariable index lines info name span).IsTyped schema := by
  have hflag : (search.flag name).IsTyped schema := by
    unfold EnclosingSearch.flag
    split <;> exact h
  unfold EnclosingSearch.atVariable
  split
  · exact hflag
  · split
    · split
      · exact h
      · exact hflag
    · exact h

/-- The type of the set that a search gathers on a walk is one of the schema. -/
theorem isTyped_document (schema : Schema) (index : LineIndex) (lines : LineRange)
    (d : Document) :
    (Walk.document schema (visitor schema index lines) d initial).IsTyped schema := by
  rw [Walk.document_eq_run]
  refine Visitor.run_induction (by simp [IsTyped, initial]) ?_
  rintro ⟨info, visit⟩ - search hsearch
  cases visit with
  | enterSet set owner => exact hsearch.atSet index lines info set owner
  | var name span => exact hsearch.atVariable index lines info name span
  | _ => exact hsearch

end EnclosingSearch

namespace FragmentPlan

/-- What is known about the parts of a plan: it takes some of the selections of a node, on a type of
the schema, and its variables have names. -/
structure Fits (schema : Schema) (d : Document) (plan : FragmentPlan) (node : Node) : Prop where
  target : d.get? plan.target = some node
  nonempty : plan.selections ≠ []
  selections : ∀ s ∈ plan.selections, s ∈ node.selections
  indices : plan.indices ≠ []
  typeName : (schema.type? plan.typeName).isSome
  names : ∀ p ∈ plan.variableTypes, isName p.1 = true

variable {schema : Schema} {d d' : Document} {plan : FragmentPlan} {node : Node} {name : String}

/-- What is planned in a grammatical document, whatever the text its lines are counted in. -/
theorem exists_fits_of_find? {source : String} {lines : LineRange} (hd : d.Grammatical)
    (h : find? schema d source lines = some plan) : ∃ node, plan.Fits schema d node := by
  obtain ⟨found, hfound, h⟩ := Option.bind_eq_some_iff.mp h
  obtain ⟨-, ⟨node, hnode, hset⟩, hnames⟩ := Enclosing.find?_spec hd hfound
  have htype : (schema.type? found.set.typeName).isSome := by
    obtain ⟨set, hjoin, hfound⟩ := Option.bind_eq_some_iff.mp hfound
    cases hfound
    exact EnclosingSearch.isTyped_document schema _ lines d set (Option.join_eq_some_iff.mp hjoin)
  simp only at h
  split at h
  · cases h
  · rename_i hsome
    cases h
    have hne : found.children lines ≠ [] := by simpa using hsome
    refine ⟨node, hnode, by simpa using hne, fun s hs => ?_, by simpa using hne, htype, hnames⟩
    obtain ⟨⟨s, index⟩, hmem, rfl⟩ := List.mem_map.mp hs
    rw [hset]
    exact List.fst_mem_of_mem_zipIdx (List.mem_filter.mp hmem).1

/-- Steps that may be refused are both taken. -/
theorem bind_eq_ok {α β : Type} {x : Except EditError α} {f : α → Except EditError β} {b : β}
    (h : x >>= f = .ok b) : ∃ a, x = .ok a ∧ f a = .ok b := by
  cases x with
  | error e => cases h
  | ok a => exact ⟨a, rfl, h⟩

/-- A name that passes the check is a name, and is given back. -/
theorem checkedName_eq_ok {text checked : String} (h : checkedName text = .ok checked) :
    isName text = true ∧ checked = text := by
  rw [checkedName] at h
  split at h
  · rename_i htext
    exact ⟨htext, (Except.ok.inj h).symm⟩
  · cases h

/-- The fragment of a plan. -/
theorem definition_eq_ok {fragment : Fragment} (h : plan.definition name = .ok fragment) :
    isName name = true ∧ ∃ ds, plan.declarations = .ok ds ∧
      fragment = ⟨name, plan.typeName, ds, plan.selections, none⟩ := by
  obtain ⟨ds, hds, hrest⟩ := bind_eq_ok h
  obtain ⟨checked, hchecked, hmade⟩ := bind_eq_ok hrest
  obtain ⟨hname, heq⟩ := checkedName_eq_ok hchecked
  rw [heq] at hmade
  exact ⟨hname, ds, hds, (Except.ok.inj hmade).symm⟩

/-- The document with a spread in the place of the selections of a plan. -/
theorem replaceWithSpread_eq_ok (hplan : plan.Fits schema d node)
    (h : d.replaceWithSpread plan name = .ok d') :
    ∃ ds first, plan.passedOn = .ok ds ∧
      d.set? plan.target (node.withSelections (Selection.insertAt first
        (.spread ⟨name, ds, none⟩) (Selection.without plan.indices node.selections))) =
        some d' := by
  obtain ⟨ds, hds, hrest⟩ := bind_eq_ok h
  obtain ⟨spread, hspread, hput⟩ := bind_eq_ok hrest
  obtain ⟨checked, hchecked, hmade⟩ := bind_eq_ok hspread
  rw [(checkedName_eq_ok hchecked).2] at hmade
  obtain rfl := Except.ok.inj hmade
  obtain ⟨first, hfirst⟩ := Option.ne_none_iff_exists'.mp
    (List.min?_eq_none_iff.not.mpr hplan.indices)
  refine ⟨ds, first, hds, ?_⟩
  simp only [hfirst, Document.changeSelections, Document.modify?_eq_set? hplan.target] at hput
  split at hput
  · rename_i changed hset
    exact Except.ok.inj hput ▸ hset
  · cases hput

/-- The declared variables of a plan can be written. -/
theorem Fits.grammatical_declarations (hplan : plan.Fits schema d node) {ds : List Directive}
    (h : plan.declarations = .ok ds) : ∀ x ∈ ds, x.Grammatical false maxDepth := by
  rw [declarations] at h
  split at h
  · cases h
    simp
  · rw [mapM_checkedName hplan.names fun name type => ⟨name, .object [("type", .string type)]⟩] at h
    cases h
    have hdirective : isName "argumentDefinitions" = true := by decide +kernel
    refine List.forall_mem_singleton.mpr ⟨hdirective, fun a ha => ?_⟩
    obtain ⟨p, hp, rfl⟩ := List.mem_map.mp ha
    exact ⟨hplan.names p hp, ⟨by decide +kernel, by decide, trivial⟩, trivial⟩

/-- The variables that a plan passes on can be written at any depth. -/
theorem Fits.grammatical_passedOn (hplan : plan.Fits schema d node) {ds : List Directive}
    (h : plan.passedOn = .ok ds) (depth : Nat) : ∀ x ∈ ds, x.Grammatical false depth := by
  rw [passedOn] at h
  split at h
  · cases h
    simp
  · rw [mapM_checkedName hplan.names fun name _ => ⟨name, .var name none⟩] at h
    cases h
    have hdirective : isName "arguments" = true := by decide +kernel
    refine List.forall_mem_singleton.mpr ⟨hdirective, fun a ha => ?_⟩
    obtain ⟨p, hp, rfl⟩ := List.mem_map.mp ha
    exact ⟨hplan.names p hp, rfl, hplan.names p hp⟩

/-! ## The fragment and the document -/

/-- The fragment of a plan can be written, unless it is called `on`. -/
theorem Fits.grammatical_definition (hd : d.Grammatical) (hplan : plan.Fits schema d node)
    (htype : isName plan.typeName = true) {fragment : Fragment} (hon : name ≠ "on")
    (h : plan.definition name = .ok fragment) : fragment.Grammatical := by
  obtain ⟨hname, ds, hds, rfl⟩ := definition_eq_ok h
  obtain ⟨line, hin⟩ := Document.get?_eq_some_iff.mp hplan.target
  refine ⟨hname, hon, htype, hplan.grammatical_declarations hds, hplan.nonempty, ?_⟩
  -- The selections stand further out than before, where they may be nested deeper.
  refine Selection.grammaticalSet_mono (Document.setDepth_depthInside_le node line) _ ?_
  have hset := Selection.grammaticalSet_iff.mp (hd.node hin).selections
  exact Selection.grammaticalSet_iff.mpr fun s hs => hset s (hplan.selections s hs)

/-- What is in a set after some selections are taken out and one is put in. -/
theorem mem_insertAt_without {s x : Selection} {first : Nat} {indices : List Nat}
    {set : List Selection} (h : s ∈ Selection.insertAt first x (Selection.without indices set)) :
    s = x ∨ s ∈ set := by
  have hkept : s ∈ Selection.without indices set → s ∈ set := by
    intro hs
    obtain ⟨⟨s, index⟩, hmem, rfl⟩ := List.mem_map.mp hs
    exact List.fst_mem_of_mem_zipIdx (List.mem_filter.mp hmem).1
  rcases List.mem_append.mp h with hs | hs
  · exact .inr (hkept (List.mem_of_mem_take hs))
  · exact (List.mem_cons.mp hs).imp_right fun hs => hkept (List.mem_of_mem_drop hs)

/-- The document with a spread can be written, unless the fragment is called `on`. -/
theorem Fits.grammatical_replaced (hd : d.Grammatical) (hplan : plan.Fits schema d node)
    (hname : isName name = true) (hon : name ≠ "on")
    (h : d.replaceWithSpread plan name = .ok d') : d'.Grammatical := by
  obtain ⟨ds, first, hds, hset⟩ := replaceWithSpread_eq_ok hplan h
  obtain ⟨line, hin⟩ := Document.get?_eq_some_iff.mp hplan.target
  have hnode := hd.node hin
  have hselections := Selection.grammaticalSet_iff.mp hnode.selections
  refine hd.set? hin hset (hnode.withSelections (Selection.grammaticalSet_iff.mpr ?_) ?_)
  · intro s hs
    rcases mem_insertAt_without hs with rfl | hs
    · -- The spread is allowed at this depth because a selection that it replaces was.
      obtain ⟨old, hold⟩ := List.exists_mem_of_ne_nil _ hplan.nonempty
      exact ⟨(hselections old (hplan.selections old hold)).1, hname, hon,
        hplan.grammatical_passedOn hds _⟩
    · exact hselections s hs
  · simp [Selection.insertAt]

/-- The spread stands in the document that it is put into. -/
theorem Fits.exists_spread_in (hplan : plan.Fits schema d node)
    (h : d.replaceWithSpread plan name = .ok d') :
    ∃ a line t, Standing.In d' ⟨a, line, .spread t⟩ ∧ t.name = name := by
  obtain ⟨ds, first, -, hset⟩ := replaceWithSpread_eq_ok hplan h
  obtain ⟨line, hin⟩ := Document.get?_eq_some_iff.mp (Document.get?_set? hset)
  have hmem : Selection.spread ⟨name, ds, none⟩ ∈ Selection.insertAt first
      (.spread ⟨name, ds, none⟩) (Selection.without plan.indices node.selections) := by
    simp [Selection.insertAt]
  obtain ⟨index, hindex⟩ := List.getElem?_of_mem hmem
  rw [← node.selections_withSelections (Selection.insertAt first _ _)] at hindex
  exact ⟨_, _, ⟨name, ds, none⟩, .selection hin hindex, rfl⟩

/-- Suppose that selections of a document that was read are moved into a fragment, and that neither
the definition of the fragment nor the replacement is refused. The printed fragment is read as the
same fragment exactly if it is not called `on`. The printed document is read as the same document
exactly if, besides, that holds of the definitions it had before. -/
theorem reparses_iff {texts : List String} {content source : String} {lines : LineRange}
    {fragment : Fragment} (hschema : Schema.ofTexts? texts = some schema)
    (hd : Document.parse? content = some d) (hplan : find? schema d source lines = some plan)
    (hfragment : plan.definition name = .ok fragment)
    (hreplaced : d.replaceWithSpread plan name = .ok d') :
    ((∃ e, Document.parse? (Printer.fragment (.lines 0) fragment) = some e ∧
      Document.same ⟨[.fragment fragment]⟩ e = true) ↔ name ≠ "on") ∧
    ((∃ e, Document.parse? d'.pretty = some e ∧ d'.same e = true) ↔
      name ≠ "on" ∧ d.Reprintable) := by
  have hgrammatical := Document.grammatical_of_parse? hd
  obtain ⟨node, hfits⟩ := exists_fits_of_find? hgrammatical hplan
  obtain ⟨hname, ds, -, hmade⟩ := definition_eq_ok hfragment
  constructor
  · constructor
    · rintro hread rfl
      exact Fragment.not_same_of_on (congrArg Fragment.name hmade) _ hread
    · intro hon
      -- The type condition is the name of a type, and those come from texts that were read.
      have htype := Schema.isName_of_ofTexts? hschema hfits.typeName
      exact Fragment.exists_parse?_printed
        (hfits.grammatical_definition hgrammatical htype hon hfragment)
  · by_cases hon : name = "on"
    · obtain ⟨a, line, t, hin, ht⟩ := hfits.exists_spread_in hreplaced
      have hnever := Document.not_same_of_spread_on hin (ht.trans hon) d'.pretty
      exact iff_of_false hnever fun h => h.1 hon
    · obtain ⟨passed, first, -, hset⟩ := replaceWithSpread_eq_ok hfits hreplaced
      rw [Document.parse?_pretty_iff (hfits.grammatical_replaced hgrammatical hname hon hreplaced),
        Document.reprintable_set?_iff hset, and_iff_right hon]

/-- The text of a schema with two numbers. -/
def numbersSchema : String := "type Query \x7b a: Int b: Int \x7d"

/-- The text of a query of both, over several lines. -/
def numbersQuery : String := "\x7b\n  a\n  b\n\x7d"

/-- The line of `a` can be moved into a fragment of any name. -/
theorem exists_plan_numbersQuery :
    ∃ schema d plan, Schema.ofTexts? [numbersSchema] = some schema ∧
      Document.parse? numbersQuery = some d ∧ d.Reprintable ∧
      find? schema d numbersQuery ⟨1, 1⟩ = some plan ∧
      ∀ name, isName name = true → ∃ fragment d', plan.definition name = .ok fragment ∧
        d.replaceWithSpread plan name = .ok d' := by
  have hfound : ((Schema.ofTexts? [numbersSchema]).bind fun schema =>
      (Document.parse? numbersQuery).bind fun d =>
        (find? schema d numbersQuery ⟨1, 1⟩).map fun _ => decide d.Reprintable) = some true := by
    decide +kernel
  obtain ⟨schema, hschema, hfound⟩ := Option.bind_eq_some_iff.mp hfound
  obtain ⟨d, hd, hfound⟩ := Option.bind_eq_some_iff.mp hfound
  obtain ⟨plan, hplan, hreprintable⟩ := Option.map_eq_some_iff.mp hfound
  obtain ⟨⟨node, i, n, hblock⟩, hnames⟩ := takesBlock_of_find? hd hplan
  refine ⟨schema, d, plan, hschema, hd, of_decide_eq_true hreprintable, hplan, fun name hname => ?_⟩
  obtain ⟨ds, hfragment⟩ := plan.exists_definition_eq hnames hname
  obtain ⟨d', ds', hreplaced, -⟩ := Document.exists_replaceWithSpread_eq hblock hnames hname
  exact ⟨_, d', hfragment, hreplaced⟩

/-- The line of `a` moved into a fragment called `F`: both parts are read again. -/
theorem reparses_iff_numbersQuery :
    ∃ schema d plan fragment d', Schema.ofTexts? [numbersSchema] = some schema ∧
      Document.parse? numbersQuery = some d ∧ find? schema d numbersQuery ⟨1, 1⟩ = some plan ∧
      plan.definition "F" = .ok fragment ∧ d.replaceWithSpread plan "F" = .ok d' ∧
      (∃ e, Document.parse? (Printer.fragment (.lines 0) fragment) = some e ∧
        Document.same ⟨[.fragment fragment]⟩ e = true) ∧
      ∃ e, Document.parse? d'.pretty = some e ∧ d'.same e = true := by
  obtain ⟨schema, d, plan, hschema, hd, hreprintable, hplan, hmake⟩ := exists_plan_numbersQuery
  obtain ⟨fragment, d', hfragment, hreplaced⟩ := hmake "F" (by decide +kernel)
  obtain ⟨hread, hreread⟩ := reparses_iff hschema hd hplan hfragment hreplaced
  exact ⟨schema, d, plan, fragment, d', hschema, hd, hplan, hfragment, hreplaced,
    hread.mpr (by decide), hreread.mpr ⟨by decide, hreprintable⟩⟩

/-- Not every name that is accepted gives a fragment that is read again: `on` does not. -/
theorem not_reparses :
    ¬ ∀ (texts : List String) (schema : Schema) (content : String) (d : Document)
        (lines : LineRange) (plan : FragmentPlan) (name : String) (fragment : Fragment)
        (d' : Document), Schema.ofTexts? texts = some schema → Document.parse? content = some d →
      find? schema d content lines = some plan → plan.definition name = .ok fragment →
      d.replaceWithSpread plan name = .ok d' →
      (∃ e, Document.parse? (Printer.fragment (.lines 0) fragment) = some e ∧
        Document.same ⟨[.fragment fragment]⟩ e = true) ∧
      ∃ e, Document.parse? d'.pretty = some e ∧ d'.same e = true := by
  intro h
  obtain ⟨schema, d, plan, hschema, hd, -, hplan, hmake⟩ := exists_plan_numbersQuery
  obtain ⟨fragment, d', hfragment, hreplaced⟩ := hmake "on" (by decide +kernel)
  obtain ⟨-, ds, -, hmade⟩ := definition_eq_ok hfragment
  have hread := (h _ _ _ _ _ _ _ _ _ hschema hd hplan hfragment hreplaced).1
  exact Fragment.not_same_of_on (congrArg Fragment.name hmade) _ hread

end FragmentPlan
end EmbeddedGraphQL
