import EmbeddedGraphQL.Edit.ExtractFragment
import EmbeddedGraphQL.Proofs.Address.Lens
import EmbeddedGraphQL.Proofs.Edit.Enclosing

/-!
# Moving selections into a fragment and back

The selections on a range of lines are a block of one selection set. Moving them into a fragment
puts a spread in the place of the block and changes nothing else, and putting the selections of the
fragment back in the place of the spread gives the document from before.

* `Selection.without_range'`, `Selection.insertAt_take`: a block taken out, a spread put in.
* `FragmentPlan.indices_eq`: the selections of a plan are a block of their set.
* `FragmentPlan.definition_eq`, `FragmentPlan.passedOn_eq`: a plan with named variables is carried
  out.
* `Document.inline?`: a fragment put in the place of a spread of it.
* `Document.inline?_replaceWithSpread`: what is moved out and put back in.
-/

namespace EmbeddedGraphQL

/-! ## Blocks of a selection set -/

namespace Selection

/-- The selections with none of some numbers stay. -/
theorem filter_zipIdx_eq_self {indices : List Nat} {set : List Selection} {first : Nat}
    (h : ∀ j, first ≤ j → j < first + set.length → j ∉ indices) :
    (set.zipIdx first).filter (fun p => !indices.contains p.2) = set.zipIdx first := by
  refine List.filter_eq_self.mpr fun p hp => ?_
  obtain ⟨hle, hlt, -⟩ := List.mem_zipIdx hp
  simpa using h p.2 hle (by omega)

/-- The selections with all of some numbers go. -/
theorem filter_zipIdx_eq_nil {indices : List Nat} {set : List Selection} {first : Nat}
    (h : ∀ j, first ≤ j → j < first + set.length → j ∈ indices) :
    (set.zipIdx first).filter (fun p => !indices.contains p.2) = [] := by
  refine List.filter_eq_nil_iff.mpr fun p hp => ?_
  obtain ⟨hle, hlt, -⟩ := List.mem_zipIdx hp
  simpa using h p.2 hle (by omega)

/-- A set without a block of it. -/
theorem without_range' (before block after : List Selection) :
    without (List.range' before.length block.length) (before ++ block ++ after) =
      before ++ after := by
  rw [without, List.zipIdx_append, List.zipIdx_append, List.filter_append, List.filter_append,
    filter_zipIdx_eq_self, filter_zipIdx_eq_nil, filter_zipIdx_eq_self]
  · simp
  · intro j hj _
    simp only [List.length_append, List.mem_range'_1] at hj ⊢
    omega
  · intro j hj hlt
    simp only [List.mem_range'_1] at hj ⊢
    omega
  · intro j _ hj
    simp only [List.mem_range'_1]
    omega

/-- A selection put in right after some others. -/
theorem insertAt_length (before after : List Selection) (s : Selection) :
    insertAt before.length s (before ++ after) = before ++ s :: after := by
  simp [insertAt]

/-- The parts of a set around a block of it. -/
theorem take_append_block_append_drop (set : List Selection) (i n : Nat) :
    set.take i ++ (set.drop i).take n ++ set.drop (i + n) = set := by
  rw [← List.drop_drop, List.append_assoc, List.take_append_drop, List.take_append_drop]

end Selection

/-! ## Plans -/

namespace FragmentPlan

/-- A plan takes a block of the selection set of the node at its target. -/
structure TakesBlock (d : Document) (plan : FragmentPlan) (node : Node) (i n : Nat) : Prop where
  target : d.get? plan.target = some node
  targetSet : node.selections = plan.targetSet
  nonempty : 0 < n
  bound : i + n ≤ plan.targetSet.length
  indices : plan.indices = List.range' i n
  selections : plan.selections = (plan.targetSet.drop i).take n

/-- What is planned for lines of the text of a document takes a block, and its variables have
names. -/
theorem takesBlock_of_find? {schema : Schema} {d : Document} {source : String}
    {lines : LineRange} {plan : FragmentPlan} (hd : Document.parse? source = some d)
    (h : find? schema d source lines = some plan) :
    (∃ node i n, plan.TakesBlock d node i n) ∧ ∀ p ∈ plan.variableTypes, isName p.1 = true := by
  obtain ⟨found, hfound, h⟩ := Option.bind_eq_some_iff.mp h
  obtain ⟨-, ⟨node, hnode, hset⟩, hnames⟩ :=
    Enclosing.find?_spec (Document.grammatical_of_parse? hd) hfound
  obtain ⟨span, -, -, hplaced⟩ := (Document.placed_of_parse? hd).get? hnode
  rw [hset] at hplaced
  -- The entries on the lines are neighbours, hence a block of the set.
  obtain ⟨i, n, hbound, hchildren⟩ := found.exists_children_eq lines hplaced
  have hlength : ((found.set.selections.drop i).take n).length = n := by
    simp only [List.length_take, List.length_drop]
    omega
  simp only at h
  split at h
  · cases h
  · rename_i hsome
    cases h
    refine ⟨⟨node, i, n, hnode, hset, ?_, hbound, ?_, ?_⟩, hnames⟩
    · rw [hchildren, List.isEmpty_iff, ← List.length_eq_zero_iff, List.length_zipIdx,
        hlength] at hsome
      omega
    · show (found.children lines).map Prod.snd = _
      rw [hchildren, List.zipIdx_map_snd, hlength]
    · show (found.children lines).map Prod.fst = _
      rw [hchildren, List.zipIdx_map_fst]

/-- Arguments are made of texts, unless one of the texts cannot be a name. -/
theorem mapM_checkedName_eq (entries : List (String × String))
    (make : String → String → Argument) :
    (entries.mapM fun p => do
      let name ← checkedName p.1
      return make name p.2 : Except EditError (List Argument)) =
      match (entries.map (·.1)).find? fun text => !isName text with
      | some text => .error (.invalidName text)
      | none => .ok (entries.map fun p => make p.1 p.2) := by
  induction entries with
  | nil => rfl
  | cons p rest ih =>
    rw [List.mapM_cons, ih, List.map_cons, List.find?_cons, checkedName]
    cases isName p.1 with
    | false => rfl
    | true =>
      cases (rest.map (·.1)).find? fun text => !isName text with
      | some text => rfl
      | none => rfl

/-- Arguments made of names are made. -/
theorem mapM_checkedName {entries : List (String × String)}
    (h : ∀ p ∈ entries, isName p.1 = true) (make : String → String → Argument) :
    (entries.mapM fun p => do
      let name ← checkedName p.1
      return make name p.2 : Except EditError (List Argument)) =
      .ok (entries.map fun p => make p.1 p.2) := by
  have hnone : (entries.map (·.1)).find? (fun text => !isName text) = none := by
    rw [List.find?_eq_none]
    intro text htext
    obtain ⟨p, hp, rfl⟩ := List.mem_map.mp htext
    simp [h p hp]
  rw [mapM_checkedName_eq, hnone]

/-- A plan with named variables gives a fragment that holds its selections. -/
theorem exists_definition_eq {plan : FragmentPlan} {name : String}
    (h : ∀ p ∈ plan.variableTypes, isName p.1 = true) (hname : isName name = true) :
    ∃ ds, plan.definition name = .ok ⟨name, plan.typeName, ds, plan.selections, none⟩ := by
  have hdeclarations : ∃ ds, plan.declarations = .ok ds := by
    unfold declarations
    split
    · exact ⟨_, rfl⟩
    · rw [mapM_checkedName h fun name type => ⟨name, .object [("type", .string type)]⟩]
      exact ⟨_, rfl⟩
  obtain ⟨ds, hds⟩ := hdeclarations
  refine ⟨ds, ?_⟩
  rw [definition, hds, checkedName, if_pos hname]
  rfl

/-- The variables of a plan with named variables are passed on. -/
theorem exists_passedOn_eq {plan : FragmentPlan}
    (h : ∀ p ∈ plan.variableTypes, isName p.1 = true) : ∃ ds, plan.passedOn = .ok ds := by
  unfold passedOn
  split
  · exact ⟨_, rfl⟩
  · rw [mapM_checkedName h fun name _ => ⟨name, .var name none⟩]
    exact ⟨_, rfl⟩

/-- The first selection of a plan is where its block begins. -/
theorem TakesBlock.min?_indices {d : Document} {plan : FragmentPlan} {node : Node} {i n : Nat}
    (h : plan.TakesBlock d node i n) : plan.indices.min? = some i := by
  have hn := h.nonempty
  rw [h.indices, List.min?_eq_some_iff]
  refine ⟨List.mem_range'_1.mpr ⟨Nat.le_refl i, by omega⟩, fun j hj => ?_⟩
  exact (List.mem_range'_1.mp hj).1

/-- Taking the block of a plan out and putting a selection in leaves what stands before and after
the block. -/
theorem TakesBlock.insertAt_without {d : Document} {plan : FragmentPlan} {node : Node} {i n : Nat}
    (h : plan.TakesBlock d node i n) (s : Selection) :
    Selection.insertAt i s (Selection.without plan.indices node.selections) =
      plan.targetSet.take i ++ s :: plan.targetSet.drop (i + n) := by
  have hbound := h.bound
  have hbefore : (plan.targetSet.take i).length = i := by
    simp only [List.length_take]
    omega
  have hblock : ((plan.targetSet.drop i).take n).length = n := by
    simp only [List.length_take, List.length_drop]
    omega
  have hwithout := Selection.without_range' (plan.targetSet.take i)
    ((plan.targetSet.drop i).take n) (plan.targetSet.drop (i + n))
  have hinsert := Selection.insertAt_length (plan.targetSet.take i) (plan.targetSet.drop (i + n)) s
  rw [hbefore, hblock, Selection.take_append_block_append_drop] at hwithout
  rw [hbefore] at hinsert
  rw [h.targetSet, h.indices, hwithout, hinsert]

end FragmentPlan

/-! ## Out and in again -/

namespace Document

/-- The document with a fragment put in the place of a spread of it, which stands at a number in
the set of the node at an address. -/
def inline? (d : Document) (a : Address) (index : Nat) (f : Fragment) : Option Document := do
  let node ← d.get? a
  match node.selections[index]? with
  | some (.spread s) =>
    if s.name = f.name then
      d.set? a (node.withSelections
        (node.selections.take index ++ f.selections ++ node.selections.drop (index + 1)))
    else none
  | _ => none

/-- A spread takes the place of the block of a plan. -/
theorem exists_replaceWithSpread_eq {d : Document} {plan : FragmentPlan} {node : Node}
    {i n : Nat} {name : String} (hplan : plan.TakesBlock d node i n)
    (hnames : ∀ p ∈ plan.variableTypes, isName p.1 = true) (hname : isName name = true) :
    ∃ d' ds, d.replaceWithSpread plan name = .ok d' ∧
      d.set? plan.target (node.withSelections (plan.targetSet.take i ++
        .spread ⟨name, ds, none⟩ :: plan.targetSet.drop (i + n))) = some d' := by
  obtain ⟨ds, hds⟩ := plan.exists_passedOn_eq hnames
  have hspread : Selection.newSpread name ds = .ok (.spread ⟨name, ds, none⟩) := by
    rw [Selection.newSpread, checkedName, if_pos hname]
    rfl
  obtain ⟨d', hd'⟩ := exists_set? hplan.target (node.sameKind_withSelections
    (plan.targetSet.take i ++ .spread ⟨name, ds, none⟩ :: plan.targetSet.drop (i + n)))
  refine ⟨d', ds, ?_, hd'⟩
  have hmodify := modify?_eq_set? hplan.target fun m => m.withSelections
    (Selection.insertAt i (.spread ⟨name, ds, none⟩) (Selection.without plan.indices m.selections))
  rw [hplan.insertAt_without, hd'] at hmodify
  simp only [replaceWithSpread, hds, hspread, hplan.min?_indices, bind, Except.bind,
    changeSelections, hmodify]

/-- Moving the selections on some lines of the text of a document into a fragment takes a block of
one selection set, puts one spread in its place and changes nothing else; putting the selections of
the fragment in the place of the spread gives the document back. -/
theorem inline?_replaceWithSpread {source : String} {d : Document} {schema : Schema}
    {lines : LineRange} {name : String} {plan : FragmentPlan} (hd : parse? source = some d)
    (hname : isName name = true) (hplan : FragmentPlan.find? schema d source lines = some plan) :
    ∃ node i n, plan.TakesBlock d node i n ∧
      ∃ fragment d' ds, plan.definition name = .ok fragment ∧
        d.replaceWithSpread plan name = .ok d' ∧
        d.set? plan.target (node.withSelections (plan.targetSet.take i ++
          .spread ⟨name, ds, none⟩ :: plan.targetSet.drop (i + n))) = some d' ∧
        d'.inline? plan.target i fragment = some d := by
  obtain ⟨⟨node, i, n, hblock⟩, hnames⟩ := FragmentPlan.takesBlock_of_find? hd hplan
  obtain ⟨declared, hfragment⟩ := plan.exists_definition_eq hnames hname
  obtain ⟨d', ds, hreplace, hset⟩ := exists_replaceWithSpread_eq hblock hnames hname
  refine ⟨node, i, n, hblock, _, d', ds, hfragment, hreplace, hset, ?_⟩
  rw [inline?, get?_set? hset]
  -- The spread stands where the block began, so that the parts around it are those around the block.
  generalize hparts : plan.targetSet.take i ++ Selection.spread ⟨name, ds, none⟩ ::
    plan.targetSet.drop (i + n) = parts
  have hbefore : (plan.targetSet.take i).length = i := by
    have hbound := hblock.bound
    simp only [List.length_take]
    omega
  have hspread : parts[i]? = some (.spread ⟨name, ds, none⟩) := by
    rw [← hparts, List.getElem?_append_right (by omega), hbefore, Nat.sub_self,
      List.getElem?_cons_zero]
  have htake : parts.take i = plan.targetSet.take i := by
    rw [← hparts, List.take_append_of_le_length (by omega), List.take_of_length_le (by omega)]
  have hdrop : parts.drop (i + 1) = plan.targetSet.drop (i + n) := by
    rw [← hparts, List.drop_append, hbefore, List.drop_of_length_le (by omega),
      Nat.add_sub_cancel_left, List.drop_one, List.tail_cons, List.nil_append]
  simp only [Option.bind_eq_bind, Option.bind_some, Node.selections_withSelections, hspread,
    if_true, Node.withSelections_withSelections]
  rw [set?_set? hset, htake, hdrop, hblock.selections, Selection.take_append_block_append_drop,
    ← hblock.targetSet, Node.withSelections_selections, set?_get? hblock.target]

/-- In `{ a b(x: $v) c }`, over several lines, the lines of `a` and `b` become a fragment. -/
theorem inline?_replaceWithSpread_lines :
    ∃ d plan, parse? "\x7b\n  a\n  b(x: $v)\n  c\n\x7d" = some d ∧
      FragmentPlan.find? ⟨[⟨"Query", none, .object [] []⟩], [], [(.query, "Query")]⟩ d
        "\x7b\n  a\n  b(x: $v)\n  c\n\x7d" ⟨1, 2⟩ = some plan ∧
      plan.indices = [0, 1] ∧
      ∃ fragment d', plan.definition "F" = .ok fragment ∧
        d.replaceWithSpread plan "F" = .ok d' ∧ d'.inline? plan.target 0 fragment = some d := by
  have hindices : ((parse? "\x7b\n  a\n  b(x: $v)\n  c\n\x7d").bind fun d =>
      (FragmentPlan.find? ⟨[⟨"Query", none, .object [] []⟩], [], [(.query, "Query")]⟩ d
        "\x7b\n  a\n  b(x: $v)\n  c\n\x7d" ⟨1, 2⟩).map (·.indices)) = some [0, 1] := by
    decide +kernel
  obtain ⟨d, hd, hindices⟩ := Option.bind_eq_some_iff.mp hindices
  obtain ⟨plan, hplan, hindices⟩ := Option.map_eq_some_iff.mp hindices
  obtain ⟨node, i, n, hblock, fragment, d', ds, hfragment, hreplace, -, hinline⟩ :=
    inline?_replaceWithSpread hd (by decide +kernel : isName "F" = true) hplan
  have hi : i = 0 := by
    have hn := hblock.nonempty
    have heq := hblock.indices.symm.trans hindices
    rw [← Nat.sub_add_cancel hn, List.range'_succ] at heq
    exact (List.cons.inj heq).1
  exact ⟨d, plan, hd, hplan, hindices, fragment, d', hfragment, hreplace, hi ▸ hinline⟩

end Document
end EmbeddedGraphQL
