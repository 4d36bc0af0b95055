import EmbeddedGraphQL.Proofs.Edit.Paginated
import EmbeddedGraphQL.Proofs.Record.Stable

/-!
# Pagination done twice

What pagination merges into arguments and directives is there afterwards, so that merging it again
changes nothing. The path that led to the connection leads there again, as the only new nodes stand
inside it. Hence paginating a paginated connection gives the same document.

* `Argument.Merged`, `Directive.Merged`: what merging does, and what it leaves.
* `Directive.merge_of_merge_eq_self`: a directive that is merged in stays so when another one is.
* `Pagination.Target`: a connection that can be paginated, and the fragment around it.
* `Pagination.Target.paginate?_eq`: what paginating it does.
* `Document.paginate?_settles`: pagination is idempotent, local, and given up only at first sight.
-/

namespace EmbeddedGraphQL

/-! ## Merging -/

namespace Argument

/-- Whether arguments are old ones with new ones merged in: of their names there are only the new
ones, and all others are as they were, in the same order. -/
structure Merged (new old merged : List Argument) : Prop where
  given : merged.filter (fun a => new.any (·.name = a.name)) = new
  others : merged.filter (fun a => !new.any (·.name = a.name)) =
    old.filter (fun a => !new.any (·.name = a.name))

/-- What merging gives has the new arguments and, as they were, the old ones of other names. -/
theorem merged_merge (new old : List Argument) : Merged new old (merge old new) := by
  have hnew : ∀ a ∈ new, new.any (·.name = a.name) = true :=
    fun a ha => List.any_eq_true.mpr ⟨a, ha, by simp⟩
  have hnone : new.filter (fun a => !new.any (·.name = a.name)) = [] :=
    List.filter_eq_nil_iff.mpr fun a ha => by simp [hnew a ha]
  constructor
  · rw [merge, List.filter_append, List.filter_filter, List.filter_eq_self.mpr hnew]
    simp
  · rw [merge, List.filter_append, List.filter_filter, hnone]
    simp

/-- Arguments that are merged in are not merged in again. -/
theorem merge_merge (new old : List Argument) : merge (merge old new) new = merge old new := by
  rw [merge, (merged_merge new old).others, merge]

end Argument

namespace Directive

/-- Whether directives are old ones with one merged in: its arguments are merged into those of the
first one of its name, or it comes last if there is none. All others are as they were. -/
inductive Merged (name : String) (new : List Argument) : List Directive → List Directive → Prop
  /-- There is a first one of the name. -/
  | first {before after : List Directive} {old merged : List Argument}
      (hbefore : ∀ x ∈ before, x.name ≠ name) (hmerged : Argument.Merged new old merged) :
      Merged name new (before ++ ⟨name, old⟩ :: after) (before ++ ⟨name, merged⟩ :: after)
  /-- There is none. -/
  | last {old : List Directive} (hold : ∀ x ∈ old, x.name ≠ name) :
      Merged name new old (old ++ [⟨name, new⟩])

variable {name other : String} {new more : List Argument}

/-- A directive in front that has another name does not matter. -/
theorem Merged.cons {x : Directive} (hx : x.name ≠ name) {old merged : List Directive}
    (h : Merged name new old merged) : Merged name new (x :: old) (x :: merged) := by
  cases h with
  | first hbefore hmerged =>
    rw [← List.cons_append, ← List.cons_append]
    exact .first (List.forall_mem_cons.mpr ⟨hx, hbefore⟩) hmerged
  | last hold =>
    rw [← List.cons_append]
    exact .last (List.forall_mem_cons.mpr ⟨hx, hold⟩)

/-- What merging gives has the directive in the first one of its name, or behind all others. -/
theorem merged_merge (name : String) (new : List Argument) (old : List Directive) :
    Merged name new old (merge name new old) := by
  induction old with
  | nil => exact .last (List.forall_mem_nil _)
  | cons x rest ih =>
    rw [merge]
    split
    · rename_i hname
      subst hname
      exact .first (List.forall_mem_nil _) (Argument.merged_merge new x.arguments)
    · rename_i hname
      exact ih.cons hname

/-- A directive that is merged in is not merged in again. -/
theorem merge_merge (name : String) (new : List Argument) (old : List Directive) :
    merge name new (merge name new old) = merge name new old := by
  induction old with
  | nil =>
    have hnew : Argument.merge new new = new := Argument.merge_merge new []
    simp [merge, hnew]
  | cons x rest ih =>
    rw [merge]
    split
    · rename_i hname
      rw [merge, if_pos hname, Argument.merge_merge]
    · rename_i hname
      rw [merge, if_neg hname, ih]

/-- A directive that is merged in stays so when one of another name is merged in. -/
theorem merge_of_merge_eq_self (hne : name ≠ other) {old : List Directive}
    (h : merge name new old = old) :
    merge name new (merge other more old) = merge other more old := by
  induction old with
  | nil => cases h
  | cons x rest ih =>
    rw [merge] at h
    -- Whichever of the two names comes first, the directive of the other one is further down.
    by_cases hname : x.name = name
    · have hother : x.name ≠ other := fun hother => hne (hname.symm.trans hother)
      rw [if_pos hname] at h
      rw [merge, if_neg hother, merge, if_pos hname, (List.cons.inj h).1]
    · rw [if_neg hname] at h
      have hrest := (List.cons.inj h).2
      by_cases hother : x.name = other
      · rw [merge, if_pos hother, merge, if_neg hname, hrest]
      · rw [merge, if_neg hother, merge, if_neg hname, ih hrest]

end Directive

/-! ## Paginated nodes -/

namespace Pagination

/-- A fragment that can be paginated. -/
def paginatedFragment (g : Fragment) : Fragment :=
  { g with
    directives := Directive.merge "argumentDefinitions" argumentDefinitions
      (Directive.merge "refetchable" (refetchArguments g.name) g.directives) }

/-- A paginated field, without its selections. -/
def paginatedField (fragmentName : String) (f : Field) : Field :=
  { f with
    arguments := Argument.merge f.arguments fieldArguments
    directives := Directive.merge "connection" (connectionArguments fragmentName f.name)
      f.directives }

/-- What a connection has to select to be paginated, as far as it does not do so already. -/
def missingEdges (schema : Schema) (nodeType : TypeRef) (set : List Selection) : List Selection :=
  if Selection.hasField set "edges" then [] else [edgesSelection schema nodeType]

/-- What may change in a fragment: its directives, into which two are merged. -/
structure FragmentChange (g g' : Fragment) : Prop where
  directives : ∃ between,
    Directive.Merged "refetchable" (refetchArguments g.name) g.directives between ∧
      Directive.Merged "argumentDefinitions" argumentDefinitions between g'.directives
  others : g' = { g with directives := g'.directives }

/-- What may change in a field: its arguments, into which two are merged, its directives, into which
one is merged, and its selections, to which `edges` is added if it is not there. -/
structure FieldChange (fragmentName : String) (f f' : Field) (set set' : List Selection) :
    Prop where
  arguments : Argument.Merged fieldArguments f.arguments f'.arguments
  directives : Directive.Merged "connection" (connectionArguments fragmentName f.name) f.directives
    f'.directives
  others : f' = { f with arguments := f'.arguments, directives := f'.directives }
  selections : (∃ e inner, .field e inner ∈ set ∧ e.name = "edges") ∧ set' = set ∨
    (∀ e inner, .field e inner ∈ set → e.name ≠ "edges") ∧
      ∃ inner, set' = set ++ [Selection.newField "edges" inner]

/-- The fragment of the name is paginated. -/
theorem paginateFragment_fragment (g : Fragment) :
    paginateFragment g.name (.fragment g) = .fragment (paginatedFragment g) := rfl

/-- A field is paginated, and what is missing of its edges is put behind its set. -/
theorem paginateField_field (schema : Schema) (fragmentName : String) (nodeType : TypeRef)
    (f : Field) (set : List Selection) :
    paginateField schema fragmentName nodeType (.field f set) =
      .field (paginatedField fragmentName f) (set ++ missingEdges schema nodeType set) := rfl

/-- A paginated fragment is a change that pagination makes. -/
theorem fragmentChange_paginatedFragment (g : Fragment) : FragmentChange g (paginatedFragment g) :=
  ⟨⟨_, Directive.merged_merge .., Directive.merged_merge ..⟩, rfl⟩

/-- A paginated field is a change that pagination makes. -/
theorem fieldChange_paginatedField (schema : Schema) (fragmentName : String) (nodeType : TypeRef)
    (f : Field) (set : List Selection) :
    FieldChange fragmentName f (paginatedField fragmentName f) set
      (set ++ missingEdges schema nodeType set) := by
  refine ⟨Argument.merged_merge .., Directive.merged_merge .., rfl, ?_⟩
  cases hedges : Selection.hasField set "edges" with
  | true =>
    rw [missingEdges, if_pos hedges, List.append_nil]
    exact .inl ⟨Selection.hasField_iff.mp hedges, rfl⟩
  | false =>
    rw [missingEdges, hedges]
    exact .inr ⟨Selection.hasField_eq_false_iff.mp hedges, _, rfl⟩

/-- A fragment with the directives of a paginated one is not changed. -/
theorem paginatedFragment_withSelections (g : Fragment) (selections : List Selection) :
    paginatedFragment { paginatedFragment g with selections := selections } =
      { paginatedFragment g with selections := selections } := by
  have hrefetchable : Directive.merge "refetchable" (refetchArguments g.name)
      (paginatedFragment g).directives = (paginatedFragment g).directives :=
    Directive.merge_of_merge_eq_self (by decide) (Directive.merge_merge ..)
  have hdefinitions : Directive.merge "argumentDefinitions" argumentDefinitions
      (paginatedFragment g).directives = (paginatedFragment g).directives :=
    Directive.merge_merge ..
  change { paginatedFragment g with
    directives := Directive.merge "argumentDefinitions" argumentDefinitions
      (Directive.merge "refetchable" (refetchArguments g.name) (paginatedFragment g).directives)
    selections := selections } = _
  rw [hrefetchable, hdefinitions]

/-- A paginated field is not changed again. -/
theorem paginatedField_twice (fragmentName : String) (f : Field) :
    paginatedField fragmentName (paginatedField fragmentName f) =
      paginatedField fragmentName f := by
  simp only [paginatedField, Argument.merge_merge, Directive.merge_merge]

/-- Once the edges are there, no more are missing. -/
theorem missingEdges_append (schema : Schema) (nodeType : TypeRef) (set : List Selection) :
    missingEdges schema nodeType (set ++ missingEdges schema nodeType set) = [] := by
  refine if_pos ?_
  rw [missingEdges]
  split
  · rename_i hfield
    rwa [List.append_nil]
  · exact Selection.hasField_append_newField ..

end Pagination

/-! ## What is paginated -/

/-- A type is no connection if its edges have no nodes, or if it has no edges. -/
theorem Schema.connectionNode?_eq_none_iff {schema : Schema} {typeName : String} :
    schema.connectionNode? typeName = none ↔
      ∀ edges, schema.fieldType? typeName "edges" = some edges →
        schema.fieldType? edges.2.innerName "node" = none := by
  simp only [connectionNode?, Option.bind_eq_bind, Option.bind_eq_none_iff, Option.pure_def,
    reduceCtorEq, imp_false, ← Option.eq_none_iff_forall_ne_some]

/-- A definition is a fragment of a name exactly if there is such a node. -/
theorem Document.fragmentName?_eq_some_iff {d : Document} {index : Nat} {name : String} :
    d.fragmentName? index = some name ↔
      ∃ g, d.get? (.ofDefinition index) = some (.fragment g) ∧ g.name = name := by
  rw [fragmentName?, get?_ofDefinition, root?]
  cases hx : d.definitions[index]? with
  | none => simp
  | some x => cases x <;> simp [Node.ofDefinition?]

namespace Pagination

section Fragment

variable {d mid : Document} {a : Address} {g : Fragment} {f : Field} {set : List Selection}
  (hfragment : d.get? (.ofDefinition a.definition) = some (.fragment g))
  (hfield : d.get? a = some (.field f set))
include hfragment hfield

/-- A field in a fragment is not the fragment. -/
theorem ne_ofDefinition : a ≠ .ofDefinition a.definition := by
  intro heq
  rw [← heq, hfield] at hfragment
  cases hfragment

/-- A field in a fragment stays as it is when the fragment gets other directives. -/
theorem get?_field
    (hmid : d.set? (.ofDefinition a.definition) (.fragment (paginatedFragment g)) = some mid) :
    mid.get? a = some (.field f set) :=
  Document.get?_of_under hfragment hmid (List.prefix_refl _) hfield
    (ne_ofDefinition hfragment hfield) ⟨rfl, List.nil_prefix⟩

end Fragment

/-- A connection that can be paginated: a record of a path that is found, is a field with a
declaration, and is of a type whose edges have nodes, in a fragment. -/
structure Target (schema : Schema) (d : Document) (path : String) (r : Record) (nodeType : TypeRef)
    (g : Fragment) : Prop where
  found : Record.find? schema d path = some r
  declared : r.declaration.isSome = true
  connection : schema.connectionNode? r.type.name = some nodeType
  fragment : d.get? (.ofDefinition r.address.definition) = some (.fragment g)

namespace Target

variable {schema : Schema} {d d' mid : Document} {path : String} {r : Record} {nodeType : TypeRef}
  {g : Fragment} {f : Field} {set : List Selection}

/-- A record with a declaration is a field. -/
theorem exists_field (hfind : Record.find? schema d path = some r)
    (hdeclared : r.declaration.isSome = true) :
    ∃ f set, d.get? r.address = some (.field f set) := by
  obtain ⟨s, hs, haddress, hdeclaration⟩ := Record.exists_isFirst hfind
  obtain ⟨n, hentry, hn⟩ := Document.exists_node_of_mem_candidates hs.mem
  rw [hdeclaration, Standing.declaration?, hentry] at hdeclared
  cases n with
  | field f set => exact ⟨f, set, haddress ▸ hn⟩
  | _ => cases hdeclared

section Steps

variable (h : Target schema d path r nodeType g)
  (hfield : d.get? r.address = some (.field f set))
  (hmid : d.set? (.ofDefinition r.address.definition) (.fragment (paginatedFragment g)) = some mid)
include h hfield hmid

/-- What pagination does: the fragment gets directives, and then the field is paginated. -/
theorem paginate?_eq : d.paginate? schema path = mid.set? r.address
    (.field (paginatedField g.name f) (set ++ missingEdges schema nodeType set)) := by
  obtain ⟨declaration, hdeclaration⟩ := Option.isSome_iff_exists.mp h.declared
  have hname := Document.fragmentName?_eq_some_iff.mpr ⟨g, h.fragment, rfl⟩
  have hmodify : d.modify? (.ofDefinition r.address.definition) (paginateFragment g.name) =
      some mid := by
    rw [Document.modify?_eq_set? h.fragment, paginateFragment_fragment, hmid]
  have hmidField := get?_field h.fragment hfield hmid
  simp only [Document.paginate?, h.found, hdeclaration, h.connection, hname, hmodify, hmidField,
    Option.bind_eq_bind, Option.bind_some, Document.modify?_eq_set? hmidField,
    paginateField_field]

variable (hset : mid.set? r.address
  (.field (paginatedField g.name f) (set ++ missingEdges schema nodeType set)) = some d')
include hset

/-- All nodes but the fragment and the field stay as they are, except for what they select. -/
theorem exists_head {b : Address} {k : Node} (hk : d.get? b = some k)
    (hroot : b ≠ .ofDefinition r.address.definition) (hne : b ≠ r.address) :
    ∃ k', d'.get? b = some k' ∧ k'.head = k.head := by
  obtain ⟨between, hbetween, hhead⟩ :=
    Document.exists_head_of_ne h.fragment hmid (List.prefix_refl _) hk hroot
  obtain ⟨k', hk', hhead'⟩ := Document.exists_head_of_ne (get?_field h.fragment hfield hmid) hset
    (List.prefix_append _ _) hbetween hne
  exact ⟨k', hk', hhead'.trans hhead⟩

/-- The path leads to the connection again: no node is new after the first step, and the new nodes
of the second one come after the connection. -/
theorem exists_find? : ∃ r', Record.find? schema d' path = some r' ∧ r'.address = r.address ∧
    r'.type = r.type ∧ r'.declaration = r.declaration := by
  have hmidField := get?_field h.fragment hfield hmid
  -- Writing the old fragment back gives the old document, so neither of the two has more nodes.
  have hsame : mid.set? (.ofDefinition r.address.definition) (.fragment g) = some d :=
    (Document.set?_set? hmid _).trans (Document.set?_get? h.fragment)
  have hgrows : d.Grows mid := .of_set? h.fragment hmid rfl (List.prefix_refl _)
  have hback : mid.Grows d := .of_set? (Document.get?_set? hmid) hsame rfl (List.prefix_refl _)
  obtain ⟨m, hm, hmaddress, hmtype, hmdeclaration⟩ := hgrows.exists_find? h.found (by
    intro t ht hnew
    obtain ⟨k, -, hk⟩ := Document.exists_node_of_mem_candidates ht
    obtain ⟨k', hk', -⟩ := hback _ _ hk
    exact absurd (hnew.symm.trans hk') (by simp))
  have hmore : set <+: set ++ missingEdges schema nodeType set := List.prefix_append _ _
  obtain ⟨r', hr', haddress, htype, hdeclaration⟩ :=
    (Document.Grows.of_set? hmidField hset rfl hmore).exists_find? hm (by
      intro t ht hnew _
      rw [hmaddress]
      exact Document.not_before_of_new hmidField hset hmore ht hnew)
  exact ⟨r', hr', haddress.trans hmaddress, htype.trans hmtype, hdeclaration.trans hmdeclaration⟩

/-- The connection can be paginated again, in the fragment with its new directives. -/
theorem exists_again : ∃ r' selections, r'.address = r.address ∧ Target schema d' path r' nodeType
    { paginatedFragment g with selections := selections } := by
  obtain ⟨r', hr', haddress, htype, hdeclaration⟩ := h.exists_find? hfield hmid hset
  obtain ⟨k, hk, hhead⟩ := Document.exists_head_of_ne (get?_field h.fragment hfield hmid) hset
    (List.prefix_append _ _) (Document.get?_set? hmid) (ne_ofDefinition h.fragment hfield).symm
  -- The fragment is the one that was written, except that its selections lead to the new field.
  refine ⟨r', k.selections, haddress, hr', ?_, ?_, ?_⟩
  · rw [hdeclaration]
    exact h.declared
  · rw [htype]
    exact h.connection
  · rw [haddress, hk]
    exact congrArg some (Node.eq_withSelections_of_head hhead)

/-- Paginating what was paginated changes nothing: both nodes are written as they are. -/
theorem paginate?_twice : d'.paginate? schema path = some d' := by
  obtain ⟨r', selections, haddress, hagain⟩ := h.exists_again hfield hmid hset
  have hfield' : d'.get? r'.address = some (.field (paginatedField g.name f)
      (set ++ missingEdges schema nodeType set)) := haddress ▸ Document.get?_set? hset
  have hsame : d'.set? (.ofDefinition r'.address.definition) (.fragment (paginatedFragment
      { paginatedFragment g with selections := selections })) = some d' := by
    rw [paginatedFragment_withSelections]
    exact Document.set?_get? hagain.fragment
  calc d'.paginate? schema path
      = d'.set? r'.address (.field (paginatedField g.name (paginatedField g.name f))
          (set ++ missingEdges schema nodeType set ++
            missingEdges schema nodeType (set ++ missingEdges schema nodeType set))) :=
        hagain.paginate?_eq hfield' hsame
    _ = d'.set? r'.address (.field (paginatedField g.name f)
          (set ++ missingEdges schema nodeType set)) := by
        rw [paginatedField_twice, missingEdges_append, List.append_nil]
    _ = some d' := Document.set?_get? hfield'

end Steps

/-- A connection that can be paginated is. -/
theorem exists_paginate? (h : Target schema d path r nodeType g)
    (hfield : d.get? r.address = some (.field f set)) :
    ∃ mid d', d.set? (.ofDefinition r.address.definition) (.fragment (paginatedFragment g)) =
        some mid ∧
      mid.set? r.address
        (.field (paginatedField g.name f) (set ++ missingEdges schema nodeType set)) = some d' ∧
      d.paginate? schema path = some d' := by
  obtain ⟨mid, hmid⟩ := Document.exists_set? h.fragment (k := .fragment (paginatedFragment g)) rfl
  obtain ⟨d', hset⟩ := Document.exists_set? (get?_field h.fragment hfield hmid) (k := .field
    (paginatedField g.name f) (set ++ missingEdges schema nodeType set)) rfl
  exact ⟨mid, d', hmid, hset, (h.paginate?_eq hfield hmid).trans hset⟩

/-- Nothing else is paginated. -/
theorem exists_of_paginate? (h : d.paginate? schema path = some d') :
    ∃ r nodeType g, Target schema d path r nodeType g := by
  obtain ⟨r, hfind, h⟩ := Option.bind_eq_some_iff.mp h
  obtain ⟨declaration, hdeclaration, h⟩ := Option.bind_eq_some_iff.mp h
  obtain ⟨nodeType, hconnection, h⟩ := Option.bind_eq_some_iff.mp h
  obtain ⟨name, hname, -⟩ := Option.bind_eq_some_iff.mp h
  obtain ⟨g, hg, -⟩ := Document.fragmentName?_eq_some_iff.mp hname
  exact ⟨r, nodeType, g, hfind, Option.isSome_of_eq_some hdeclaration, hconnection, hg⟩

end Target
end Pagination

namespace Document

open Pagination

/-- There is nothing to paginate exactly if nothing is found, or what is found is no field with a
declaration, or its type is no connection, or it is in no fragment. -/
theorem paginate?_eq_none_iff {schema : Schema} {d : Document} {path : String} :
    d.paginate? schema path = none ↔ Record.find? schema d path = none ∨
      ∃ r, Record.find? schema d path = some r ∧
        ((∀ f set, d.get? r.address = some (.field f set) → r.declaration = none) ∨
          (∀ edges, schema.fieldType? r.type.name "edges" = some edges →
            schema.fieldType? edges.2.innerName "node" = none) ∨
          ∀ g, d.get? (.ofDefinition r.address.definition) ≠ some (.fragment g)) := by
  simp only [← Schema.connectionNode?_eq_none_iff]
  constructor
  · intro hnone
    cases hfind : Record.find? schema d path with
    | none => exact .inl rfl
    | some r =>
      refine .inr ⟨r, rfl, ?_⟩
      cases hconnection : schema.connectionNode? r.type.name with
      | none => exact .inr (.inl rfl)
      | some nodeType =>
        -- With a declaration, only the fragment can be missing: else there is something to paginate.
        by_cases hdeclared : r.declaration.isSome = true
        · refine .inr (.inr fun g hg => ?_)
          have htarget : Target schema d path r nodeType g := ⟨hfind, hdeclared, hconnection, hg⟩
          obtain ⟨f, set, hfield⟩ := Target.exists_field hfind hdeclared
          obtain ⟨mid, d', -, -, hsome⟩ := htarget.exists_paginate? hfield
          exact absurd (hnone.symm.trans hsome) (by simp)
        · exact .inl fun f set _ => by simpa using hdeclared
  · intro h
    refine Option.eq_none_iff_forall_ne_some.mpr fun d' hd' => ?_
    obtain ⟨r, nodeType, g, htarget⟩ := Target.exists_of_paginate? hd'
    rcases h with hnone | ⟨r', hr', hcases⟩
    · exact absurd (hnone.symm.trans htarget.found) (by simp)
    obtain rfl := Option.some.inj (hr'.symm.trans htarget.found)
    rcases hcases with hdeclaration | hconnection | hfragment
    · obtain ⟨f, set, hfield⟩ := Target.exists_field htarget.found htarget.declared
      have hdeclared := htarget.declared
      rw [hdeclaration f set hfield] at hdeclared
      cases hdeclared
    · exact absurd (hconnection.symm.trans htarget.connection) (by simp)
    · exact hfragment g htarget.fragment

/-- Pagination gives none exactly if nothing is found, or what is found is no field with a
declaration, or its type is no connection, or it is in no fragment. It never gets further and then
fails: once the fragment is changed, there is still a field at the address. What is paginated is
not changed when it is paginated again. In the fragment only directives change, and in the field
only arguments, directives and an added selection of `edges`; all others among them stay as they are
and in their order, and so do all other nodes. -/
theorem paginate?_settles (schema : Schema) (d : Document) (path : String) :
    (d.paginate? schema path = none ↔ Record.find? schema d path = none ∨
        ∃ r, Record.find? schema d path = some r ∧
          ((∀ f set, d.get? r.address = some (.field f set) → r.declaration = none) ∨
            (∀ edges, schema.fieldType? r.type.name "edges" = some edges →
              schema.fieldType? edges.2.innerName "node" = none) ∨
            ∀ g, d.get? (.ofDefinition r.address.definition) ≠ some (.fragment g))) ∧
      (∀ r g mid, Record.find? schema d path = some r → r.declaration.isSome = true →
        d.get? (.ofDefinition r.address.definition) = some (.fragment g) →
        d.modify? (.ofDefinition r.address.definition) (paginateFragment g.name) = some mid →
        ∃ f set, mid.get? r.address = some (.field f set)) ∧
      ∀ d', d.paginate? schema path = some d' →
        d'.paginate? schema path = some d' ∧
        ∃ r g g' f f' set set' mid, Record.find? schema d path = some r ∧
          d.get? (.ofDefinition r.address.definition) = some (.fragment g) ∧
          d.get? r.address = some (.field f set) ∧
          FragmentChange g g' ∧ FieldChange g.name f f' set set' ∧
          d.set? (.ofDefinition r.address.definition) (.fragment g') = some mid ∧
          mid.set? r.address (.field f' set') = some d' ∧
          ∀ b k, d.get? b = some k → b ≠ .ofDefinition r.address.definition → b ≠ r.address →
            ∃ k', d'.get? b = some k' ∧ k'.head = k.head := by
  refine ⟨paginate?_eq_none_iff, ?_, ?_⟩
  · intro r g mid hfind hdeclared hfragment hmid
    -- The fragment gets other directives only, so that the field is still below it.
    obtain ⟨f, set, hfield⟩ := Target.exists_field hfind hdeclared
    rw [modify?_eq_set? hfragment, paginateFragment_fragment] at hmid
    exact ⟨f, set, get?_field hfragment hfield hmid⟩
  · intro d' hd'
    -- From the target on, both changes are known.
    obtain ⟨r, nodeType, g, h⟩ := Target.exists_of_paginate? hd'
    obtain ⟨f, set, hfield⟩ := Target.exists_field h.found h.declared
    obtain ⟨mid, changed, hmid, hset, hchanged⟩ := h.exists_paginate? hfield
    obtain rfl : changed = d' := Option.some.inj (hchanged.symm.trans hd')
    refine ⟨h.paginate?_twice hfield hmid hset, r, g, _, f, _, set, _, mid, h.found, h.fragment,
      hfield, fragmentChange_paginatedFragment g, fieldChange_paginatedField .., hmid, hset, ?_⟩
    exact fun b k hk hroot hne => h.exists_head hfield hmid hset hk hroot hne

/-- The document `fragment Pages on Query @refetchable(queryName: "Old") { letters(first: 5, order:
"up") @connection(key: "old") @connection { __typename } }`. -/
def halfPaginated : Document :=
  ⟨[.fragment ⟨"Pages", "Query", [⟨"refetchable", [⟨"queryName", .string "Old"⟩]⟩],
    [.field ⟨none, "letters", [⟨"first", .int "5"⟩, ⟨"order", .string "up"⟩],
      [⟨"connection", [⟨"key", .string "old"⟩]⟩, ⟨"connection", []⟩], none⟩
      [Schema.typenameSelection]], none⟩]⟩

/-- What was there of pagination is replaced, the order and the second directive stay, and the
connection is paginated once and for all. -/
theorem paginate?_settles_halfPaginated :
    ∃ d' f set, halfPaginated.paginate? pages "fragment_letters" = some d' ∧
      d'.paginate? pages "fragment_letters" = some d' ∧
      d'.get? ⟨0, [0]⟩ = some (.field f set) ∧
      f.arguments = ⟨"order", .string "up"⟩ :: fieldArguments ∧
      f.directives = [⟨"connection", [⟨"key", .string "Pages_letters"⟩]⟩, ⟨"connection", []⟩] := by
  have hpaginate : halfPaginated.paginate? pages "fragment_letters" = some _ := rfl
  obtain ⟨-, -, hsettles⟩ := paginate?_settles pages halfPaginated "fragment_letters"
  obtain ⟨htwice, -⟩ := hsettles _ hpaginate
  exact ⟨_, _, _, hpaginate, htwice, rfl, rfl, rfl⟩

end Document
end EmbeddedGraphQL
