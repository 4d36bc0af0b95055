import EmbeddedGraphQL.Proofs.Edit.Repaginated

/-!
# Merging as an action

Arguments form a monoid under merging, with the empty list as its unit: where one list is merged
after another one, it does not matter which two of three are merged first. Directives are acted on
by this monoid, one name at a time. Merging two lists of arguments into the directive of a name, one
after the other, is merging the merged list into it.

* `Argument.merge_assoc`, `Argument.merge_nil`, `Argument.nil_merge`: the monoid.
* `Argument.filter_name_merge`, `Argument.filter_others_merge`: what is there of a name afterwards.
* `Directive.merge_of_forall_ne`, `Directive.merge_append_cons`: what merging does to directives.
* `Directive.merge_after_merge`: the action on directives.
* `Node.addDirective_twice`, `FragmentSpread.addDirective_twice`: the action on parts of a document.
* `Directive.merge_acts`: all of it.
-/

namespace EmbeddedGraphQL

/-! ## The monoid of arguments -/

namespace Argument

@[simp] theorem merge_nil (old : List Argument) : merge old [] = old := by
  simp [merge]

@[simp] theorem nil_merge (new : List Argument) : merge [] new = new := by
  simp [merge]

/-- The names in merged arguments are those of the old and of the new ones. -/
theorem any_name_merge (old new : List Argument) (name : String) :
    (merge old new).any (·.name = name) =
      (old.any (·.name = name) || new.any (·.name = name)) := by
  rw [merge, List.any_append, Bool.eq_iff_iff]
  -- An old argument that is left out has its name from a new one.
  cases hnew : new.any (·.name = name) with
  | true => simp only [Bool.or_true]
  | false =>
    have hkept : ∀ x ∈ old, x.name = name → (!new.any (·.name = x.name)) = true := by
      rintro x - rfl
      rw [hnew, Bool.not_false]
    simp only [Bool.or_false, List.any_eq_true, List.mem_filter, decide_eq_true_eq]
    constructor
    · rintro ⟨x, ⟨hx, -⟩, hname⟩
      exact ⟨x, hx, hname⟩
    · rintro ⟨x, hx, hname⟩
      exact ⟨x, ⟨hx, hkept x hx hname⟩, hname⟩

/-- Merging is associative. -/
theorem merge_assoc (old new more : List Argument) :
    merge (merge old new) more = merge old (merge new more) := by
  -- An old argument outlives both mergings exactly if neither list gives its name.
  have hnames : ∀ x : Argument, (!(merge new more).any (·.name = x.name)) =
      (!more.any (·.name = x.name) && !new.any (·.name = x.name)) := by
    intro x
    rw [any_name_merge, Bool.not_or, Bool.and_comm]
  calc merge (merge old new) more
      = old.filter (fun x => !more.any (·.name = x.name) && !new.any (·.name = x.name)) ++
          (new.filter (fun x => !more.any (·.name = x.name)) ++ more) := by
        rw [merge, merge, List.filter_append, List.filter_filter, List.append_assoc]
    _ = old.filter (fun x => !(merge new more).any (·.name = x.name)) ++ merge new more := by
        simp only [hnames]
        rfl

/-- Of a name that is given there are the given arguments only. -/
theorem filter_name_merge (old : List Argument) {new : List Argument} {name : String}
    (h : ∃ x ∈ new, x.name = name) :
    (merge old new).filter (·.name = name) = new.filter (·.name = name) := by
  have hgiven : new.any (·.name = name) = true := by
    obtain ⟨x, hx, hname⟩ := h
    exact List.any_eq_true.mpr ⟨x, hx, by simpa using hname⟩
  -- The arguments of the name are among those of all names that are given.
  calc (merge old new).filter (·.name = name)
      = ((merge old new).filter (fun x => new.any (·.name = x.name))).filter
          (·.name = name) := by
        rw [List.filter_filter]
        apply List.filter_congr
        intro x _
        by_cases hname : x.name = name
        · simp only [hname, hgiven, Bool.and_true]
        · simp only [hname, decide_false, Bool.false_and]
    _ = new.filter (·.name = name) := by rw [(merged_merge new old).given]

/-- The arguments of all other names are those that were there, in their order. -/
theorem filter_others_merge (old new : List Argument) :
    (merge old new).filter (fun x => ∀ y ∈ new, y.name ≠ x.name) =
      old.filter (fun x => ∀ y ∈ new, y.name ≠ x.name) := by
  have hothers : (fun x : Argument => decide (∀ y ∈ new, y.name ≠ x.name)) =
      fun x => !new.any (·.name = x.name) := by
    funext x
    rw [Bool.eq_iff_iff]
    simp
  rw [hothers]
  exact (merged_merge new old).others

end Argument

/-! ## The action on directives -/

namespace Directive

/-- A directive of a new name comes last. -/
theorem merge_of_forall_ne {name : String} (args : List Argument) {ds : List Directive}
    (h : ∀ x ∈ ds, x.name ≠ name) : merge name args ds = ds ++ [⟨name, args⟩] := by
  induction ds with
  | nil => rfl
  | cons x rest ih =>
    obtain ⟨hx, hrest⟩ := List.forall_mem_cons.mp h
    rw [merge, if_neg hx, ih hrest, List.cons_append]

/-- Otherwise the arguments go into the first directive of the name, and no other one changes. -/
theorem merge_append_cons {name : String} (args old : List Argument) {before : List Directive}
    (after : List Directive) (h : ∀ x ∈ before, x.name ≠ name) :
    merge name args (before ++ ⟨name, old⟩ :: after) =
      before ++ ⟨name, Argument.merge old args⟩ :: after := by
  induction before with
  | nil => rw [List.nil_append, List.nil_append, merge, if_pos rfl]
  | cons x rest ih =>
    obtain ⟨hx, hrest⟩ := List.forall_mem_cons.mp h
    rw [List.cons_append, merge, if_neg hx, ih hrest, List.cons_append]

/-- Directives without one of a name, or cut at the first one of the name. -/
theorem forall_ne_or_exists_first (name : String) (ds : List Directive) :
    (∀ x ∈ ds, x.name ≠ name) ∨
      ∃ before old after, ds = before ++ ⟨name, old⟩ :: after ∧ ∀ x ∈ before, x.name ≠ name := by
  cases hfind : ds.find? (·.name = name) with
  | none => exact .inl (by simpa using hfind)
  | some d =>
    obtain ⟨hname, before, after, rfl, hbefore⟩ := List.find?_eq_some_iff_append.mp hfind
    obtain rfl : d.name = name := by simpa using hname
    exact .inr ⟨before, d.arguments, after, rfl, by simpa using hbefore⟩

/-- Merging twice is merging what is merged. -/
theorem merge_after_merge (name : String) (new more : List Argument) (ds : List Directive) :
    merge name more (merge name new ds) = merge name (Argument.merge new more) ds := by
  rcases forall_ne_or_exists_first name ds with hnone | ⟨before, old, after, rfl, hbefore⟩
  · -- The second merging finds the directive that the first one has put in.
    rw [merge_of_forall_ne new hnone, merge_of_forall_ne _ hnone, merge_append_cons _ _ _ hnone]
  · rw [merge_append_cons _ _ _ hbefore, merge_append_cons _ _ _ hbefore,
      merge_append_cons _ _ _ hbefore, Argument.merge_assoc]

end Directive

/-! ## The action on parts of a document -/

namespace Node

@[simp] theorem directives_withDirectives (n : Node) (ds : List Directive) :
    (n.withDirectives ds).directives = ds := by
  cases n <;> rfl

@[simp] theorem withDirectives_withDirectives (n : Node) (ds es : List Directive) :
    (n.withDirectives ds).withDirectives es = n.withDirectives es := by
  cases n <;> rfl

/-- A directive given twice to a node is the merged one given once. -/
theorem addDirective_twice (n : Node) (name : String) (new more : List Argument) :
    (n.addDirective name new >>= fun m => m.addDirective name more) =
      n.addDirective name (Argument.merge new more) := by
  unfold addDirective checkedName
  split
  · simp only [bind, Except.bind, pure, Except.pure, directives_withDirectives,
      withDirectives_withDirectives, Directive.merge_after_merge]
  · rfl

end Node

/-- A directive given twice to a spread is the merged one given once. -/
theorem FragmentSpread.addDirective_twice (s : FragmentSpread) (name : String)
    (new more : List Argument) :
    (s.addDirective name new >>= fun t => t.addDirective name more) =
      s.addDirective name (Argument.merge new more) := by
  unfold addDirective checkedName
  split
  · simp only [bind, Except.bind, pure, Except.pure, Directive.merge_after_merge]
  · rfl

/-- Merging arguments is associative, merging the same ones again changes nothing, and merging none
or merging into none changes nothing. Of a name that is given there are exactly the given arguments
afterwards, and the arguments of all other names stay as they are and in their order. Directives are
acted on: what is merged into the directive of a name in two steps can be merged in one, also where
the directive is given to a node or to a spread. A directive that is not there yet is added at the
end. Otherwise the first one of its name takes the arguments, and all the others, later ones of the
name included, stay as they are and where they are. -/
theorem Directive.merge_acts (e a b : List Argument) (name : String) (ds : List Directive) :
    Argument.merge (Argument.merge e a) b = Argument.merge e (Argument.merge a b) ∧
      Argument.merge (Argument.merge e a) a = Argument.merge e a ∧
      Argument.merge e [] = e ∧ Argument.merge [] e = e ∧
      ((∃ x ∈ a, x.name = name) →
        (Argument.merge e a).filter (·.name = name) = a.filter (·.name = name)) ∧
      (Argument.merge e a).filter (fun x => ∀ y ∈ a, y.name ≠ x.name) =
        e.filter (fun x => ∀ y ∈ a, y.name ≠ x.name) ∧
      merge name b (merge name a ds) = merge name (Argument.merge a b) ds ∧
      (∀ n : Node, (n.addDirective name a >>= fun m => m.addDirective name b) =
        n.addDirective name (Argument.merge a b)) ∧
      (∀ s : FragmentSpread, (s.addDirective name a >>= fun t => t.addDirective name b) =
        s.addDirective name (Argument.merge a b)) ∧
      ((∀ x ∈ ds, x.name ≠ name) → merge name a ds = ds ++ [⟨name, a⟩]) ∧
      ∀ before old after, ds = before ++ ⟨name, old⟩ :: after → (∀ x ∈ before, x.name ≠ name) →
        merge name a ds = before ++ ⟨name, Argument.merge old a⟩ :: after := by
  refine ⟨Argument.merge_assoc e a b, Argument.merge_merge a e, Argument.merge_nil e,
    Argument.nil_merge e, Argument.filter_name_merge e, Argument.filter_others_merge e a,
    merge_after_merge name a b ds, fun n => n.addDirective_twice name a b,
    fun s => s.addDirective_twice name a b, merge_of_forall_ne a, ?_⟩
  rintro before old after rfl hbefore
  exact merge_append_cons a old after hbefore

/-- Into `@other @connection(key: "old", key: "older", filters: []) @connection`, first one key and
then another one with a handler is merged. -/
theorem Directive.merge_acts_twoConnections :
    Directive.merge "connection" [⟨"key", .string "new"⟩, ⟨"handler", .null⟩]
        (Directive.merge "connection" [⟨"key", .string "between"⟩]
          [⟨"other", []⟩, ⟨"connection", [⟨"key", .string "old"⟩, ⟨"key", .string "older"⟩,
            ⟨"filters", .list []⟩]⟩, ⟨"connection", []⟩]) =
      [⟨"other", []⟩, ⟨"connection", [⟨"filters", .list []⟩, ⟨"key", .string "new"⟩,
        ⟨"handler", .null⟩]⟩, ⟨"connection", []⟩] := by
  have hmerge : Argument.merge [⟨"key", .string "between"⟩]
      [⟨"key", .string "new"⟩, ⟨"handler", .null⟩] =
      [⟨"key", .string "new"⟩, ⟨"handler", .null⟩] := rfl
  obtain ⟨-, -, -, -, -, -, htwice, -⟩ := Directive.merge_acts [] [⟨"key", .string "between"⟩]
    [⟨"key", .string "new"⟩, ⟨"handler", .null⟩] "connection"
    [⟨"other", []⟩, ⟨"connection", [⟨"key", .string "old"⟩, ⟨"key", .string "older"⟩,
      ⟨"filters", .list []⟩]⟩, ⟨"connection", []⟩]
  obtain ⟨-, -, -, -, -, -, -, -, -, -, hfirst⟩ := Directive.merge_acts []
    [⟨"key", .string "new"⟩, ⟨"handler", .null⟩] [] "connection"
    [⟨"other", []⟩, ⟨"connection", [⟨"key", .string "old"⟩, ⟨"key", .string "older"⟩,
      ⟨"filters", .list []⟩]⟩, ⟨"connection", []⟩]
  rw [htwice, hmerge]
  exact hfirst [⟨"other", []⟩] _ [⟨"connection", []⟩] rfl (by simp)

end EmbeddedGraphQL
