import EmbeddedGraphQL.Proofs.Edit.CollectedVariables
import EmbeddedGraphQL.Proofs.Edit.Inlining
import EmbeddedGraphQL.Proofs.Schema.Named

/-!
# Declared types and uses

A fragment declares each of its variables with one type, that of the last use on the lines, but its
selections may use a variable more than once. The declared type suits all uses exactly if the type
of the last one does.

* `TypeRef.suits`: where a variable of a type may be used.
* `TypeRef.text_injective`: what is written for a type stands for no other type.
* `Schema.IsNamed.expectedType`: the types that are expected of variables have names.
* `FragmentPlan.typesFit_iff`: when the types of a plan suit all uses in its selections.
-/

namespace EmbeddedGraphQL

/-! ## Types -/

namespace TypeRef

/-- Whether a variable of a type may be used where another type is expected: the type is that type,
up to required marks that it has in addition. -/
def suits : TypeRef → TypeRef → Bool
  | .named m required, .named n expected => m = n && (required || !expected)
  | .list s required, .list t expected => s.suits t && (required || !expected)
  | _, _ => false

/-- A type that suits another has the same innermost name. -/
theorem innerName_eq_of_suits {s t : TypeRef} (h : s.suits t = true) :
    s.innerName = t.innerName := by
  fun_induction suits s t with
  | case1 m required n expected => exact of_decide_eq_true ((Bool.and_eq_true _ _).mp h).1
  | case2 s required t expected ih => exact ih ((Bool.and_eq_true _ _).mp h).1
  | case3 => cases h

/-- The type of the items has the same innermost name. -/
theorem innerName_item (t : TypeRef) : t.item.innerName = t.innerName := by
  cases t <;> rfl

/-- The written form of a type without the mark of a required type. -/
def base : TypeRef → List Char
  | .named name _ => name.toList
  | .list item _ => '[' :: item.text.toList ++ [']']

/-- Whether a type is required. -/
def isRequired : TypeRef → Bool
  | .named _ required => required
  | .list _ required => required

/-- A type is written as its base, marked if it is required. -/
theorem toList_text (t : TypeRef) :
    t.text.toList = t.base ++ if t.isRequired then ['!'] else [] := by
  cases t with
  | named name required => cases required <;> simp [text, mark, base, isRequired]
  | list item required => cases required <;> simp [text, mark, base, isRequired]

/-- A name starts with a character of a name and goes on with such. -/
theorem exists_cons_of_isName (name : String) (h : isName name = true) :
    ∃ c rest, name.toList = c :: rest ∧ isNameStart c = true ∧
      ∀ c ∈ rest, isNameContinue c = true := by
  unfold isName at h
  cases hname : name.toList with
  | nil =>
    rw [hname] at h
    cases h
  | cons c rest =>
    rw [hname] at h
    obtain ⟨hc, hrest⟩ := (Bool.and_eq_true _ _).mp h
    exact ⟨c, rest, rfl, hc, List.all_eq_true.mp hrest⟩

/-- The mark of a required type is no part of what is written in front of it. -/
theorem getLast?_base {t : TypeRef} (h : isName t.innerName = true) :
    t.base.getLast? ≠ some '!' := by
  cases t with
  | list item required => rw [base, List.getLast?_concat]; decide
  | named name required =>
    obtain ⟨c, rest, hname, hc, hrest⟩ := exists_cons_of_isName name h
    intro hlast
    have hmem := List.mem_of_getLast? hlast
    rw [base, hname, List.mem_cons] at hmem
    rcases hmem with rfl | hmem
    · cases hc
    · cases hrest '!' hmem

/-- What is written for a type tells whether it is required, and what is written in front of the
mark. -/
theorem base_eq_of_text {s t : TypeRef} (hs : isName s.innerName = true)
    (ht : isName t.innerName = true) (h : s.text = t.text) :
    s.base = t.base ∧ s.isRequired = t.isRequired := by
  have hchars := congrArg String.toList h
  rw [toList_text, toList_text] at hchars
  cases hr : s.isRequired <;> cases hq : t.isRequired <;> rw [hr, hq] at hchars
  · simpa using hchars
  · -- Only one of the two ends in a mark.
    refine absurd ?_ (getLast?_base hs)
    rw [show s.base = t.base ++ ['!'] by simpa using hchars, List.getLast?_concat]
  · refine absurd ?_ (getLast?_base ht)
    rw [show t.base = s.base ++ ['!'] by simpa using hchars.symm, List.getLast?_concat]
  · simpa using hchars

/-- A name is not written like a list. -/
theorem base_named_ne {name : String} (h : isName name = true) (item : TypeRef)
    (required expected : Bool) : base (.named name required) ≠ base (.list item expected) := by
  obtain ⟨c, rest, hname, hc, -⟩ := exists_cons_of_isName name h
  rw [base, base, hname, List.cons_append]
  intro heq
  cases (List.cons.inj heq).1
  cases hc

/-- What is written for a type stands for no other type. -/
theorem text_injective {s t : TypeRef} (hs : isName s.innerName = true)
    (ht : isName t.innerName = true) (h : s.text = t.text) : s = t := by
  induction s generalizing t with
  | named m required =>
    obtain ⟨hbase, hrequired⟩ := base_eq_of_text hs ht h
    cases t with
    | list item expected => exact absurd hbase (base_named_ne hs item required expected)
    | named n expected =>
      cases hrequired
      rw [String.toList_inj.mp hbase]
  | list item required ih =>
    obtain ⟨hbase, hrequired⟩ := base_eq_of_text hs ht h
    cases t with
    | named n expected => exact absurd hbase.symm (base_named_ne ht item expected required)
    | list other expected =>
      cases hrequired
      have hitem : item.text.toList = other.text.toList := by simpa [base] using hbase
      rw [ih (t := other) hs ht (String.toList_inj.mp hitem)]

end TypeRef

/-! ## Expected types -/

namespace Schema.IsNamed

variable {schema : Schema}

/-- A field that stands in a document is declared with arguments whose types have names. -/
theorem declaration? (h : schema.IsNamed) {s : Standing} {f : FieldDeclaration}
    (hf : s.declaration? schema = some f) : ∀ i ∈ f.arguments, isName i.type.innerName = true := by
  unfold Standing.declaration? at hf
  split at hf
  · obtain ⟨⟨declaration, type⟩, hfield, rfl⟩ := Option.bind_eq_some_iff.mp hf
    obtain ⟨typeName, -, hfield⟩ := Option.bind_eq_some_iff.mp hfield
    unfold fieldType? at hfield
    split at hfield
    · cases hfield
    · obtain ⟨declared, hdeclared, heq⟩ := Option.map_eq_some_iff.mp hfield
      cases heq
      exact (h.field? hdeclared).2
  · cases hf

/-- An argument is declared with a type that has a name. -/
theorem standingInputType? (h : schema.IsNamed) {s : Standing} {slot : Slot} {name : String}
    {t : TypeRef} (ht : s.inputType? schema slot name = some t) : isName t.innerName = true := by
  obtain ⟨i, hi, rfl⟩ := Option.map_eq_some_iff.mp ht
  obtain ⟨inputs, hinputs, hi⟩ := Option.bind_eq_some_iff.mp hi
  have hmem := List.mem_of_find?_eq_some hi
  cases slot with
  | argument index =>
    obtain ⟨f, hf, rfl⟩ := Option.map_eq_some_iff.mp hinputs
    exact h.declaration? hf i hmem
  | directive number index =>
    obtain ⟨d, hd, rfl⟩ := Option.map_eq_some_iff.mp hinputs
    obtain ⟨directive, -, hd⟩ := Option.bind_eq_some_iff.mp hd
    exact h.directive? hd i hmem

/-- The type that is expected of an occurrence has a name: so has that of the argument, and so have
the types further inside a value. -/
theorem expectedType (h : schema.IsNamed) {o : Occurrence} {t : TypeRef}
    (ht : o.expectedType schema = some t) : isName t.innerName = true := by
  obtain ⟨declared, hdeclared, ht⟩ := Option.bind_eq_some_iff.mp ht
  refine foldlM_invariant (I := fun t => isName t.innerName = true) (Q := fun _ => True)
    ?_ (fun _ _ => trivial) (h.standingInputType? hdeclared) ht
  intro t step next ht _ hnext
  cases step with
  | item index =>
    cases hnext
    rwa [TypeRef.innerName_item]
  | field index name => exact h.inputType? hnext

end Schema.IsNamed

/-! ## Plans -/

namespace FragmentPlan

variable {schema : Schema} {d : Document} {source : String} {lines : LineRange}
  {plan : FragmentPlan}

/-- Whether a variable that is declared with a written type may be used where a type is expected. -/
def TextFits (text : String) (expected : TypeRef) : Prop :=
  ∃ declared : TypeRef, declared.text = text ∧ declared.suits expected = true

/-- Whether the types of a plan suit all uses of its variables in its selections, as far as it is
known what is expected there. -/
def TypesFit (schema : Schema) (d : Document) (plan : FragmentPlan) : Prop :=
  ∀ name text, (name, text) ∈ plan.variableTypes →
    ∀ o : Occurrence, o.In d → plan.Holds o → o.use.name = name →
      ∀ expected ∈ o.expectedType schema, TextFits text expected

/-- The written form of a type fits exactly where the type suits. -/
theorem textFits_iff {type expected : TypeRef} (htype : isName type.innerName = true)
    (hexpected : isName expected.innerName = true) :
    TextFits type.text expected ↔ type.suits expected = true := by
  constructor
  · rintro ⟨declared, htext, hsuits⟩
    -- A type that suits has the name of the expected type inside, hence a name.
    have hdeclared : isName declared.innerName = true :=
      TypeRef.innerName_eq_of_suits hsuits ▸ hexpected
    rwa [TypeRef.text_injective hdeclared htype htext] at hsuits
  · exact fun hsuits => ⟨type, rfl, hsuits⟩

/-- The fragment of a plan declares its variables with the types of the plan. -/
theorem definition_declares (hnames : ∀ p ∈ plan.variableTypes, isName p.1 = true) {name : String}
    (hname : isName name = true) :
    plan.definition name = .ok ⟨name, plan.typeName,
      if plan.variableTypes.isEmpty then []
      else [⟨"argumentDefinitions", plan.variableTypes.map fun p =>
        ⟨p.1, .object [("type", .string p.2)]⟩⟩],
      plan.selections, none⟩ := by
  have hdeclarations : plan.declarations = .ok (if plan.variableTypes.isEmpty then []
      else [⟨"argumentDefinitions", plan.variableTypes.map fun p =>
        ⟨p.1, .object [("type", .string p.2)]⟩⟩]) := by
    unfold declarations
    split
    · rfl
    · rw [mapM_checkedName hnames fun name type => ⟨name, .object [("type", .string type)]⟩]
      rfl
  rw [definition, hdeclarations, checkedName, if_pos hname]
  rfl

/-- A fragment declares its variables with the types of the plan. They suit all uses in its
selections exactly if, for each variable, the type of its last use on the lines suits them: that one
type is declared, whatever the other uses are. -/
theorem typesFit_iff (hd : Document.parse? source = some d) (hschema : schema.IsNamed)
    (h : find? schema d source lines = some plan) :
    (∀ name, isName name = true →
        plan.definition name = .ok ⟨name, plan.typeName,
          if plan.variableTypes.isEmpty then []
          else [⟨"argumentDefinitions", plan.variableTypes.map fun p =>
            ⟨p.1, .object [("type", .string p.2)]⟩⟩],
          plan.selections, none⟩) ∧
      (plan.TypesFit schema d ↔ ∀ (last : Occurrence) (type : TypeRef),
        last.IsLastTyped schema d (LineIndex.ofString source) lines type →
          ∀ o : Occurrence, o.In d → plan.Holds o → o.use.name = last.use.name →
            ∀ expected ∈ o.expectedType schema, type.suits expected = true) := by
  refine ⟨fun name hname => definition_declares (takesBlock_of_find? hd h).2 hname, ?_⟩
  constructor
  · intro hfit last type hlast o ho hholds hname expected hexpected
    have hmem := (mem_variableTypes_iff h).mpr ⟨last, type, hlast, rfl, rfl⟩
    exact (textFits_iff (hschema.expectedType hlast.type) (hschema.expectedType hexpected)).mp
      (hfit _ _ hmem o ho hholds hname expected hexpected)
  · intro hsuits name text hmem o ho hholds hname expected hexpected
    obtain ⟨last, type, hlast, rfl, rfl⟩ := (mem_variableTypes_iff h).mp hmem
    exact ⟨type, rfl, hsuits last type hlast o ho hholds hname expected hexpected⟩

end FragmentPlan

/-- A schema text in which a field `a` needs a number and a field `b` takes one or none. -/
def numberFields : String := "type Query \x7b a(x: Int!): Int b(x: Int): Int \x7d"

/-- The text `{ b(x: $v) a(x: $v) }` on four lines. -/
def neededLast : String := "\x7b\n  b(x: $v)\n  a(x: $v)\n\x7d"

/-- The text `{ a(x: $v) b(x: $v) }` on four lines. -/
def neededFirst : String := "\x7b\n  a(x: $v)\n  b(x: $v)\n\x7d"

namespace FragmentPlan

/-- Where `$v` is needed last, the declared type suits both uses. -/
theorem typesFit_iff_neededLast :
    ∃ schema d plan, Schema.ofTexts? [numberFields] = some schema ∧
      Document.parse? neededLast = some d ∧ find? schema d neededLast ⟨1, 2⟩ = some plan ∧
      plan.variableTypes = [("v", "Int!")] ∧ plan.TypesFit schema d := by
  have hfound : ((Schema.ofTexts? [numberFields]).bind fun schema =>
      (Document.parse? neededLast).bind fun d =>
        (find? schema d neededLast ⟨1, 2⟩).map fun plan =>
          (plan.variableTypes, d.occurrences.map (·.expectedType schema))) =
      some ([("v", "Int!")], [some (.named "Int" false), some (.named "Int" true)]) := by
    decide +kernel
  obtain ⟨schema, hschema, hfound⟩ := Option.bind_eq_some_iff.mp hfound
  obtain ⟨d, hd, hfound⟩ := Option.bind_eq_some_iff.mp hfound
  obtain ⟨plan, hplan, heq⟩ := Option.map_eq_some_iff.mp hfound
  obtain ⟨htypes, hexpected⟩ := Prod.mk.inj heq
  have hmem : ∀ o : Occurrence, o.In d → o.expectedType schema ∈
      [some (.named "Int" false), some (.named "Int" true)] := by
    intro o ho
    rw [← hexpected]
    exact List.mem_map_of_mem (Document.mem_occurrences_iff.mpr ho)
  refine ⟨schema, d, plan, hschema, hd, hplan, htypes,
    (typesFit_iff hd (Schema.isNamed_of_ofTexts? hschema) hplan).2.mpr ?_⟩
  intro last type hlast o ho hholds hname expected hexpected
  -- What is declared for `$v` is the type of its last use.
  have htext := (mem_variableTypes_iff hplan).mpr ⟨last, type, hlast, rfl, rfl⟩
  rw [htypes, List.mem_singleton, Prod.mk.injEq] at htext
  have htype : type = .named "Int" true := by
    have hlast := hlast.type ▸ hmem last hlast.standsIn
    simp only [List.mem_cons, Option.some.injEq, List.not_mem_nil, or_false] at hlast
    rcases hlast with rfl | rfl
    · exact absurd htext.2 (by decide)
    · rfl
  have ho := hexpected ▸ hmem o ho
  simp only [List.mem_cons, Option.some.injEq, List.not_mem_nil, or_false] at ho
  subst htype
  rcases ho with rfl | rfl <;> rfl

/-- Where `$v` is needed first, it is declared as a number or none, which does not suit the use that
needs a number. -/
theorem not_typesFit :
    ¬ ∀ (texts : List String) (schema : Schema) (source : String) (d : Document)
      (lines : LineRange) (plan : FragmentPlan), Schema.ofTexts? texts = some schema →
      Document.parse? source = some d → find? schema d source lines = some plan →
        plan.TypesFit schema d := by
  intro hall
  have hfound : ((Schema.ofTexts? [numberFields]).bind fun schema =>
      (Document.parse? neededFirst).bind fun d =>
        (find? schema d neededFirst ⟨1, 2⟩).map fun plan =>
          (plan.variableTypes, d.occurrences.any fun o =>
            plan.indices.any (fun i => o.standing.address = plan.target.child i) &&
              o.use.name = "v" && o.expectedType schema = some (.named "Int" true))) =
      some ([("v", "Int")], true) := by
    decide +kernel
  obtain ⟨schema, hschema, hfound⟩ := Option.bind_eq_some_iff.mp hfound
  obtain ⟨d, hd, hfound⟩ := Option.bind_eq_some_iff.mp hfound
  obtain ⟨plan, hplan, heq⟩ := Option.map_eq_some_iff.mp hfound
  obtain ⟨htypes, hany⟩ := Prod.mk.inj heq
  obtain ⟨o, ho, hneeded⟩ := List.any_eq_true.mp hany
  simp only [Bool.and_eq_true, List.any_eq_true, decide_eq_true_eq] at hneeded
  obtain ⟨⟨⟨i, hi, haddress⟩, hname⟩, hexpected⟩ := hneeded
  have hin : o.In d := Document.mem_occurrences_iff.mp ho
  have hholds : plan.Holds o := ⟨i, hi, .inl haddress⟩
  obtain ⟨declared, htext, hsuits⟩ := hall [numberFields] schema neededFirst d ⟨1, 2⟩ plan hschema
    hd hplan "v" "Int" (by simp [htypes]) o hin hholds hname (.named "Int" true) hexpected
  -- A type that suits is required too, which would be written in its text.
  cases declared with
  | list item required => cases hsuits
  | named name required =>
    obtain ⟨rfl, rfl⟩ : name = "Int" ∧ required = true := by simpa [TypeRef.suits] using hsuits
    exact absurd htext (by decide)

end FragmentPlan

end EmbeddedGraphQL
