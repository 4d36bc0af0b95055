import EmbeddedGraphQL.Document.Printer
import EmbeddedGraphQL.Proofs.Document.SameParts

/-!
# The same documents are printed alike

The printer reads no places. What two documents that are the same may differ in is therefore lost
when they are printed, in every layout.

* `Printer.value_eq_of_same`, `Printer.selection_eq_of_same`: the parts that nest.
* `Printer.definition_eq_of_same`: definitions.
* `Document.pretty_eq_of_same`: documents.
-/

namespace EmbeddedGraphQL

namespace Printer

/-! ## Values and directives -/

mutual

/-- Values that are the same are printed alike. -/
theorem value_eq_of_same (layout : Layout) (v w : Value) (h : v.same w = true) :
    value layout v = value layout w := by
  -- Values of different kinds are never the same, so that only the diagonal is left.
  cases v with
  | null =>
    cases w with
    | null => rfl
    | _ => cases h
  | boolean a =>
    cases w with
    | boolean b => rw [eq_of_beq h]
    | _ => cases h
  | enum a =>
    cases w with
    | enum b => rw [eq_of_beq h]
    | _ => cases h
  | int a =>
    cases w with
    | int b => rw [eq_of_beq h]
    | _ => cases h
  | float a =>
    cases w with
    | float b => rw [eq_of_beq h]
    | _ => cases h
  | string a =>
    cases w with
    | string b => rw [eq_of_beq h]
    | _ => cases h
  | var a _ =>
    cases w with
    | var b _ => rw [value, value, eq_of_beq h]
    | _ => cases h
  | list items =>
    cases w with
    | list others => rw [value, value, values_eq_of_same _ items others h]
    | _ => cases h
  | object fields =>
    cases w with
    | object others => rw [value, value, objectFields_eq_of_same _ fields others h]
    | _ => cases h

/-- Lists with the same values are printed alike. -/
theorem values_eq_of_same (layout : Layout) (vs ws : List Value)
    (h : Value.sameItems vs ws = true) : values layout vs = values layout ws := by
  cases vs with
  | nil =>
    cases ws with
    | nil => rfl
    | cons w ws => cases h
  | cons v vs =>
    cases ws with
    | nil => cases h
    | cons w ws =>
      rw [Value.sameItems, Bool.and_eq_true] at h
      rw [values, values, value_eq_of_same layout v w h.1, values_eq_of_same layout vs ws h.2]

/-- Objects with the same fields are printed alike. -/
theorem objectFields_eq_of_same (layout : Layout) (fs gs : List (String × Value))
    (h : Value.sameFields fs gs = true) : objectFields layout fs = objectFields layout gs := by
  cases fs with
  | nil =>
    cases gs with
    | nil => rfl
    | cons g gs => cases h
  | cons f fs =>
    cases gs with
    | nil => cases h
    | cons g gs =>
      obtain ⟨m, v⟩ := f
      obtain ⟨n, w⟩ := g
      rw [Value.sameFields, Bool.and_eq_true, Bool.and_eq_true, beq_iff_eq] at h
      rw [objectFields, objectFields, h.1.1, value_eq_of_same layout v w h.1.2,
        objectFields_eq_of_same layout fs gs h.2]

end

/-- The same arguments are printed alike. -/
theorem arguments_eq_of_same {as bs : List Argument} (h : sameList Argument.same as bs = true) :
    arguments as = arguments bs := by
  have hmap := map_eq_of_sameList h (f := fun a => a.name ++ ": " ++ value .oneLine a.value) (by
    intro a b hab
    simp only [Argument.same, Bool.and_eq_true, beq_iff_eq] at hab
    rw [hab.1, value_eq_of_same .oneLine a.value b.value hab.2])
  rw [arguments, arguments, isEmpty_eq_of_sameList h, hmap]

/-- The same directive is printed alike. -/
theorem directive_eq_of_same (a b : Directive) (h : a.same b = true) :
    directive a = directive b := by
  simp only [Directive.same, Bool.and_eq_true, beq_iff_eq] at h
  rw [directive, directive, h.1, arguments_eq_of_same h.2]

/-- The same directives are printed alike. -/
theorem directives_eq_of_same {as bs : List Directive} (h : sameDirectives as bs = true) :
    directives as = directives bs := by
  have hmap := map_eq_of_sameList h (f := fun d => " " ++ directive d) fun a b hab => by
    rw [directive_eq_of_same a b hab]
  rw [directives, directives, hmap]

/-! ## Selections -/

/-- Fields with the same heads are printed alike up to their sets. -/
theorem fieldHead_eq_of_same {f g : Field} (h : Selection.sameHead f g = true) :
    fieldHead f = fieldHead g := by
  simp only [Selection.sameHead, Bool.and_eq_true, beq_iff_eq] at h
  obtain ⟨⟨⟨halias, hname⟩, harguments⟩, hdirectives⟩ := h
  rw [fieldHead, fieldHead, halias, hname, arguments_eq_of_same harguments,
    directives_eq_of_same hdirectives]

mutual

/-- Selections that are the same are printed alike. -/
theorem selection_eq_of_same (layout : Layout) (s t : Selection) (h : s.same t = true) :
    selection layout s = selection layout t := by
  cases s with
  | field f set =>
    cases t with
    | field g others =>
      rw [Selection.same, Bool.and_eq_true] at h
      have hset := selections_eq_of_same layout.inner set others h.2
      -- Braces are printed for a set that is not empty, and both sets are or neither is.
      cases set with
      | nil =>
        cases others with
        | nil => rw [selection, selection, fieldHead_eq_of_same h.1]
        | cons t others => cases h.2
      | cons s set =>
        cases others with
        | nil => cases h.2
        | cons t others =>
          rw [selections, selections] at hset
          rw [selection, selection, fieldHead_eq_of_same h.1, hset]
    | _ => cases h
  | inline f set =>
    cases t with
    | inline g others =>
      simp only [Selection.same, Bool.and_eq_true, beq_iff_eq] at h
      rw [selection, selection, inlineHead, inlineHead, h.1.1, directives_eq_of_same h.1.2,
        selections_eq_of_same layout.inner set others h.2]
    | _ => cases h
  | spread f =>
    cases t with
    | spread g =>
      simp only [Selection.same, Bool.and_eq_true, beq_iff_eq] at h
      rw [selection, selection, spread, spread, h.1, directives_eq_of_same h.2]
    | _ => cases h

/-- Sets with the same selections have their selections printed alike. -/
theorem selections_eq_of_same (layout : Layout) (ss ts : List Selection)
    (h : Selection.sameSet ss ts = true) : selections layout ss = selections layout ts := by
  cases ss with
  | nil =>
    cases ts with
    | nil => rfl
    | cons t ts => cases h
  | cons s ss =>
    cases ts with
    | nil => cases h
    | cons t ts =>
      rw [Selection.sameSet, Bool.and_eq_true] at h
      rw [selections, selections, selection_eq_of_same layout s t h.1,
        selections_eq_of_same layout ss ts h.2]

end

/-- The same selection set is printed alike, with its braces. -/
theorem selectionSet_eq_of_same (layout : Layout) {ss ts : List Selection}
    (h : Selection.sameSet ss ts = true) : selectionSet layout ss = selectionSet layout ts := by
  rw [selectionSet, selectionSet, selections_eq_of_same layout.inner ss ts h]

/-! ## Definitions -/

/-- The same default, or none, is printed alike. -/
theorem default_eq_of_same (layout : Layout) {v w : Option Value}
    (h : sameOption Value.same v w = true) : default layout v = default layout w := by
  cases v with
  | none =>
    cases w with
    | none => rfl
    | some w => cases h
  | some v =>
    cases w with
    | none => cases h
    | some w => rw [default, default, value_eq_of_same layout v w h]

/-- The same variable definition is printed alike. -/
theorem variableDefinition_eq_of_same (v w : VariableDefinition) (h : v.same w = true) :
    variableDefinition v = variableDefinition w := by
  simp only [VariableDefinition.same, Bool.and_eq_true, beq_iff_eq] at h
  obtain ⟨⟨⟨hname, htype⟩, hdefault⟩, hdirectives⟩ := h
  rw [variableDefinition, variableDefinition, hname, htype, default_eq_of_same .oneLine hdefault,
    directives_eq_of_same hdirectives]

/-- The same operation is printed alike in the same place of a document. -/
theorem operation_eq_of_same (layout : Layout) (isFirst : Bool) {o p : Operation}
    (h : o.same p = true) : operation layout isFirst o = operation layout isFirst p := by
  simp only [Operation.same, Bool.and_eq_true, beq_iff_eq] at h
  obtain ⟨⟨⟨⟨hkind, hname⟩, hvariables⟩, hdirectives⟩, hselections⟩ := h
  -- Whether a query has its short form is decided by all parts but the selections.
  have hmap := map_eq_of_sameList hvariables variableDefinition_eq_of_same
  simp only [operation, hkind, hname, isEmpty_eq_of_sameList hvariables, hmap,
    isEmpty_eq_of_sameList hdirectives, directives_eq_of_same hdirectives,
    selectionSet_eq_of_same layout hselections]

/-- The same fragment is printed alike. -/
theorem fragment_eq_of_same (layout : Layout) {f g : Fragment} (h : f.same g = true) :
    fragment layout f = fragment layout g := by
  simp only [Fragment.same, Bool.and_eq_true, beq_iff_eq] at h
  obtain ⟨⟨⟨hname, hcondition⟩, hdirectives⟩, hselections⟩ := h
  simp only [fragment, hname, hcondition, directives_eq_of_same hdirectives,
    selectionSet_eq_of_same layout hselections]

/-- The same declaration of an input is printed alike. -/
theorem inputDeclaration_eq_of_same (layout : Layout) (d e : InputDeclaration)
    (h : d.same e = true) : inputDeclaration layout d = inputDeclaration layout e := by
  simp only [InputDeclaration.same, Bool.and_eq_true, beq_iff_eq] at h
  obtain ⟨⟨⟨⟨hdescription, hname⟩, htype⟩, hdefault⟩, hdirectives⟩ := h
  rw [inputDeclaration, inputDeclaration, hdescription, hname, htype,
    default_eq_of_same layout hdefault, directives_eq_of_same hdirectives]

/-- Arguments that are the same are laid out alike: a description or a directive of one of them
puts all on lines of their own. -/
theorem argumentDeclarations_eq_of_same (layout : Layout) {ds es : List InputDeclaration}
    (h : sameList InputDeclaration.same ds es = true) :
    argumentDeclarations layout ds = argumentDeclarations layout es := by
  have hany := any_eq_of_sameList h
    (p := fun d => d.description.isSome || !d.directives.isEmpty) fun d e hde => by
      simp only [InputDeclaration.same, Bool.and_eq_true, beq_iff_eq] at hde
      simp only [hde.1.1.1.1, isEmpty_eq_of_sameList hde.2]
  have hmap := fun layout => map_eq_of_sameList h (inputDeclaration_eq_of_same layout)
  simp only [argumentDeclarations, isEmpty_eq_of_sameList h, hany, hmap]

/-- The same declaration of a field is printed alike. -/
theorem fieldDeclaration_eq_of_same (layout : Layout) (d e : FieldDeclaration)
    (h : d.same e = true) : fieldDeclaration layout d = fieldDeclaration layout e := by
  simp only [FieldDeclaration.same, Bool.and_eq_true, beq_iff_eq] at h
  obtain ⟨⟨⟨⟨hdescription, hname⟩, harguments⟩, htype⟩, hdirectives⟩ := h
  rw [fieldDeclaration, fieldDeclaration, hdescription, hname, htype,
    argumentDeclarations_eq_of_same layout harguments, directives_eq_of_same hdirectives]

/-- The same declaration of an enum value is printed alike. -/
theorem enumDeclaration_eq_of_same (layout : Layout) (d e : EnumDeclaration)
    (h : d.same e = true) : enumDeclaration layout d = enumDeclaration layout e := by
  simp only [EnumDeclaration.same, Bool.and_eq_true, beq_iff_eq] at h
  rw [enumDeclaration, enumDeclaration, h.1.1, h.1.2, directives_eq_of_same h.2]

/-- The same declaration of a type is printed alike, whatever its body. -/
theorem typeDeclaration_eq_of_same (layout : Layout) {t u : TypeDeclaration}
    (h : t.same u = true) : typeDeclaration layout t = typeDeclaration layout u := by
  obtain ⟨name, ds, body⟩ := t
  obtain ⟨name', ds', body'⟩ := u
  simp only [TypeDeclaration.same, Bool.and_eq_true, beq_iff_eq] at h
  obtain ⟨⟨rfl, hdirectives⟩, hbody⟩ := h
  have hannotations := directives_eq_of_same hdirectives
  -- The bodies are of one kind, and the parts of each agree.
  cases body with
  | scalar =>
    cases body' with
    | scalar => simp only [typeDeclaration, hannotations]
    | _ => cases hbody
  | object names fields =>
    cases body' with
    | object names' fields' =>
      simp only [TypeBody.same, Bool.and_eq_true, beq_iff_eq] at hbody
      simp only [typeDeclaration, hannotations, hbody.1,
        map_eq_of_sameList hbody.2 (fieldDeclaration_eq_of_same layout.inner)]
    | _ => cases hbody
  | interface names fields =>
    cases body' with
    | interface names' fields' =>
      simp only [TypeBody.same, Bool.and_eq_true, beq_iff_eq] at hbody
      simp only [typeDeclaration, hannotations, hbody.1,
        map_eq_of_sameList hbody.2 (fieldDeclaration_eq_of_same layout.inner)]
    | _ => cases hbody
  | union members =>
    cases body' with
    | union members' =>
      simp only [TypeBody.same, beq_iff_eq] at hbody
      simp only [typeDeclaration, hannotations, hbody]
    | _ => cases hbody
  | enum values =>
    cases body' with
    | enum values' =>
      simp only [typeDeclaration, hannotations,
        map_eq_of_sameList hbody (enumDeclaration_eq_of_same layout.inner)]
    | _ => cases hbody
  | inputObject fields =>
    cases body' with
    | inputObject fields' =>
      simp only [typeDeclaration, hannotations,
        map_eq_of_sameList hbody (inputDeclaration_eq_of_same layout.inner)]
    | _ => cases hbody

/-- The same declaration of a directive is printed alike. -/
theorem directiveDeclaration_eq_of_same (layout : Layout) {d e : DirectiveDeclaration}
    (h : d.same e = true) : directiveDeclaration layout d = directiveDeclaration layout e := by
  simp only [DirectiveDeclaration.same, Bool.and_eq_true, beq_iff_eq] at h
  obtain ⟨⟨⟨hname, harguments⟩, hrepeatable⟩, hlocations⟩ := h
  simp only [directiveDeclaration, hname, hrepeatable, hlocations,
    argumentDeclarations_eq_of_same layout harguments]

/-- Definitions that are the same are printed alike. -/
theorem definition_eq_of_same (layout : Layout) (isFirst : Bool) (d e : Definition)
    (h : d.same e = true) : definition layout isFirst d = definition layout isFirst e := by
  -- The definitions are of one kind.
  cases d with
  | operation o =>
    cases e with
    | operation p => exact operation_eq_of_same layout isFirst h
    | _ => cases h
  | fragment f =>
    cases e with
    | fragment g => exact fragment_eq_of_same layout h
    | _ => cases h
  | directive d directive _ =>
    cases e with
    | directive e other _ =>
      simp only [Definition.same, Bool.and_eq_true, beq_iff_eq] at h
      rw [definition, definition, h.1, directiveDeclaration_eq_of_same layout h.2]
    | _ => cases h
  | schema d schema _ =>
    cases e with
    | schema e other _ =>
      simp only [Definition.same, SchemaDeclaration.same, Bool.and_eq_true, beq_iff_eq] at h
      simp only [definition, h.1, directives_eq_of_same h.2.1, h.2.2]
    | _ => cases h
  | schemaExtension schema _ =>
    cases e with
    | schemaExtension other _ =>
      simp only [Definition.same, SchemaDeclaration.same, Bool.and_eq_true, beq_iff_eq] at h
      simp only [definition, directives_eq_of_same h.1, h.2]
    | _ => cases h
  | type d type _ =>
    cases e with
    | type e other _ =>
      simp only [Definition.same, Bool.and_eq_true, beq_iff_eq] at h
      rw [definition, definition, h.1, typeDeclaration_eq_of_same layout h.2]
    | _ => cases h
  | typeExtension type _ =>
    cases e with
    | typeExtension other _ => rw [definition, definition, typeDeclaration_eq_of_same layout h]
    | _ => cases h

/-- Documents with the same definitions are printed alike. -/
theorem definitions_eq_of_same (layout : Layout) {ds es : List Definition}
    (h : sameList Definition.same ds es = true) :
    definitions layout ds = definitions layout es := by
  cases ds with
  | nil =>
    cases es with
    | nil => rfl
    | cons e es => cases h
  | cons d ds =>
    cases es with
    | nil => cases h
    | cons e es =>
      rw [sameList, Bool.and_eq_true] at h
      rw [definitions, definitions, definition_eq_of_same layout true d e h.1,
        map_eq_of_sameList h.2 (definition_eq_of_same layout false)]

end Printer

/-- Documents that are the same are printed alike. -/
theorem Document.pretty_eq_of_same {d e : Document} (h : d.same e = true) :
    d.pretty = e.pretty := by
  rw [pretty, pretty, Printer.definitions_eq_of_same (.lines 0) h]

end EmbeddedGraphQL
