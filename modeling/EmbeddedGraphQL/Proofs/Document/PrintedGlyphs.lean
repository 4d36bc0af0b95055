import EmbeddedGraphQL.Proofs.Document.Grammatical
import EmbeddedGraphQL.Proofs.Document.Written

/-!
# The glyphs of a printed document

What the printer writes is said here once more in glyphs: the lexemes and commas of every part of a
document, without blanks and line feeds. The text that is printed for a grammatical part has exactly
these glyphs.

* `Glyph.commas`, `Glyph.braces`: parts in brackets and braces.
* `Surroundings.valueGlyphs`, `Surroundings.selectionGlyphs`, `Surroundings.definitionGlyphs`: the
  glyphs of values, selections and definitions.
* `Written.value`, `Written.selection`, `Written.definition`: the printed texts have these glyphs.
-/

namespace EmbeddedGraphQL

namespace Glyph

/-- A punctuation mark. -/
abbrev mark (c : Char) : Glyph := .lexeme (.mark c)

/-- A name or keyword. -/
abbrev name (text : String) : Glyph := .lexeme (.name text)

/-- Parts between brackets, with a comma between two of them or behind each. -/
def commas (layout : Layout) (opening close : Char) (parts : List (List Glyph)) : List Glyph :=
  mark opening ::
    ((if layout.breaks then parts.flatMap (· ++ [.comma]) else List.intercalate [.comma] parts) ++
      [mark close])

/-- Parts between braces. -/
def braces (parts : List (List Glyph)) : List Glyph :=
  mark '\x7b' :: (parts.flatten ++ [mark '\x7d'])

/-- Names with a mark between two of them. -/
def namesBetween (c : Char) (names : List String) : List Glyph :=
  List.intercalate [mark c] (names.map fun text => [name text])

/-- A name, or nothing. -/
def nameIfAny : Option String → List Glyph
  | some text => [name text]
  | none => []

/-- The glyphs of the type condition of an inline fragment, or nothing. -/
def condition : Option String → List Glyph
  | some text => [name "on", name text]
  | none => []

/-- The glyphs of a type reference. -/
def typeRef : TypeRef → List Glyph
  | .named text required => name text :: (if required then [mark '!'] else [])
  | .list item required =>
    mark '[' :: (typeRef item ++ (mark ']' :: (if required then [mark '!'] else [])))

/-- The glyphs of the root types of a schema, type by type. -/
def rootTypes (roots : List (OperationKind × String)) : List (List Glyph) :=
  roots.map fun root => [name root.1.keyword, mark ':', name root.2]

/-- The glyphs of the interfaces that a type implements. -/
def interfaces (names : List String) : List Glyph :=
  if names.isEmpty then [] else name "implements" :: namesBetween '&' names

/-- The glyphs of the members of a union. -/
def unionMembers (names : List String) : List Glyph :=
  if names.isEmpty then [] else mark '=' :: namesBetween '|' names

/-- Parts between braces; nothing if there are none. -/
def body (parts : List (List Glyph)) : List Glyph := if parts.isEmpty then [] else braces parts

end Glyph

namespace Surroundings

open Glyph (mark name commas braces)

/-! ## Glyphs of the parts of a document -/

section Glyphs

variable (s : Surroundings)

/-- The glyph of a text. -/
def textGlyph (layout : Layout) (preferBlock : Bool) (text : String) : Glyph :=
  .lexeme (.string (s.reread layout preferBlock text))

mutual

/-- The glyphs of a value. -/
def valueGlyphs (layout : Layout) : Value → List Glyph
  | .null => [name "null"]
  | .boolean true => [name "true"]
  | .boolean false => [name "false"]
  | .enum text => [name text]
  | .int digits => [.lexeme (.int digits)]
  | .float digits => [.lexeme (.float digits)]
  | .string text => [s.textGlyph layout false text]
  | .var text _ => [mark '$', name text]
  | .list items => commas layout '[' ']' (itemGlyphs layout.inner items)
  | .object fields => commas layout '\x7b' '\x7d' (fieldGlyphs layout.inner fields)

/-- The glyphs of the items of a list, item by item. -/
def itemGlyphs (layout : Layout) : List Value → List (List Glyph)
  | [] => []
  | v :: rest => valueGlyphs layout v :: itemGlyphs layout rest

/-- The glyphs of the fields of an object, field by field. -/
def fieldGlyphs (layout : Layout) : List (String × Value) → List (List Glyph)
  | [] => []
  | (text, v) :: rest => (name text :: mark ':' :: valueGlyphs layout v) :: fieldGlyphs layout rest

end

/-- The glyphs of an argument. -/
def argumentGlyphs (a : Argument) : List Glyph :=
  name a.name :: mark ':' :: s.valueGlyphs .oneLine a.value

/-- The glyphs of arguments between parentheses. -/
def argumentsGlyphs (args : List Argument) : List Glyph :=
  if args.isEmpty then [] else commas .oneLine '(' ')' (args.map s.argumentGlyphs)

/-- The glyphs of a directive. -/
def directiveGlyphs (d : Directive) : List Glyph :=
  mark '@' :: name d.name :: s.argumentsGlyphs d.arguments

/-- The glyphs of directives. -/
def directivesGlyphs (ds : List Directive) : List Glyph := ds.flatMap s.directiveGlyphs

/-- The glyphs of a field without the selections under it. -/
def fieldHeadGlyphs (f : Field) : List Glyph :=
  (match f.aliasName with
    | some shown => [name shown, mark ':']
    | none => []) ++
    (name f.name :: (s.argumentsGlyphs f.arguments ++ s.directivesGlyphs f.directives))

/-- The glyphs of an inline fragment without the selections under it. -/
def inlineHeadGlyphs (f : InlineFragment) : List Glyph :=
  .lexeme .dots :: (Glyph.condition f.typeCondition ++ s.directivesGlyphs f.directives)

/-- The glyphs of a spread. -/
def spreadGlyphs (f : FragmentSpread) : List Glyph :=
  .lexeme .dots :: name f.name :: s.directivesGlyphs f.directives

mutual

/-- The glyphs of a selection. -/
def selectionGlyphs : Selection → List Glyph
  | .field f [] => s.fieldHeadGlyphs f
  | .field f (first :: rest) =>
    s.fieldHeadGlyphs f ++ braces (selectionGlyphs first :: selectionsGlyphs rest)
  | .inline f set => s.inlineHeadGlyphs f ++ braces (selectionsGlyphs set)
  | .spread f => s.spreadGlyphs f

/-- The glyphs of the entries of a selection set, entry by entry. -/
def selectionsGlyphs : List Selection → List (List Glyph)
  | [] => []
  | first :: rest => selectionGlyphs first :: selectionsGlyphs rest

end

/-- The glyphs of a selection set. -/
def setGlyphs (set : List Selection) : List Glyph := braces (s.selectionsGlyphs set)

/-- The glyphs of a default value. -/
def defaultGlyphs (layout : Layout) : Option Value → List Glyph
  | none => []
  | some v => mark '=' :: s.valueGlyphs layout v

/-- The glyphs of a variable definition. -/
def variableGlyphs (v : VariableDefinition) : List Glyph :=
  mark '$' :: name v.name :: mark ':' ::
    (Glyph.typeRef v.type ++ (s.defaultGlyphs .oneLine v.default ++
      s.directivesGlyphs v.directives))

/-- The glyphs of the variable definitions of an operation. -/
def variablesGlyphs (vs : List VariableDefinition) : List Glyph :=
  if vs.isEmpty then [] else commas .oneLine '(' ')' (vs.map s.variableGlyphs)

/-- Whether an operation is written without its keyword. -/
def isBare (isFirst : Bool) (o : Operation) : Bool :=
  isFirst && o.kind = .query && o.name.isNone && o.variableDefinitions.isEmpty &&
    o.directives.isEmpty

/-- The glyphs of an operation. -/
def operationGlyphs (isFirst : Bool) (o : Operation) : List Glyph :=
  if isBare isFirst o then s.setGlyphs o.selections
  else
    name o.kind.keyword ::
      (Glyph.nameIfAny o.name ++
        (s.variablesGlyphs o.variableDefinitions ++
          (s.directivesGlyphs o.directives ++ s.setGlyphs o.selections)))

/-- The glyphs of a fragment definition. -/
def fragmentGlyphs (f : Fragment) : List Glyph :=
  name "fragment" :: name f.name :: name "on" :: name f.typeCondition ::
    (s.directivesGlyphs f.directives ++ s.setGlyphs f.selections)

/-- The glyphs of a description. -/
def descriptionGlyphs (layout : Layout) : Option String → List Glyph
  | none => []
  | some text => [s.textGlyph layout true text]

/-- The glyphs of the declaration of an argument or input field. -/
def inputGlyphs (layout : Layout) (d : InputDeclaration) : List Glyph :=
  s.descriptionGlyphs layout d.description ++
    (name d.name :: mark ':' ::
      (Glyph.typeRef d.type ++ (s.defaultGlyphs layout d.default ++
        s.directivesGlyphs d.directives)))

/-- The layout of the declarations of arguments. -/
def argumentLayout (layout : Layout) (ds : List InputDeclaration) : Layout :=
  if ds.any fun d => d.description.isSome || !d.directives.isEmpty then layout else .oneLine

/-- The glyphs of the declarations of arguments. -/
def inputsGlyphs (layout : Layout) (ds : List InputDeclaration) : List Glyph :=
  if ds.isEmpty then []
  else commas (argumentLayout layout ds) '(' ')'
    (ds.map (s.inputGlyphs (argumentLayout layout ds).inner))

/-- The glyphs of the declaration of a field. -/
def fieldDeclarationGlyphs (layout : Layout) (d : FieldDeclaration) : List Glyph :=
  s.descriptionGlyphs layout d.description ++
    (name d.name :: (s.inputsGlyphs layout d.arguments ++
      (mark ':' :: (Glyph.typeRef d.type ++ s.directivesGlyphs d.directives))))

/-- The glyphs of the declaration of an enum value. -/
def enumGlyphs (layout : Layout) (d : EnumDeclaration) : List Glyph :=
  s.descriptionGlyphs layout d.description ++ (name d.name :: s.directivesGlyphs d.directives)

/-- The glyphs of the definition of a type, behind its keyword and its name. -/
def typeBodyGlyphs (layout : Layout) (t : TypeDeclaration) : List Glyph :=
  match t.body with
  | .scalar => s.directivesGlyphs t.directives
  | .object names fields =>
    Glyph.interfaces names ++ (s.directivesGlyphs t.directives ++
      Glyph.body (fields.map (s.fieldDeclarationGlyphs layout.inner)))
  | .interface names fields =>
    Glyph.interfaces names ++ (s.directivesGlyphs t.directives ++
      Glyph.body (fields.map (s.fieldDeclarationGlyphs layout.inner)))
  | .union members => s.directivesGlyphs t.directives ++ Glyph.unionMembers members
  | .enum values =>
    s.directivesGlyphs t.directives ++ Glyph.body (values.map (s.enumGlyphs layout.inner))
  | .inputObject fields =>
    s.directivesGlyphs t.directives ++ Glyph.body (fields.map (s.inputGlyphs layout.inner))

/-- The keyword of a type definition. -/
def typeKeyword : TypeBody → String
  | .scalar => "scalar"
  | .object _ _ => "type"
  | .interface _ _ => "interface"
  | .union _ => "union"
  | .enum _ => "enum"
  | .inputObject _ => "input"

/-- The glyphs of the definition of a type, or of what an extension adds to it. -/
def typeGlyphs (layout : Layout) (t : TypeDeclaration) : List Glyph :=
  name (typeKeyword t.body) :: name t.name :: s.typeBodyGlyphs layout t

/-- The glyphs of the definition of a directive. -/
def directiveDeclarationGlyphs (layout : Layout) (d : DirectiveDeclaration) : List Glyph :=
  name "directive" :: mark '@' :: name d.name ::
    (s.inputsGlyphs layout d.arguments ++
      ((if d.repeatable then [name "repeatable"] else []) ++
        (name "on" :: Glyph.namesBetween '|' d.locations)))

/-- The glyphs of a definition. -/
def definitionGlyphs (layout : Layout) (isFirst : Bool) : Definition → List Glyph
  | .operation o => s.operationGlyphs isFirst o
  | .fragment f => s.fragmentGlyphs f
  | .directive d directive _ =>
    s.descriptionGlyphs layout d ++ s.directiveDeclarationGlyphs layout directive
  | .schema d schema _ =>
    s.descriptionGlyphs layout d ++
      (name "schema" :: (s.directivesGlyphs schema.directives ++
        braces (Glyph.rootTypes schema.roots)))
  | .schemaExtension schema _ =>
    name "extend" :: name "schema" ::
      (s.directivesGlyphs schema.directives ++ Glyph.body (Glyph.rootTypes schema.roots))
  | .type d type _ => s.descriptionGlyphs layout d ++ s.typeGlyphs layout type
  | .typeExtension type _ => name "extend" :: s.typeGlyphs layout type

/-- The glyphs of the definitions of a document, the first of them as the first thing written. -/
def definitionsGlyphs (layout : Layout) : List Definition → List (List Glyph)
  | [] => []
  | first :: rest =>
    s.definitionGlyphs layout true first :: rest.map (s.definitionGlyphs layout false)

end Glyphs

/-! ## Texts in rows -/

variable {s : Surroundings} {α : Type}

/-- Parts behind separators. -/
theorem Written.row {sep first : List Char} {ks gs : List Glyph} {f : α → List Char}
    {g : α → List Glyph} (hsep : s.Leads sep ks) (hfree : isFree sep = true) (hne : sep ≠ [])
    (hfirst : s.Written first gs) {xs : List α}
    (h : ∀ x ∈ xs, s.Written (f x) (g x) ∧ g x ≠ []) :
    s.Written (first ++ xs.flatMap fun x => sep ++ f x) (gs ++ xs.flatMap fun x => ks ++ g x) := by
  induction xs generalizing first gs with
  | nil => simpa using hfirst
  | cons x xs ih =>
    obtain ⟨⟨hx, hgx⟩, hxs⟩ := List.forall_mem_cons.mp h
    have hstart : isFree (sep ++ f x) = true := by
      obtain ⟨c, tail, rfl⟩ := List.exists_cons_of_ne_nil hne
      exact hfree
    have hnext := ih (hfirst.append (hsep.written hx hgx) hstart) hxs
    simpa only [List.flatMap_cons, List.append_assoc] using hnext

/-- Parts with separators between them. -/
theorem Written.intercalate {sep : List Char} {ks : List Glyph} {f : α → List Char}
    {g : α → List Glyph} (hsep : s.Leads sep ks) (hfree : isFree sep = true) (hne : sep ≠ [])
    {xs : List α} (hxs : xs ≠ []) (h : ∀ x ∈ xs, s.Written (f x) (g x) ∧ g x ≠ []) :
    s.Written (List.intercalate sep (xs.map f)) (List.intercalate ks (xs.map g)) := by
  obtain ⟨x, rest, rfl⟩ := List.exists_cons_of_ne_nil hxs
  obtain ⟨⟨hx, -⟩, hrest⟩ := List.forall_mem_cons.mp h
  rw [List.map_cons, intercalate_cons_map, List.map_cons, intercalate_cons_map]
  exact .row hsep hfree hne hx hrest

/-- Parts of which none is empty make up a row that is not empty. -/
theorem intercalate_map_ne_nil (ks : List Glyph) {g : α → List Glyph} {xs : List α} (hxs : xs ≠ [])
    (h : ∀ x ∈ xs, g x ≠ []) : List.intercalate ks (xs.map g) ≠ [] := by
  obtain ⟨x, rest, rfl⟩ := List.exists_cons_of_ne_nil hxs
  rw [List.map_cons, intercalate_cons_map]
  simp [h x List.mem_cons_self]

/-- Texts that have their glyphs whatever follows, one after the other. -/
theorem Leads.flatMap {f : α → List Char} {g : α → List Glyph} {xs : List α}
    (h : ∀ x ∈ xs, s.Leads (f x) (g x)) : s.Leads (xs.flatMap f) (xs.flatMap g) := by
  induction xs with
  | nil => exact .nil
  | cons x xs ih =>
    obtain ⟨hx, hxs⟩ := List.forall_mem_cons.mp h
    exact hx.append (ih hxs)

/-- A gap may stand behind anything. -/
theorem isFree_gap (layout : Layout) : isFree layout.gap.toList = true := by
  cases layout with
  | oneLine => rfl
  | lines level => simp [Layout.gap, isFree, isNameContinue]

/-- The gap of a layout is never empty. -/
theorem gap_ne_nil (layout : Layout) : layout.gap.toList ≠ [] := by
  cases layout with
  | oneLine => simp [Layout.gap]
  | lines level => simp [Layout.gap]

/-- Parts between braces. -/
theorem Written.braces (layout : Layout) {f : α → String} {g : α → List Glyph} {xs : List α}
    (h : ∀ x ∈ xs, s.Written (f x).toList (g x) ∧ g x ≠ []) :
    s.Written (layout.braces (xs.map f)).toList (Glyph.braces (xs.map g)) := by
  have hopen : s.Leads ['\x7b'] [Glyph.mark '\x7b'] := .mark rfl
  have hclose : s.Written ['\x7d'] [Glyph.mark '\x7d'] := .mark rfl
  unfold Layout.braces
  cases xs with
  | nil =>
    have hall := hopen.written hclose (by simp)
    simpa [Glyph.braces] using hall
  | cons x xs =>
    -- Between the braces the parts stand with a gap before, between and behind them.
    have hparts := Written.intercalate (Leads.gap layout.inner) (isFree_gap _) (gap_ne_nil _)
      (List.cons_ne_nil x xs) h
    have hne := intercalate_map_ne_nil [] (List.cons_ne_nil x xs) fun y hy => (h y hy).2
    have hall := (((hopen.append (Leads.gap layout.inner)).written hparts hne).leads
      (Leads.gap layout) (isFree_gap _) (gap_ne_nil _)).written hclose (by simp)
    rw [if_neg (by simp)]
    simp only [String.toList_append, String.toList_intercalate, List.map_map]
    refine (congrArg (s.Written _) ?_).mp hall
    rw [List.map_cons, intercalate_cons_map, Glyph.braces]
    simp [List.flatten_eq_flatMap, List.flatMap_map]

/-- Parts between brackets. -/
theorem Written.commas (layout : Layout) {left right : String} {opening close : Char}
    (hleft : left.toList = [opening]) (hright : right.toList = [close])
    (hopening : Lexeme.isMark opening = true) (hclose : Lexeme.isMark close = true)
    {f : α → String} {g : α → List Glyph} {xs : List α}
    (h : ∀ x ∈ xs, s.Written (f x).toList (g x) ∧ g x ≠ []) :
    s.Written (layout.commas left right (xs.map f)).toList
      (Glyph.commas layout opening close (xs.map g)) := by
  have hopen : s.Leads [opening] [Glyph.mark opening] := .mark hopening
  have hend : s.Written [close] [Glyph.mark close] := .mark hclose
  -- No mark continues what stands in front of it.
  have hfree : isFree [close] = true := by
    simp only [Lexeme.isMark, decide_eq_true_eq, List.mem_cons, List.not_mem_nil, or_false]
      at hclose
    rcases hclose with rfl | rfl | rfl | rfl | rfl | rfl | rfl | rfl | rfl | rfl | rfl | rfl |
      rfl <;> rfl
  have hcomma : s.Leads ", ".toList [.comma] := Leads.comma.append Leads.space
  unfold Layout.commas Glyph.commas
  cases xs with
  | nil =>
    have hall := hopen.written hend (by simp)
    cases layout <;> simpa [hleft, hright] using hall
  | cons x xs =>
    rw [if_neg (by simp)]
    cases layout with
    | oneLine =>
      have hparts := Written.intercalate hcomma rfl (by simp) (List.cons_ne_nil x xs) h
      have hne := intercalate_map_ne_nil [Glyph.comma] (List.cons_ne_nil x xs)
        fun y hy => (h y hy).2
      have hall := (hopen.written hparts hne).append hend hfree
      simpa [Layout.breaks, String.toList_intercalate, Function.comp_def, hleft, hright] using hall
    | lines level =>
      -- On lines of its own every part has a comma behind it, the last one too.
      have hparts : s.Leads ((x :: xs).flatMap fun y =>
          (Layout.lines level).inner.gap.toList ++ (f y).toList ++ [','])
          ((x :: xs).flatMap fun y => g y ++ [.comma]) := by
        refine Leads.flatMap fun y hy => ?_
        exact ((Leads.gap _).written (h y hy).1 (h y hy).2).leads Leads.comma rfl (by simp)
      have hall := ((hopen.append hparts).append (Leads.gap (.lines level))).written hend (by simp)
      simpa [Layout.breaks, String.toList_join, List.flatMap_map, hleft, hright] using hall

/-- What stands between brackets may stand behind anything if the bracket may. -/
theorem isFree_commas (layout : Layout) {left : String} (right : String)
    (hfree : isFree left.toList = true) (hne : left.toList ≠ []) (parts : List String) :
    isFree (layout.commas left right parts).toList = true := by
  obtain ⟨c, tail, hchars⟩ := List.exists_cons_of_ne_nil hne
  have hhead : ∀ rest : String, isFree (left ++ rest).toList = true := by
    intro rest
    rw [String.toList_append, hchars]
    rwa [hchars] at hfree
  unfold Layout.commas
  split
  · exact hhead _
  · split
    · rw [String.append_assoc, String.append_assoc]
      exact hhead _
    · rw [String.append_assoc]
      exact hhead _

/-! ## Types, values and directives -/

/-- What marks a type as required is free. -/
theorem isFree_typeMark (required : Bool) : isFree (TypeRef.mark required).toList = true := by
  cases required <;> rfl

/-- The mark behind a type reference. -/
theorem Written.typeMark (required : Bool) :
    s.Written (TypeRef.mark required).toList (if required then [Glyph.mark '!'] else []) := by
  cases required with
  | true => exact .mark rfl
  | false => exact .nil

/-- A type reference is written with something. -/
theorem Glyph.typeRef_ne_nil (t : TypeRef) : Glyph.typeRef t ≠ [] := by
  cases t <;> simp [Glyph.typeRef]

/-- Type references, by their nesting. -/
theorem Written.typeRef {t : TypeRef} {depth : Nat} (h : t.Grammatical depth) :
    s.Written t.text.toList (Glyph.typeRef t) := by
  induction t generalizing depth with
  | named text required =>
    have hall := (Written.name h).append (Written.typeMark (s := s) required)
      (isFree_typeMark required)
    simpa [TypeRef.text, Glyph.typeRef] using hall
  | list item required ih =>
    have hopen : s.Leads ['['] [Glyph.mark '['] := .mark rfl
    have hclose : s.Written [']'] [Glyph.mark ']'] := .mark rfl
    have hall := ((hopen.written (ih h.2) (Glyph.typeRef_ne_nil item)).append hclose rfl).append
      (Written.typeMark required) (isFree_typeMark required)
    simpa [TypeRef.text, Glyph.typeRef] using hall

/-- Items are printed one by one. -/
theorem values_eq_map (layout : Layout) (items : List Value) :
    Printer.values layout items = items.map (Printer.value layout) := by
  induction items with
  | nil => rfl
  | cons v rest ih => rw [Printer.values, ih, List.map_cons]

/-- The fields of an object are printed one by one, each behind its name and a colon. -/
theorem objectFields_eq_map (layout : Layout) (fields : List (String × Value)) :
    Printer.objectFields layout fields =
      fields.map fun p => p.1 ++ ": " ++ Printer.value layout p.2 := by
  induction fields with
  | nil => rfl
  | cons p rest ih => rw [Printer.objectFields, ih, List.map_cons]

/-- The glyphs of the items of a list are those of each. -/
theorem itemGlyphs_eq_map (layout : Layout) (items : List Value) :
    s.itemGlyphs layout items = items.map (s.valueGlyphs layout) := by
  induction items with
  | nil => rfl
  | cons v rest ih => rw [itemGlyphs, ih, List.map_cons]

/-- The glyphs of the fields of an object are a name, a colon and the value of each. -/
theorem fieldGlyphs_eq_map (layout : Layout) (fields : List (String × Value)) :
    s.fieldGlyphs layout fields =
      fields.map fun p => Glyph.name p.1 :: Glyph.mark ':' :: s.valueGlyphs layout p.2 := by
  induction fields with
  | nil => rfl
  | cons p rest ih => rw [fieldGlyphs, ih, List.map_cons]

/-- A value is written with something. -/
theorem valueGlyphs_ne_nil (layout : Layout) (v : Value) : s.valueGlyphs layout v ≠ [] := by
  cases v with
  | boolean b => cases b <;> simp [valueGlyphs]
  | _ => simp [valueGlyphs, Glyph.commas]

/-- A colon and a blank behind a name. -/
theorem Leads.named {text : String} (h : isName text = true) :
    s.Leads (text.toList ++ ": ".toList) [Glyph.name text, Glyph.mark ':'] :=
  (Written.name h).leads ((Leads.mark rfl).append Leads.space) rfl (by simp)

mutual

/-- A printed value has its glyphs. -/
theorem Written.value (layout : Layout) {const : Bool} {depth : Nat} :
    (v : Value) → v.Grammatical const depth →
      s.Written (Printer.value layout v).toList (s.valueGlyphs layout v)
  | .null, _ => Written.word "null" (by decide)
  | .boolean true, _ => Written.word "true" (by decide)
  | .boolean false, _ => Written.word "false" (by decide)
  | .enum _, h => .name h.1
  | .int _, h => .number h
  | .float _, h => .number h
  | .string text, _ => .text layout false text
  | .var _ _, h => by
    have hdollar : s.Leads ['$'] [Glyph.mark '$'] := .mark rfl
    simpa [Printer.value, valueGlyphs] using hdollar.written (Written.name h.2) (by simp)
  | .list items, h => by
    rw [Printer.value, valueGlyphs, values_eq_map, itemGlyphs_eq_map]
    refine Written.commas layout rfl rfl rfl rfl fun v hv => ?_
    exact ⟨writtenItems layout.inner items h v hv, valueGlyphs_ne_nil _ v⟩
  | .object fields, h => by
    rw [Printer.value, valueGlyphs, objectFields_eq_map, fieldGlyphs_eq_map]
    refine Written.commas layout rfl rfl rfl rfl fun p hp => ⟨?_, by simp⟩
    obtain ⟨hname, hvalue⟩ := writtenFields layout.inner fields h p hp
    have hall := (Leads.named hname).written hvalue (valueGlyphs_ne_nil _ _)
    simpa using hall

/-- The items of a list have their glyphs. -/
theorem writtenItems (layout : Layout) {const : Bool} {depth : Nat} :
    (items : List Value) → Value.GrammaticalItems const depth items → ∀ v ∈ items,
      s.Written (Printer.value layout v).toList (s.valueGlyphs layout v)
  | [], _ => by simp
  | v :: rest, h =>
    List.forall_mem_cons.mpr ⟨Written.value layout v h.1.2, writtenItems layout rest h.2⟩

/-- The fields of an object have their glyphs. -/
theorem writtenFields (layout : Layout) {const : Bool} {depth : Nat} :
    (fields : List (String × Value)) → Value.GrammaticalFields const depth fields → ∀ p ∈ fields,
      isName p.1 = true ∧
        s.Written (Printer.value layout p.2).toList (s.valueGlyphs layout p.2)
  | [], _ => by simp
  | (_, v) :: rest, h =>
    List.forall_mem_cons.mpr ⟨⟨h.1.1, Written.value layout v h.1.2.2⟩, writtenFields layout rest h.2⟩

end

/-- An argument: a name, a colon and a value. -/
theorem Written.argument {const : Bool} {depth : Nat} {a : Argument}
    (h : a.Grammatical const depth) :
    s.Written (a.name ++ ": " ++ Printer.value .oneLine a.value).toList (s.argumentGlyphs a) := by
  have hall := (Leads.named h.name).written (Written.value .oneLine a.value h.value)
    (valueGlyphs_ne_nil (s := s) _ _)
  simpa [argumentGlyphs] using hall

/-- Arguments may stand behind anything: they start with a parenthesis. -/
theorem isFree_arguments (args : List Argument) :
    isFree (Printer.arguments args).toList = true := by
  unfold Printer.arguments
  split
  · rfl
  · exact isFree_commas _ _ rfl (by simp) _

/-- Arguments between parentheses, or none. -/
theorem Written.arguments {const : Bool} {depth : Nat} {args : List Argument}
    (h : ∀ a ∈ args, a.Grammatical const depth) :
    s.Written (Printer.arguments args).toList (s.argumentsGlyphs args) := by
  unfold Printer.arguments argumentsGlyphs
  split
  · exact .nil
  · refine Written.commas .oneLine rfl rfl rfl rfl fun a ha => ?_
    exact ⟨.argument (h a ha), by simp [argumentGlyphs]⟩

/-- A directive: a mark, a name and arguments. -/
theorem Written.directive {const : Bool} {depth : Nat} {d : Directive}
    (h : d.Grammatical const depth) :
    s.Written (Printer.directive d).toList (s.directiveGlyphs d) := by
  have hat : s.Leads ['@'] [Glyph.mark '@'] := .mark rfl
  have hall := (hat.written (Written.name h.name) (by simp)).append (Written.arguments h.arguments)
    (isFree_arguments _)
  simpa [Printer.directive, directiveGlyphs] using hall

/-- Directives may stand behind anything: they start with a blank. -/
theorem isFree_directives (ds : List Directive) :
    isFree (Printer.directives ds).toList = true := by
  cases ds with
  | nil => rfl
  | cons d ds => simp [Printer.directives, isFree, isNameContinue]

/-- Directives, one behind the other. -/
theorem Written.directives {const : Bool} {depth : Nat} {ds : List Directive}
    (h : ∀ d ∈ ds, d.Grammatical const depth) :
    s.Written (Printer.directives ds).toList (s.directivesGlyphs ds) := by
  have hall := Written.row Leads.space rfl (by simp) (Written.nil (s := s)) fun d hd =>
    ⟨Written.directive (h d hd), by simp [directiveGlyphs]⟩
  simpa [Printer.directives, directivesGlyphs, String.toList_join, List.flatMap_map] using hall

/-! ## Selections -/

/-- A field without the selections under it. -/
theorem Written.fieldHead {depth : Nat} {f : Field} (h : f.Grammatical depth) :
    s.Written (Printer.fieldHead f).toList (s.fieldHeadGlyphs f) := by
  have htail : s.Written (f.name.toList ++ (Printer.arguments f.arguments).toList ++
      (Printer.directives f.directives).toList)
      (Glyph.name f.name ::
        (s.argumentsGlyphs f.arguments ++ s.directivesGlyphs f.directives)) := by
    have hname := Written.name (s := s) h.name
    have hall := (hname.append (Written.arguments h.arguments) (isFree_arguments _)).append
      (Written.directives h.directives) (isFree_directives _)
    simpa using hall
  unfold Printer.fieldHead fieldHeadGlyphs
  cases hshown : f.aliasName with
  | none => simpa using htail
  | some shown =>
    have hall := (Leads.named (h.aliasName shown hshown)).written htail (by simp)
    simpa using hall

/-- An inline fragment without the selections under it. -/
theorem Written.inlineHead {depth : Nat} {f : InlineFragment} (h : f.Grammatical depth) :
    s.Written (Printer.inlineHead f).toList (s.inlineHeadGlyphs f) := by
  have hdots : s.Written ['.', '.', '.'] [.lexeme .dots] := by
    refine Leads.dots.toWritten fun c hc => ?_
    cases hc
    decide
  unfold Printer.inlineHead inlineHeadGlyphs
  cases hcondition : f.typeCondition with
  | none =>
    have hall := hdots.append (Written.directives h.directives) (isFree_directives _)
    simpa [Glyph.condition] using hall
  | some condition =>
    have hon : s.Leads " on ".toList [Glyph.name "on"] :=
      Leads.space.append (Leads.word "on" (by decide))
    have hname := Written.name (s := s) (h.typeCondition condition hcondition)
    have hall := ((hdots.leads hon rfl (by simp)).written hname (by simp)).append
      (Written.directives h.directives) (isFree_directives _)
    simpa [Glyph.condition] using hall

/-- A spread. -/
theorem Written.spread {depth : Nat} {f : FragmentSpread} (h : f.Grammatical depth) :
    s.Written (Printer.spread f).toList (s.spreadGlyphs f) := by
  have hname := Written.name (s := s) h.name
  have hall := (Leads.dots.written hname (by simp)).append (Written.directives h.directives)
    (isFree_directives _)
  simpa [Printer.spread, spreadGlyphs] using hall

/-- Selections are printed one by one. -/
theorem selections_eq_map (layout : Layout) (set : List Selection) :
    Printer.selections layout set = set.map (Printer.selection layout) := by
  induction set with
  | nil => rfl
  | cons first rest ih => rw [Printer.selections, ih, List.map_cons]

/-- The glyphs of selections are those of each. -/
theorem selectionsGlyphs_eq_map (set : List Selection) :
    s.selectionsGlyphs set = set.map s.selectionGlyphs := by
  induction set with
  | nil => rfl
  | cons first rest ih => rw [selectionsGlyphs, ih, List.map_cons]

/-- A field has at least one glyph in front of its set. -/
theorem fieldHeadGlyphs_ne_nil (f : Field) : s.fieldHeadGlyphs f ≠ [] := by
  simp [fieldHeadGlyphs]

/-- A selection is written with something. -/
theorem selectionGlyphs_ne_nil (selection : Selection) : s.selectionGlyphs selection ≠ [] := by
  cases selection with
  | field f set =>
    cases set <;> simp [selectionGlyphs, fieldHeadGlyphs_ne_nil]
  | inline f set => simp [selectionGlyphs, inlineHeadGlyphs]
  | spread f => simp [selectionGlyphs, spreadGlyphs]

mutual

/-- A printed selection has its glyphs. -/
theorem Written.selection (layout : Layout) {depth : Nat} :
    (selection : Selection) → selection.Grammatical depth →
      s.Written (Printer.selection layout selection).toList (s.selectionGlyphs selection)
  | .field _ [], h => Written.fieldHead h.1
  | .field f (first :: rest), h => by
    have hset := Written.braces layout fun x hx =>
      ⟨writtenSelections layout.inner (first :: rest) h.2 x hx, selectionGlyphs_ne_nil (s := s) x⟩
    have hall := ((Written.fieldHead h.1).leads Leads.space rfl (by simp)).written hset
      (by simp [Glyph.braces])
    simpa [Printer.selection, selectionGlyphs, selections_eq_map, selectionsGlyphs_eq_map]
      using hall
  | .inline f set, h => by
    have hset := Written.braces layout fun x hx =>
      ⟨writtenSelections layout.inner set h.2.2 x hx, selectionGlyphs_ne_nil (s := s) x⟩
    have hall := ((Written.inlineHead h.1).leads Leads.space rfl (by simp)).written hset
      (by simp [Glyph.braces])
    simpa [Printer.selection, selectionGlyphs, selections_eq_map, selectionsGlyphs_eq_map]
      using hall
  | .spread _, h => Written.spread h

/-- The entries of a selection set have their glyphs. -/
theorem writtenSelections (layout : Layout) {depth : Nat} :
    (set : List Selection) → Selection.GrammaticalSet depth set → ∀ x ∈ set,
      s.Written (Printer.selection layout x).toList (s.selectionGlyphs x)
  | [], _ => by simp
  | first :: rest, h =>
    List.forall_mem_cons.mpr
      ⟨Written.selection layout first h.1.2, writtenSelections layout rest h.2⟩

end

/-- A selection set between braces. -/
theorem Written.selectionSet (layout : Layout) {depth : Nat} {set : List Selection}
    (h : Selection.GrammaticalSet depth set) :
    s.Written (Printer.selectionSet layout set).toList (s.setGlyphs set) := by
  rw [Printer.selectionSet, setGlyphs, selections_eq_map, selectionsGlyphs_eq_map]
  exact .braces layout fun x hx =>
    ⟨writtenSelections layout.inner set h x hx, selectionGlyphs_ne_nil x⟩

/-! ## Operations and fragments -/

/-- The value behind an equals sign, or none. -/
theorem Written.default (layout : Layout) {default : Option Value} {const : Bool} {depth : Nat}
    (h : ∀ v ∈ default, v.Grammatical const depth) :
    s.Written (Printer.default layout default).toList (s.defaultGlyphs layout default) := by
  cases default with
  | none => exact .nil
  | some v =>
    have hequals : s.Leads " = ".toList [Glyph.mark '='] :=
      Leads.space.append ((Leads.mark rfl).append Leads.space)
    have hall := hequals.written (Written.value layout v (h v rfl)) (valueGlyphs_ne_nil _ v)
    simpa [Printer.default, defaultGlyphs] using hall

/-- A default value may stand behind anything: it starts with a blank. -/
theorem isFree_default (layout : Layout) (default : Option Value) :
    isFree (Printer.default layout default).toList = true := by
  cases default with
  | none => rfl
  | some v => simp [Printer.default, isFree, isNameContinue]

/-- A variable definition. -/
theorem Written.variableDefinition {v : VariableDefinition} (h : v.Grammatical) :
    s.Written (Printer.variableDefinition v).toList (s.variableGlyphs v) := by
  have hdollar : s.Leads ['$'] [Glyph.mark '$'] := .mark rfl
  have htype := Written.typeRef (s := s) h.type
  have hall := (((hdollar.append (Leads.named h.name)).written htype
    (Glyph.typeRef_ne_nil v.type)).append (Written.default .oneLine h.default)
    (isFree_default _ _)).append (Written.directives h.directives) (isFree_directives _)
  simpa [Printer.variableDefinition, variableGlyphs] using hall

/-- The variable definitions of an operation, or none. -/
theorem Written.variableDefinitions {vs : List VariableDefinition} (h : ∀ v ∈ vs, v.Grammatical) :
    s.Written (if vs.isEmpty then "" else Layout.oneLine.commas "(" ")"
      (vs.map Printer.variableDefinition)).toList (s.variablesGlyphs vs) := by
  unfold variablesGlyphs
  split
  · exact .nil
  · refine Written.commas .oneLine rfl rfl rfl rfl fun v hv => ?_
    exact ⟨.variableDefinition (h v hv), by simp [variableGlyphs]⟩

/-- Variable definitions may stand behind anything: they start with a parenthesis. -/
theorem isFree_variableDefinitions (vs : List VariableDefinition) :
    isFree (if vs.isEmpty then "" else Layout.oneLine.commas "(" ")"
      (vs.map Printer.variableDefinition)).toList = true := by
  split
  · rfl
  · exact isFree_commas _ _ rfl (by simp) _

/-- The keyword of an operation is a name. -/
theorem isName_keyword (kind : OperationKind) : isName kind.keyword = true := by
  cases kind <;> decide

/-- An operation is printed as its selection set alone, or with its keyword and all its parts. -/
theorem operation_eq (layout : Layout) (isFirst : Bool) (o : Operation) :
    Printer.operation layout isFirst o =
      if isBare isFirst o then Printer.selectionSet layout o.selections
      else
        o.kind.keyword ++ (match o.name with
          | some text => " " ++ text
          | none => "") ++
          (if o.variableDefinitions.isEmpty then ""
            else Layout.oneLine.commas "(" ")"
              (o.variableDefinitions.map Printer.variableDefinition)) ++
          Printer.directives o.directives ++ " " ++ Printer.selectionSet layout o.selections :=
  rfl

/-- Operations, bare or with a keyword. -/
theorem Written.operation (layout : Layout) (isFirst : Bool) {o : Operation} (h : o.Grammatical) :
    s.Written (Printer.operation layout isFirst o).toList (s.operationGlyphs isFirst o) := by
  have hset := Written.selectionSet (s := s) layout h.selections
  have hds := Written.directives (s := s) h.directives
  have hvs := Written.variableDefinitions (s := s) h.variableDefinitions
  have hname : s.Written (match o.name with
      | some text => " " ++ text
      | none => "").toList (Glyph.nameIfAny o.name) := by
    cases hname : o.name with
    | none => exact .nil
    | some text =>
      -- The long form, part by part; whether it is the one that is printed is decided at the end.
      have hall := Leads.space.written (Written.name (s := s) (h.name text hname)) (by simp)
      simpa [Glyph.nameIfAny] using hall
  have hfree : isFree (match o.name with
      | some text => " " ++ text
      | none => "").toList = true := by
    cases o.name with
    | none => rfl
    | some text => simp [isFree, isNameContinue]
  have hall := (((((Written.name (s := s) (isName_keyword o.kind)).append hname hfree).append hvs
    (isFree_variableDefinitions _)).append hds (isFree_directives _)).leads Leads.space rfl
      (by simp)).written hset (by simp [setGlyphs, Glyph.braces])
  rw [operation_eq, operationGlyphs]
  by_cases hbare : isBare isFirst o = true
  · rw [if_pos hbare, if_pos hbare]
    exact hset
  · rw [if_neg hbare, if_neg hbare]
    simpa using hall

/-- A fragment definition. -/
theorem Written.fragment (layout : Layout) {f : Fragment} (h : f.Grammatical) :
    s.Written (Printer.fragment layout f).toList (s.fragmentGlyphs f) := by
  have hset := Written.selectionSet (s := s) layout h.selections
  have hfragment : s.Leads "fragment ".toList [Glyph.name "fragment"] :=
    Leads.word "fragment" (by decide)
  have hon : s.Leads " on ".toList [Glyph.name "on"] :=
    Leads.space.append (Leads.word "on" (by decide))
  have hhead := ((hfragment.written (Written.name h.name) (by simp)).leads hon rfl
    (by simp)).written (Written.name h.typeCondition) (by simp)
  have hall := ((hhead.append (Written.directives h.directives) (isFree_directives _)).leads
    Leads.space rfl (by simp)).written hset (by simp [setGlyphs, Glyph.braces])
  simpa [Printer.fragment, fragmentGlyphs] using hall

/-! ## Types, directives and schemas -/

/-- A description has its glyphs, whatever it describes. -/
theorem Leads.description (layout : Layout) (description : Option String) :
    s.Leads (Printer.description layout description).toList
      (s.descriptionGlyphs layout description) := by
  cases description with
  | none => exact .nil
  | some text =>
    have hall := (Written.text (s := s) layout true text).leads (Leads.gap layout)
      (isFree_gap layout) (gap_ne_nil layout)
    simpa [Printer.description, descriptionGlyphs, textGlyph] using hall

/-- The declaration of an argument or input field. -/
theorem Written.inputDeclaration (layout : Layout) {d : InputDeclaration} (h : d.Grammatical) :
    s.Written (Printer.inputDeclaration layout d).toList (s.inputGlyphs layout d) := by
  have hlead := (Leads.description (s := s) layout d.description).append (Leads.named h.name)
  have hall := ((hlead.written (Written.typeRef h.type) (Glyph.typeRef_ne_nil d.type)).append
    (Written.default layout h.default) (isFree_default _ _)).append
    (Written.directives h.directives) (isFree_directives _)
  simpa [Printer.inputDeclaration, inputGlyphs] using hall

/-- The declarations of the arguments of a field, or none. -/
theorem Written.argumentDeclarations (layout : Layout) {ds : List InputDeclaration}
    (h : ∀ d ∈ ds, d.Grammatical) :
    s.Written (Printer.argumentDeclarations layout ds).toList (s.inputsGlyphs layout ds) := by
  unfold Printer.argumentDeclarations inputsGlyphs
  split
  · exact .nil
  · refine Written.commas (argumentLayout layout ds) rfl rfl rfl rfl fun d hd => ?_
    exact ⟨.inputDeclaration _ (h d hd), by simp [inputGlyphs]⟩

/-- Declarations of arguments may stand behind anything: they start with a parenthesis. -/
theorem isFree_argumentDeclarations (layout : Layout) (ds : List InputDeclaration) :
    isFree (Printer.argumentDeclarations layout ds).toList = true := by
  unfold Printer.argumentDeclarations
  split
  · rfl
  · exact isFree_commas _ _ rfl (by simp) _

/-- The declaration of a field. -/
theorem Written.fieldDeclaration (layout : Layout) {d : FieldDeclaration} (h : d.Grammatical) :
    s.Written (Printer.fieldDeclaration layout d).toList (s.fieldDeclarationGlyphs layout d) := by
  have hcolon : s.Leads ": ".toList [Glyph.mark ':'] := (Leads.mark rfl).append Leads.space
  have hname := (Leads.description (s := s) layout d.description).written (Written.name h.name)
    (by simp)
  have hall := (((hname.append (Written.argumentDeclarations layout h.arguments)
    (isFree_argumentDeclarations _ _)).leads hcolon rfl (by simp)).written
    (Written.typeRef h.type) (Glyph.typeRef_ne_nil d.type)).append
    (Written.directives h.directives) (isFree_directives _)
  simpa [Printer.fieldDeclaration, fieldDeclarationGlyphs] using hall

/-- The declaration of an enum value. -/
theorem Written.enumDeclaration (layout : Layout) {d : EnumDeclaration} (h : d.Grammatical) :
    s.Written (Printer.enumDeclaration layout d).toList (s.enumGlyphs layout d) := by
  have hname := (Leads.description (s := s) layout d.description).written (Written.name h.name)
    (by simp)
  have hall := hname.append (Written.directives h.directives) (isFree_directives _)
  simpa [Printer.enumDeclaration, enumGlyphs] using hall

/-- Parts between braces behind a blank, or none. -/
theorem Written.body (layout : Layout) {f : α → String} {g : α → List Glyph} {xs : List α}
    (h : ∀ x ∈ xs, s.Written (f x).toList (g x) ∧ g x ≠ []) :
    s.Written (Printer.body layout (xs.map f)).toList (Glyph.body (xs.map g)) := by
  unfold Printer.body Glyph.body
  cases xs with
  | nil => exact .nil
  | cons x xs =>
    have hall := Leads.space.written (Written.braces layout h) (by simp [Glyph.braces])
    simpa using hall

/-- A body may stand behind anything: it starts with a blank. -/
theorem isFree_body (layout : Layout) (parts : List String) :
    isFree (Printer.body layout parts).toList = true := by
  unfold Printer.body
  split
  · rfl
  · simp [isFree, isNameContinue]

/-- Names with a mark between blanks between two of them. -/
theorem Written.namesBetween (sep : String) {c : Char} (hsep : sep.toList = [' ', c, ' '])
    (hc : Lexeme.isMark c = true) {names : List String} (hne : names ≠ [])
    (h : ∀ n ∈ names, isName n = true) :
    s.Written (sep.intercalate names).toList (Glyph.namesBetween c names) := by
  have hlead : s.Leads [' ', c, ' '] [Glyph.mark c] :=
    Leads.space.append ((Leads.mark hc).append Leads.space)
  have hall := Written.intercalate hlead rfl (by simp) hne fun n hn =>
    ⟨Written.name (s := s) (h n hn), by simp⟩
  rw [String.toList_intercalate, hsep]
  exact hall

/-- Names with a mark between them have at least one glyph. -/
theorem namesBetween_ne_nil {c : Char} {names : List String} (hne : names ≠ []) :
    Glyph.namesBetween c names ≠ [] :=
  intercalate_map_ne_nil _ hne fun _ _ => by simp

/-- The interfaces of a type, or none. -/
theorem Written.interfaces {names : List String} (h : ∀ n ∈ names, isName n = true) :
    s.Written (Printer.interfaces names).toList (Glyph.interfaces names) := by
  unfold Printer.interfaces Glyph.interfaces
  split
  · exact .nil
  · rename_i hnames
    have hne : names ≠ [] := by simpa using hnames
    have hword : s.Leads " implements ".toList [Glyph.name "implements"] :=
      Leads.space.append (Leads.word "implements" (by decide))
    have hall := hword.written (Written.namesBetween " & " rfl rfl hne h)
      (namesBetween_ne_nil hne)
    rw [String.toList_append]
    exact hall

/-- The interfaces of a type may stand behind anything: they start with a blank. -/
theorem isFree_interfaces (names : List String) :
    isFree (Printer.interfaces names).toList = true := by
  unfold Printer.interfaces
  split
  · rfl
  · simp [isFree, isNameContinue]

/-- The members of a union, or none. -/
theorem Written.unionMembers {names : List String} (h : ∀ n ∈ names, isName n = true) :
    s.Written (if names.isEmpty then "" else " = " ++ " | ".intercalate names).toList
      (Glyph.unionMembers names) := by
  unfold Glyph.unionMembers
  split
  · exact .nil
  · rename_i hnames
    have hne : names ≠ [] := by simpa using hnames
    have hequals : s.Leads " = ".toList [Glyph.mark '='] :=
      Leads.space.append ((Leads.mark rfl).append Leads.space)
    have hall := hequals.written (Written.namesBetween " | " rfl rfl hne h)
      (namesBetween_ne_nil hne)
    rw [String.toList_append]
    exact hall

/-- The members of a union may stand behind anything: they start with a blank. -/
theorem isFree_unionMembers (names : List String) :
    isFree (if names.isEmpty then "" else " = " ++ " | ".intercalate names).toList = true := by
  split
  · rfl
  · simp [isFree, isNameContinue]

section Parts

variable {text : List Char} {gs : List Glyph} (h : s.Written text gs)

include h

/-- Directives and parts between braces behind a text. -/
theorem Written.annotated (layout : Layout) {ds : List Directive}
    (hds : ∀ d ∈ ds, d.Grammatical true Grammar.maxDepth) {f : α → String} {g : α → List Glyph}
    {xs : List α} (hxs : ∀ x ∈ xs, s.Written (f x).toList (g x) ∧ g x ≠ []) :
    s.Written (text ++ (Printer.directives ds).toList ++ (Printer.body layout (xs.map f)).toList)
      (gs ++ s.directivesGlyphs ds ++ Glyph.body (xs.map g)) :=
  (h.append (Written.directives hds) (isFree_directives _)).append (Written.body layout hxs)
    (isFree_body _ _)

/-- Interfaces, directives and fields behind a text. -/
theorem Written.fielded (layout : Layout) {names : List String}
    (hnames : ∀ n ∈ names, isName n = true) {ds : List Directive}
    (hds : ∀ d ∈ ds, d.Grammatical true Grammar.maxDepth) {fields : List FieldDeclaration}
    (hfields : ∀ f ∈ fields, f.Grammatical) :
    s.Written (text ++ (Printer.interfaces names).toList ++ (Printer.directives ds).toList ++
        (Printer.body layout (fields.map (Printer.fieldDeclaration layout.inner))).toList)
      (gs ++ Glyph.interfaces names ++ s.directivesGlyphs ds ++
        Glyph.body (fields.map (s.fieldDeclarationGlyphs layout.inner))) :=
  (h.append (Written.interfaces hnames) (isFree_interfaces _)).annotated layout hds fun f hf =>
    ⟨Written.fieldDeclaration layout.inner (hfields f hf), by simp [fieldDeclarationGlyphs]⟩

end Parts

/-- The definition of a type, whatever its kind. -/
theorem Written.typeDeclaration (layout : Layout) {t : TypeDeclaration} (h : t.Grammatical) :
    s.Written (Printer.typeDeclaration layout t).toList (s.typeGlyphs layout t) := by
  obtain ⟨name, ds, body⟩ := t
  have hword (word : String) (hword : isName word = true) :
      s.Written (word.toList ++ [' '] ++ name.toList) [Glyph.name word, Glyph.name name] :=
    (Leads.word word hword).written (Written.name h.name) (by simp)
  -- Name and directives are common to all types; what is between them is not.
  cases body with
  | scalar =>
    have hall := (hword "scalar" (by decide)).append (Written.directives h.directives)
      (isFree_directives _)
    simpa [Printer.typeDeclaration, typeGlyphs, typeBodyGlyphs, typeKeyword] using hall
  | object names fields =>
    have hall := (hword "type" (by decide)).fielded layout h.body.1 h.directives h.body.2
    simpa [Printer.typeDeclaration, typeGlyphs, typeBodyGlyphs, typeKeyword] using hall
  | interface names fields =>
    have hall := (hword "interface" (by decide)).fielded layout h.body.1 h.directives h.body.2
    simpa [Printer.typeDeclaration, typeGlyphs, typeBodyGlyphs, typeKeyword] using hall
  | union members =>
    have hall := ((hword "union" (by decide)).append (Written.directives h.directives)
      (isFree_directives _)).append (Written.unionMembers h.body) (isFree_unionMembers _)
    simpa [Printer.typeDeclaration, typeGlyphs, typeBodyGlyphs, typeKeyword] using hall
  | enum values =>
    have hall := (hword "enum" (by decide)).annotated layout h.directives fun v hv =>
      ⟨Written.enumDeclaration layout.inner (h.body v hv), by simp [enumGlyphs]⟩
    simpa [Printer.typeDeclaration, typeGlyphs, typeBodyGlyphs, typeKeyword] using hall
  | inputObject fields =>
    have hall := (hword "input" (by decide)).annotated layout h.directives fun f hf =>
      ⟨Written.inputDeclaration layout.inner (h.body f hf), by simp [inputGlyphs]⟩
    simpa [Printer.typeDeclaration, typeGlyphs, typeBodyGlyphs, typeKeyword] using hall

/-- The places where a directive may stand have names. -/
theorem isName_directiveLocation {location : String} (h : location ∈ Grammar.directiveLocations) :
    isName location = true := by
  have hall : ∀ l ∈ Grammar.directiveLocations, isName l = true := by decide
  exact hall location h

/-- The definition of a directive. -/
theorem Written.directiveDeclaration (layout : Layout) {d : DirectiveDeclaration}
    (h : d.Grammatical) :
    s.Written (Printer.directiveDeclaration layout d).toList
      (s.directiveDeclarationGlyphs layout d) := by
  have hword : s.Leads "directive @".toList [Glyph.name "directive", Glyph.mark '@'] :=
    (Leads.word "directive" (by decide)).append (Leads.mark rfl)
  have hon : s.Leads " on ".toList [Glyph.name "on"] :=
    Leads.space.append (Leads.word "on" (by decide))
  have hrepeatable : s.Written (if d.repeatable then " repeatable" else "").toList
      (if d.repeatable then [Glyph.name "repeatable"] else []) := by
    split
    · exact Leads.space.written (Written.word "repeatable" (by decide)) (by simp)
    · exact .nil
  have hfree : isFree (if d.repeatable then " repeatable" else "").toList = true := by
    split <;> rfl
  have hlocations := Written.namesBetween (s := s) " | " (c := '|') rfl rfl h.nonempty
    fun l hl => isName_directiveLocation (h.locations l hl)
  -- What follows the name and the arguments starts with a blank or a parenthesis.
  have hall := ((((hword.written (Written.name h.name) (by simp)).append
    (Written.argumentDeclarations layout h.arguments) (isFree_argumentDeclarations _ _)).append
    hrepeatable hfree).leads hon rfl (by simp)).written hlocations
    (namesBetween_ne_nil h.nonempty)
  simpa only [Printer.directiveDeclaration, directiveDeclarationGlyphs, String.toList_append,
    List.append_assoc, List.cons_append, List.nil_append] using hall

/-- A root type: a keyword, a colon and a name. -/
theorem Written.rootType {root : OperationKind × String} (h : isName root.2 = true) :
    s.Written (root.1.keyword ++ ": " ++ root.2).toList
      [Glyph.name root.1.keyword, Glyph.mark ':', Glyph.name root.2] := by
  have hall := (Leads.named (isName_keyword root.1)).written (Written.name (s := s) h) (by simp)
  simpa using hall

/-- A definition is written with something. -/
theorem definitionGlyphs_ne_nil (layout : Layout) (isFirst : Bool) (d : Definition) :
    s.definitionGlyphs layout isFirst d ≠ [] := by
  cases d with
  | operation o =>
    rw [definitionGlyphs, operationGlyphs]
    split <;> simp [setGlyphs, Glyph.braces]
  | _ => simp [definitionGlyphs, fragmentGlyphs, directiveDeclarationGlyphs, typeGlyphs]

/-- A printed definition has its glyphs. -/
theorem Written.definition (layout : Layout) (isFirst : Bool) {d : Definition}
    (h : d.Grammatical) :
    s.Written (Printer.definition layout isFirst d).toList
      (s.definitionGlyphs layout isFirst d) := by
  have hextend : s.Leads "extend ".toList [Glyph.name "extend"] :=
    Leads.word "extend" (by decide)
  -- A description leads to the keyword, and so does the word that extends.
  cases d with
  | operation o => exact .operation layout isFirst h
  | fragment f => exact .fragment layout h
  | directive description directive span =>
    have hall := (Leads.description (s := s) layout description).written
      (Written.directiveDeclaration layout h) (by simp [directiveDeclarationGlyphs])
    simpa [Printer.definition, definitionGlyphs] using hall
  | schema description schema span =>
    have hroots := Written.braces layout fun root hroot =>
      ⟨Written.rootType (s := s) (h.roots root hroot), by simp⟩
    have hschema := (Leads.description (s := s) layout description).written
      (Written.word "schema" (by decide)) (by simp)
    have hall := ((hschema.append (Written.directives h.directives) (isFree_directives _)).leads
      Leads.space rfl (by simp)).written hroots (by simp [Glyph.braces])
    simpa [Printer.definition, definitionGlyphs, Printer.rootTypes, Glyph.rootTypes] using hall
  | schemaExtension schema span =>
    have hschema := hextend.written (Written.word "schema" (by decide)) (by simp)
    have hall := hschema.annotated layout h.directives fun root hroot =>
      ⟨Written.rootType (h.roots root hroot), by simp⟩
    simpa [Printer.definition, definitionGlyphs, Printer.rootTypes, Glyph.rootTypes] using hall
  | type description type span =>
    have hall := (Leads.description (s := s) layout description).written
      (Written.typeDeclaration layout h) (by simp [typeGlyphs])
    simpa [Printer.definition, definitionGlyphs] using hall
  | typeExtension type span =>
    have hall := hextend.written (Written.typeDeclaration layout h.1) (by simp [typeGlyphs])
    simpa [Printer.definition, definitionGlyphs] using hall

/-! ## Documents -/

/-- The definitions of a printed document have their glyphs. -/
theorem Written.definitions {ds : List Definition} (hne : ds ≠ [])
    (h : ∀ d ∈ ds, d.Grammatical) :
    s.Written ("\n\n".intercalate (Printer.definitions (.lines 0) ds)).toList
      (s.definitionsGlyphs (.lines 0) ds).flatten := by
  obtain ⟨first, rest, rfl⟩ := List.exists_cons_of_ne_nil hne
  obtain ⟨hfirst, hrest⟩ := List.forall_mem_cons.mp h
  have hsep : s.Leads "\n\n".toList [] := Leads.newline.append Leads.newline
  have hall := Written.row hsep rfl (by simp) (Written.definition (s := s) (.lines 0) true hfirst)
    fun d hd => ⟨Written.definition (.lines 0) false (hrest d hd), definitionGlyphs_ne_nil _ _ d⟩
  rw [String.toList_intercalate, Printer.definitions, List.map_cons, List.map_map,
    intercalate_cons_map, definitionsGlyphs, List.flatten_cons, List.flatten_eq_flatMap,
    List.flatMap_map]
  exact hall

/-- A text that starts with something else than a blank. -/
def StartsSolid (text : List Char) : Prop := ∃ c rest, text = c :: rest ∧ Text.isBlank c = false

/-- What a text starts with does not depend on what follows. -/
theorem StartsSolid.append {text : List Char} (h : StartsSolid text) (rest : List Char) :
    StartsSolid (text ++ rest) := by
  obtain ⟨c, tail, rfl, hc⟩ := h
  exact ⟨c, tail ++ rest, rfl, hc⟩

/-- A printed text starts with a quote. -/
theorem startsSolid_text (layout : Layout) (preferBlock : Bool) (text : String) :
    StartsSolid (Printer.text layout preferBlock text).toList := by
  have hquote : Text.isBlank '"' = false := by decide
  rw [Printer.text_eq]
  split
  · rename_i hblock
    simp only [Printer.isBlock, Bool.and_eq_true] at hblock
    rw [Printer.toList_blockText hblock.1.1]
    exact ⟨'"', _, rfl, hquote⟩
  · refine ⟨'"', text.toList.flatMap Printer.escapeChar ++ ['"'], ?_, hquote⟩
    simp [Printer.quoted]

/-- What stands behind a description starts a text if there is no description. -/
theorem startsSolid_description (layout : Layout) (description : Option String) {rest : String}
    (h : StartsSolid rest.toList) :
    StartsSolid (Printer.description layout description ++ rest).toList := by
  cases description with
  | none => simpa [Printer.description] using h
  | some text =>
    rw [Printer.description, String.toList_append, String.toList_append]
    exact ((startsSolid_text layout true text).append _).append _

/-- A text behind a literal starts as the literal does. -/
theorem startsSolid_append {text : String} {c : Char} {chars : List Char}
    (htext : text.toList = c :: chars) (hc : Text.isBlank c = false) (rest : String) :
    StartsSolid (text ++ rest).toList := by
  rw [String.toList_append, htext]
  exact ⟨c, chars ++ rest.toList, rfl, hc⟩

/-- A printed operation starts with a brace or with its keyword. -/
theorem startsSolid_operation (layout : Layout) (isFirst : Bool) (o : Operation) :
    StartsSolid (Printer.operation layout isFirst o).toList := by
  rw [operation_eq]
  split
  · unfold Printer.selectionSet Layout.braces
    split
    · exact ⟨'\x7b', ['\x7d'], rfl, by decide⟩
    · simp only [String.append_assoc]
      exact startsSolid_append rfl (by decide) _
  · simp only [String.append_assoc]
    cases o.kind with
    | query => exact startsSolid_append rfl (by decide) _
    | mutation => exact startsSolid_append rfl (by decide) _
    | subscription => exact startsSolid_append rfl (by decide) _

/-- The printed definition of a type starts with its keyword. -/
theorem startsSolid_typeDeclaration (layout : Layout) (t : TypeDeclaration) :
    StartsSolid (Printer.typeDeclaration layout t).toList := by
  unfold Printer.typeDeclaration
  simp only [String.append_assoc]
  cases t.body with
  | scalar => exact startsSolid_append rfl (by decide) _
  | object => exact startsSolid_append rfl (by decide) _
  | interface => exact startsSolid_append rfl (by decide) _
  | union => exact startsSolid_append rfl (by decide) _
  | enum => exact startsSolid_append rfl (by decide) _
  | inputObject => exact startsSolid_append rfl (by decide) _

/-- A printed definition starts with something else than a blank. -/
theorem startsSolid_definition (layout : Layout) (isFirst : Bool) (d : Definition) :
    StartsSolid (Printer.definition layout isFirst d).toList := by
  cases d with
  | operation o => exact startsSolid_operation layout isFirst o
  | fragment f =>
    simp only [Printer.definition, Printer.fragment, String.append_assoc]
    exact startsSolid_append rfl (by decide) _
  | directive description directive span =>
    refine startsSolid_description layout description ?_
    simp only [Printer.directiveDeclaration, String.append_assoc]
    exact startsSolid_append rfl (by decide) _
  | schema description schema span =>
    simp only [Printer.definition, String.append_assoc]
    exact startsSolid_description layout description (startsSolid_append rfl (by decide) _)
  | schemaExtension schema span =>
    simp only [Printer.definition, String.append_assoc]
    exact startsSolid_append rfl (by decide) _
  | type description type span =>
    exact startsSolid_description layout description (startsSolid_typeDeclaration layout type)
  | typeExtension type span => exact startsSolid_append rfl (by decide) _

/-- A printed document starts with something else than a blank. -/
theorem startsSolid_definitions {ds : List Definition} (hne : ds ≠ []) :
    StartsSolid ("\n\n".intercalate (Printer.definitions (.lines 0) ds)).toList := by
  obtain ⟨first, rest, rfl⟩ := List.exists_cons_of_ne_nil hne
  rw [String.toList_intercalate, Printer.definitions, List.map_cons, List.map_map,
    intercalate_cons_map]
  exact (startsSolid_definition (.lines 0) true first).append _

end Surroundings
end EmbeddedGraphQL
