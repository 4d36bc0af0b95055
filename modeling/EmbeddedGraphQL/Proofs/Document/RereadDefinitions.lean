import EmbeddedGraphQL.Proofs.Document.RereadParts

/-!
# Reading documents back

The glyphs of a printed definition are read as the same definition again, with two exceptions: a
schema without root types is printed with empty braces, and the extension of a schema that says
nothing is printed as nothing but its keywords. Neither can be read.

* `Definition.spansLines`: whether a definition is printed with a text over several lines.
* `Definition.Reprintable`: the definitions that are read again.
* `Grammar.definition_reads`, `Grammar.definition_fails`: definitions.
* `Document.parse?_of_scan?`: whole documents.
-/

namespace EmbeddedGraphQL

open Reader Surroundings

/-! ## Texts over several lines -/

/-- Whether a description is printed over several lines. -/
def descriptionSpansLines (layout : Layout) : Option String → Bool
  | none => false
  | some text => Printer.spansLines layout true text

/-- Whether a default value is printed with a text over several lines. -/
def defaultSpansLines (layout : Layout) : Option Value → Bool
  | none => false
  | some v => v.spansLines layout

/-- Whether the declaration of an argument or input field is printed with a text over several
lines. -/
def InputDeclaration.spansLines (layout : Layout) (d : InputDeclaration) : Bool :=
  descriptionSpansLines layout d.description || defaultSpansLines layout d.default

/-- Whether a declaration of an argument is printed with a text over several lines. -/
def inputsSpanLines (layout : Layout) (ds : List InputDeclaration) : Bool :=
  ds.any (·.spansLines (argumentLayout layout ds).inner)

/-- Whether the declaration of a field is printed with a text over several lines. -/
def FieldDeclaration.spansLines (layout : Layout) (d : FieldDeclaration) : Bool :=
  descriptionSpansLines layout d.description || inputsSpanLines layout d.arguments

/-- Whether the declaration of an enum value is printed with a text over several lines. -/
def EnumDeclaration.spansLines (layout : Layout) (d : EnumDeclaration) : Bool :=
  descriptionSpansLines layout d.description

/-- Whether what a type is made of is printed with a text over several lines. -/
def TypeBody.spansLines (layout : Layout) : TypeBody → Bool
  | .scalar => false
  | .object _ fields => fields.any (·.spansLines layout.inner)
  | .interface _ fields => fields.any (·.spansLines layout.inner)
  | .union _ => false
  | .enum values => values.any (·.spansLines layout.inner)
  | .inputObject fields => fields.any (·.spansLines layout.inner)

/-- Whether a definition is printed with a text over several lines. -/
def Definition.spansLines (layout : Layout) : Definition → Bool
  | .operation _ => false
  | .fragment _ => false
  | .directive d declaration _ =>
    descriptionSpansLines layout d || inputsSpanLines layout declaration.arguments
  | .schema d _ _ => descriptionSpansLines layout d
  | .schemaExtension _ _ => false
  | .type d declaration _ => descriptionSpansLines layout d || declaration.body.spansLines layout
  | .typeExtension declaration _ => declaration.body.spansLines layout

/-- Whether a document is printed with a text over several lines. -/
def Document.spansLines (d : Document) : Bool := d.definitions.any (·.spansLines (.lines 0))

/-- Whether a definition can be read from what is printed for it: a schema has a root type, and the
extension of a schema says something. -/
def Definition.Reprintable : Definition → Prop
  | .schema _ declaration _ => declaration.roots ≠ []
  | .schemaExtension declaration _ => declaration.directives ≠ [] ∨ declaration.roots ≠ []
  | _ => True

/-- Whether a definition is reprintable can be seen from its root types. -/
instance (d : Definition) : Decidable d.Reprintable :=
  match d with
  | .schema _ declaration _ => inferInstanceAs (Decidable (declaration.roots ≠ []))
  | .schemaExtension declaration _ =>
    inferInstanceAs (Decidable (declaration.directives ≠ [] ∨ declaration.roots ≠ []))
  | .operation _ => isTrue trivial
  | .fragment _ => isTrue trivial
  | .directive _ _ _ => isTrue trivial
  | .type _ _ _ => isTrue trivial
  | .typeExtension _ _ => isTrue trivial

/-- Whether a document can be read from what is printed for it. -/
def Document.Reprintable (d : Document) : Prop := ∀ x ∈ d.definitions, x.Reprintable

/-- Whether a document is reprintable is decided definition by definition. -/
instance (d : Document) : Decidable d.Reprintable :=
  inferInstanceAs (Decidable (∀ x ∈ d.definitions, x.Reprintable))

/-! ## Operations and fragments -/

namespace Grammar

variable {s : Surroundings}

/-- A default value is read back, or that there is none. -/
theorem defaultValue_reads (layout : Layout) {v : Option Value}
    (h : ∀ x ∈ v, x.Grammatical true maxDepth) :
    defaultValue.Reads (s.defaultGlyphs layout v) (avoids ['='])
      fun w => s.Rereads (sameOption Value.same v w) (defaultSpansLines layout v) := by
  cases v with
  | none =>
    refine (acceptMark_reads_nil '=').last (fun accepted haccepted => ?_)
      fun _ hnext => hnext '=' List.mem_cons_self
    rw [haccepted, if_neg Bool.false_ne_true]
    exact .pure (.of_true rfl)
  | some v =>
    refine (acceptMark_reads '=').andThen fun accepted haccepted => ?_
    rw [haccepted, if_pos rfl]
    exact ((value_reads (h v rfl) layout).map fun w hw => hw).before fun _ _ => trivial

/-- In front of what avoids a mark other than the equals sign, so does a default value. -/
theorem next_default {marks : List Char} (hmarks : '=' ∉ marks) (layout : Layout)
    (v : Option Value) {rest : List Glyph} (hrest : avoids marks (Glyph.next rest)) :
    avoids marks (Glyph.next (s.defaultGlyphs layout v ++ rest)) := by
  cases v with
  | none => exact hrest
  | some v =>
    show avoids marks (some (.mark '='))
    exact avoids_mark.mpr hmarks

/-- What may not follow a declaration with a type: a mark that would be part of it. -/
def typedMarks : List Char := ['!', '=', '@', '(']

/-- A type, a default value and directives. -/
theorem typed_reads {α : Type} {t : TypeRef} (ht : t.Grammatical maxDepth) (layout : Layout)
    {v : Option Value} (hv : ∀ x ∈ v, x.Grammatical true maxDepth) {ds : List Directive}
    (hds : ∀ d ∈ ds, d.Grammatical true maxDepth) {f : TypeRef → Option Value → List Directive → α}
    {P : α → Prop}
    (h : ∀ w es, s.Rereads (sameOption Value.same v w) (defaultSpansLines layout v) →
      sameDirectives ds es = true → P (f t w es)) :
    Reads (do
      let type ← typeRef maxDepth
      let default ← defaultValue
      let directives ← directives true maxDepth
      return f type default directives)
      (Glyph.typeRef t ++ (s.defaultGlyphs layout v ++ s.directivesGlyphs ds))
      (avoids typedMarks) P := by
  refine (typeRef_reads ht).bind (fun type htype => ?_) fun rest hrest => ?_
  · refine (defaultValue_reads layout hv).bind (fun w hw => ?_) fun rest hrest => ?_
    · refine (directives_reads hds).last (fun es hes => .pure ?_) fun _ hnext => ?_
      · rw [htype]
        exact h w es hw hes
      · exact hnext.subset (by simp [typedMarks])
    · exact next_directives (by simp) ds (hrest.subset (by simp [typedMarks]))
  · -- What follows the type is a default value, a directive or what follows both.
    rw [List.append_assoc]
    exact next_default (by simp) layout v
      (next_directives (by simp) ds (hrest.subset (by simp [typedMarks])))

/-- A variable definition is read back. -/
theorem variableDefinition_reads {v : VariableDefinition} (h : v.Grammatical) :
    variableDefinition.Reads (s.variableGlyphs v) (avoids typedMarks)
      fun w => v.same w = true := by
  refine (expectMark_reads '$').andThen fun _ _ => (name_reads v.name).andThen fun name hname => ?_
  refine (expectMark_reads ':').andThen fun _ _ => ?_
  refine typed_reads h.type .oneLine h.default h.directives fun w es hw hes => ?_
  have hdefault : defaultSpansLines .oneLine v.default = false := by
    cases v.default with
    | none => rfl
    | some x => exact x.spansLines_oneLine
  rw [hdefault] at hw
  simp [VariableDefinition.same, hname, hw.eq_true, hes]

/-- The variable definitions of an operation are read back, or that there are none. -/
theorem variables_reads {vs : List VariableDefinition} (h : ∀ v ∈ vs, v.Grammatical) :
    (betweenIfAny '(' ')' variableDefinition).Reads (s.variablesGlyphs vs) (avoids ['('])
      fun ws => sameList VariableDefinition.same vs ws = true := by
  have hitems : ReadsItems variableDefinition s.variableGlyphs (avoids typedMarks)
      (fun v w => v.same w = true) ')' vs :=
    ⟨fun v hv => variableDefinition_reads (h v hv),
      fun v _ => ⟨_, _, rfl, by simp, by simp [typedMarks]⟩, by simp [typedMarks]⟩
  have hall := betweenIfAny_reads '(' hitems (row_commas .oneLine _)
  exact (hall.imp fun ws hws => hws.sameList).before fun _ hnext => hnext '(' List.mem_cons_self

/-- The keyword of an operation is read back. -/
theorem operationKind_reads (kind : OperationKind) :
    operationKind.Reads [.name kind.keyword] anyNext (· = kind) := by
  refine (name_reads kind.keyword).andThen fun name hname => ?_
  have hkind : OperationKind.ofKeyword? name = some kind := by
    rw [hname]
    cases kind <;> rfl
  rw [hkind]
  exact .pure rfl

/-- A name, if what follows is no name. -/
theorem operationName_reads (name : Option String) :
    operationName.Reads (Glyph.nameIfAny name) (fun next => ∀ text, next ≠ some (.name text))
      (· = name) := by
  refine .peek fun rest hrest => ?_
  cases name with
  | some text => exact ((name_reads text).map fun x hx => by rw [hx]).before fun _ _ => trivial
  | none =>
    rw [Glyph.nameIfAny, List.nil_append]
    split
    · rename_i text htext
      exact absurd htext (hrest text)
    · exact .pure rfl

/-- An operation behind its keyword is read back. -/
theorem namedOperation_reads (start : Nat) {o : Operation} (h : o.Grammatical) :
    (namedOperation start).Reads
      (.name o.kind.keyword :: (Glyph.nameIfAny o.name ++ (s.variablesGlyphs o.variableDefinitions ++
        (s.directivesGlyphs o.directives ++ s.setGlyphs o.selections)))) anyNext
      fun x => (Definition.operation o).same x = true := by
  refine (operationKind_reads o.kind).andThen fun kind hkind => ?_
  refine (operationName_reads o.name).bind (fun name hname => ?_) fun rest _ => ?_
  · refine (variables_reads h.variableDefinitions).bind (fun vs hvs => ?_) fun rest _ => ?_
    · refine (directives_reads h.directives).bind (fun ds hds => ?_) fun _ _ => ?_
      · refine (selectionSet_reads h.nonempty h.selections).last (fun set hset => ?_)
          fun _ _ => trivial
        refine .stop fun stop => .pure ?_
        simp [Definition.same, Operation.same, hkind, hname, hvs, hds, hset]
      · exact avoids_mark.mpr (by simp)
    · rw [List.append_assoc]
      exact next_directives (by simp) _ (avoids_mark.mpr (by simp))
  · -- A parenthesis, a directive or a brace comes next.
    cases o.variableDefinitions with
    | cons v vs => rintro text ⟨⟩
    | nil =>
      cases o.directives with
      | cons d ds => rintro text ⟨⟩
      | nil => rintro text ⟨⟩

/-- A query that is printed as its selection set alone is read back. -/
theorem bareQuery_reads (start : Nat) {o : Operation} (h : o.Grammatical)
    (hbare : isBare true o = true) :
    (bareQuery start).Reads (s.setGlyphs o.selections) anyNext
      fun x => (Definition.operation o).same x = true := by
  simp only [isBare, Bool.true_and, Bool.and_eq_true, decide_eq_true_eq, Option.isNone_iff_eq_none,
    List.isEmpty_iff] at hbare
  obtain ⟨⟨⟨hkind, hname⟩, hvs⟩, hds⟩ := hbare
  refine (selectionSet_reads h.nonempty h.selections).last (fun set hset => ?_) fun _ _ => trivial
  refine .stop fun stop => .pure ?_
  rw [Definition.same, Operation.same, hkind, hname, hvs, hds, hset]
  rfl

/-- A condition that holds takes nothing. -/
theorem guard_reads {p : Prop} [Decidable p] (h : p) :
    (guard p : Reader Unit).Reads [] anyNext fun _ => True := by
  have hguard : (guard p : Reader Unit) = pure () := if_pos h
  rw [hguard]
  exact .pure trivial

/-- A fragment definition is read back. -/
theorem fragmentDefinition_reads (start : Nat) {f : Fragment} (h : f.Grammatical) :
    (fragmentDefinition start).Reads (s.fragmentGlyphs f) anyNext
      fun x => (Definition.fragment f).same x = true := by
  refine (take_reads (.name "fragment")).andThen fun _ _ => ?_
  refine (name_reads f.name).andThen fun name hname => ?_
  rw [hname]
  refine Reads.thenAll (guard_reads h.notOn) (fun _ _ => ?_) fun _ _ => trivial
  refine (expect_reads (.name "on")).andThen fun _ _ => ?_
  refine (name_reads f.typeCondition).andThen fun condition hcondition => ?_
  refine (directives_reads h.directives).bind (fun ds hds => ?_) fun _ _ =>
    avoids_mark.mpr (by simp)
  refine (selectionSet_reads h.nonempty h.selections).last (fun set hset => ?_) fun _ _ => trivial
  refine .stop fun stop => .pure ?_
  simp [Definition.same, Fragment.same, hcondition, hds, hset]

/-! ## Declarations -/

/-- A description is read back, or that there is none, unless a text comes next. -/
theorem description_reads (layout : Layout) (d : Option String) :
    description.Reads (s.descriptionGlyphs layout d) (fun next => ∀ text, next ≠ some (.string text))
      fun e => s.Rereads (d == e) (descriptionSpansLines layout d) := by
  refine .peek fun rest hrest => ?_
  cases d with
  | some text =>
    refine ((take_reads _).last (fun _ _ => .pure ?_) fun _ _ => trivial)
    exact Rereads.text layout true text
  | none =>
    rw [descriptionGlyphs, List.nil_append]
    split
    · rename_i text htext
      exact absurd htext (hrest text)
    · exact .pure (.of_true rfl)

/-- The declaration of an argument or input field is read back. -/
theorem inputDeclaration_reads (layout : Layout) {d : InputDeclaration} (h : d.Grammatical) :
    inputDeclaration.Reads (s.inputGlyphs layout d) (avoids typedMarks)
      fun e => s.Rereads (d.same e) (d.spansLines layout) := by
  refine (description_reads layout d.description).bind (fun text htext => ?_) fun _ _ => nofun
  refine (name_reads d.name).andThen fun name hname => (expectMark_reads ':').andThen fun _ _ => ?_
  refine typed_reads h.type layout h.default h.directives fun w es hw hes => ?_
  exact (((htext.and_true (by simp [hname])).and_true (by simp)).and hw).and_true hes

/-- Declarations in front of a closing mark, each of which starts with its description or name. -/
theorem readsItems_declarations {α β : Type} {item : Reader β} {g : α → List Glyph}
    {marks : List Char} {E : α → β → Prop} {close : Char} {xs : List α} {layout : Layout}
    (hreads : ∀ x ∈ xs, item.Reads (g x) (avoids marks) (E x))
    (hstarts : ∀ x, ∃ d name tail, g x = s.descriptionGlyphs layout d ++ (.name name :: tail))
    (hclose : close ∉ marks) : ReadsItems item g (avoids marks) E close xs := by
  refine ⟨hreads, fun x _ => ?_, avoids_mark.mpr hclose⟩
  obtain ⟨d, name, tail, hx⟩ := hstarts x
  cases d with
  | none => exact ⟨_, _, hx, by simp⟩
  | some text => exact ⟨_, _, hx, by simp⟩

/-- Declarations of inputs are read back one after the other. -/
theorem readsItems_inputs (layout : Layout) (close : Char) (hclose : close ∉ typedMarks)
    {ds : List InputDeclaration} (h : ∀ d ∈ ds, d.Grammatical) :
    ReadsItems inputDeclaration (s.inputGlyphs layout) (avoids typedMarks)
      (fun d e => s.Rereads (d.same e) (d.spansLines layout)) close ds :=
  readsItems_declarations (fun d hd => inputDeclaration_reads layout (h d hd))
    (fun _ => ⟨_, _, _, rfl⟩) hclose

/-- The declarations of the arguments of a field are read back, or that there are none. -/
theorem inputs_reads (layout : Layout) {ds : List InputDeclaration} (h : ∀ d ∈ ds, d.Grammatical) :
    (betweenIfAny '(' ')' inputDeclaration).Reads (s.inputsGlyphs layout ds) (avoids ['('])
      fun es => s.Rereads (sameList InputDeclaration.same ds es) (inputsSpanLines layout ds) := by
  have hitems := readsItems_inputs (s := s) (argumentLayout layout ds).inner ')'
    (by simp [typedMarks]) h
  have hall := betweenIfAny_reads '(' hitems (row_commas (argumentLayout layout ds) _)
  exact (hall.imp fun es hes => .sameList hes).before fun _ hnext => hnext '(' List.mem_cons_self

/-- The declaration of a field is read back. -/
theorem fieldDeclaration_reads (layout : Layout) {d : FieldDeclaration} (h : d.Grammatical) :
    fieldDeclaration.Reads (s.fieldDeclarationGlyphs layout d) (avoids typedMarks)
      fun e => s.Rereads (d.same e) (d.spansLines layout) := by
  refine (description_reads layout d.description).bind (fun text htext => ?_) fun _ _ => nofun
  refine (name_reads d.name).andThen fun name hname => ?_
  refine (inputs_reads layout h.arguments).bind (fun args hargs => ?_) fun _ _ =>
    avoids_mark.mpr (by simp)
  refine (expectMark_reads ':').andThen fun _ _ => ?_
  refine (typeRef_reads h.type).bind (fun type htype => ?_) fun rest hrest => ?_
  · refine (directives_reads h.directives).last (fun es hes => .pure ?_) fun _ hnext =>
      hnext.subset (by simp [typedMarks])
    exact (((htext.and_true (by simp [hname])).and hargs).and_true (by simp [htype])).and_true hes
  · exact next_directives (by simp) _ (hrest.subset (by simp [typedMarks]))

/-- The declaration of an enum value is read back. -/
theorem enumDeclaration_reads (layout : Layout) {d : EnumDeclaration} (h : d.Grammatical) :
    enumDeclaration.Reads (s.enumGlyphs layout d) (avoids typedMarks)
      fun e => s.Rereads (d.same e) (d.spansLines layout) := by
  refine (description_reads layout d.description).bind (fun text htext => ?_) fun _ _ => nofun
  refine (name_reads d.name).andThen fun name hname => ?_
  rw [hname]
  refine Reads.thenAll (guard_reads h.notValue) (fun _ _ => ?_) fun _ _ => trivial
  refine (directives_reads h.directives).last (fun es hes => .pure ?_) fun _ hnext =>
    hnext.subset (by simp [typedMarks])
  exact (htext.and_true (by simp)).and_true hes

/-- Parts between braces, or nothing. -/
theorem body_reads {α β : Type} {item : Reader β} {g : α → List Glyph}
    {F : Option Lexeme → Prop} {E : α → β → Prop} {xs : List α}
    (h : ReadsItems item g F E '\x7d' xs) :
    (betweenIfAny '\x7b' '\x7d' item).Reads (Glyph.body (xs.map g)) (avoids ['\x7b'])
      (Agree E xs) := by
  have hall := betweenIfAny_reads '\x7b' h (.flatten _)
  rw [Glyph.body, List.isEmpty_map]
  exact hall.before fun _ hnext => hnext _ List.mem_cons_self

/-- In front of what avoids a mark other than the brace, so does a body. -/
theorem next_body {marks : List Char} (hmarks : '\x7b' ∉ marks) (parts : List (List Glyph))
    {rest : List Glyph} (hrest : avoids marks (Glyph.next rest)) :
    avoids marks (Glyph.next (Glyph.body parts ++ rest)) := by
  cases parts with
  | nil => exact hrest
  | cons p parts =>
    show avoids marks (some (.mark '\x7b'))
    exact avoids_mark.mpr hmarks

/-! ## Types and directives -/

/-- The words that a definition starts with. -/
def definitionWords : List String :=
  ["query", "mutation", "subscription", "fragment", "schema", "directive", "extend", "scalar",
    "type", "interface", "union", "enum", "input"]

/-- Whether another definition or nothing comes next. A query without its keyword is the first
thing written, so that no brace comes next. -/
def startsDefinition : Option Lexeme → Prop
  | none => True
  | some (.string _) => True
  | some (.name text) => text ∈ definitionWords
  | _ => False

/-- What stands in front of another definition or the end is no mark. -/
theorem startsDefinition.avoids {next : Option Lexeme} (h : startsDefinition next)
    (marks : List Char) : Reader.avoids marks next := by
  rcases next with _ | l
  · simp
  · cases l with
    | mark c => exact h.elim
    | _ => simp_all [startsDefinition]

/-- A definition starts with no other words than the known ones. -/
theorem startsDefinition.not_word {next : Option Lexeme} (h : startsDefinition next)
    {word : String} (hword : word ∉ definitionWords) : next ≠ some (.name word) := by
  rintro rfl
  exact hword h

/-- The interfaces of a type are read back, or that there are none. -/
theorem interfaces_reads (names : List String) :
    interfaces.Reads (Glyph.interfaces names)
      (fun next => next ≠ some (.name "implements") ∧ avoids ['&'] next) (· = names) := by
  by_cases hnames : names = []
  · subst hnames
    refine (accept_reads_nil (.name "implements")).last (fun accepted haccepted => ?_)
      fun _ hnext => hnext.1
    rw [haccepted, if_neg Bool.false_ne_true]
    exact .pure rfl
  · rw [Glyph.interfaces, if_neg (by simpa using hnames)]
    refine (accept_reads (.name "implements")).andThen fun accepted haccepted => ?_
    rw [haccepted, if_pos rfl]
    exact (separated_reads '&' hnames fun n _ => name_reads n).before fun _ hnext =>
      hnext.2 '&' List.mem_cons_self

/-- The members of a union are read back, or that there are none. -/
theorem unionMembers_reads (names : List String) :
    unionMembers.Reads (Glyph.unionMembers names) (avoids ['=', '|']) (· = names) := by
  by_cases hnames : names = []
  · subst hnames
    refine (acceptMark_reads_nil '=').last (fun accepted haccepted => ?_)
      fun _ hnext => hnext '=' (by simp)
    rw [haccepted, if_neg Bool.false_ne_true]
    exact .pure rfl
  · rw [Glyph.unionMembers, if_neg (by simpa using hnames)]
    refine (acceptMark_reads '=').andThen fun accepted haccepted => ?_
    rw [haccepted, if_pos rfl]
    exact (separated_reads '|' hnames fun n _ => name_reads n).before fun _ hnext =>
      hnext '|' (by simp)

/-- Of what was written and what was read both are empty or none. -/
theorem agree_isEmpty {α β : Type} {E : α → β → Prop} {xs : List α} {ys : List β}
    (h : Agree E xs ys) : ys.isEmpty = xs.isEmpty := by
  cases xs <;> cases ys <;> simp_all [Agree]

/-- The interfaces, directives and fields of a type. -/
theorem fielded_reads {α : Type} (names : List String) {ds : List Directive}
    (hds : ∀ d ∈ ds, d.Grammatical true maxDepth) (layout : Layout) {fields : List FieldDeclaration}
    (hfields : ∀ f ∈ fields, f.Grammatical)
    {f : List String → List Directive → List FieldDeclaration → α} {P : α → Prop}
    (h : ∀ es others, sameDirectives ds es = true →
      Agree (fun d e => s.Rereads (d.same e) (d.spansLines layout)) fields others →
      P (f names es others)) :
    Reads (do
      let interfaces ← interfaces
      let directives ← directives true maxDepth
      let fields ← fieldDeclarations
      return f interfaces directives fields)
      (Glyph.interfaces names ++ (s.directivesGlyphs ds ++
        Glyph.body (fields.map (s.fieldDeclarationGlyphs layout)))) startsDefinition P := by
  have hitems : ReadsItems fieldDeclaration (s.fieldDeclarationGlyphs layout) (avoids typedMarks)
      (fun d e => s.Rereads (d.same e) (d.spansLines layout)) '\x7d' fields :=
    readsItems_declarations (fun d hd => fieldDeclaration_reads layout (hfields d hd))
      (fun _ => ⟨_, _, _, rfl⟩) (by simp [typedMarks])
  refine (interfaces_reads names).bind (fun is his => ?_) fun rest hrest => ?_
  · refine (directives_reads hds).bind (fun es hes => ?_) fun rest hrest => ?_
    · refine (body_reads hitems).last (fun others hothers => .pure ?_) fun _ hnext =>
        hnext.avoids _
      rw [his]
      exact h es others hes hothers
    · exact next_body (by simp) _ (hrest.avoids _)
  · rw [List.append_assoc]
    refine ⟨?_, next_directives (by simp) _ (next_body (by simp) _ (hrest.avoids _))⟩
    -- No `&` may follow the interfaces: a directive, a brace or another definition does.
    cases ds with
    | cons d ds => exact nofun
    | nil =>
      cases fields with
      | cons f fields => exact nofun
      | nil => exact hrest.not_word (by simp [definitionWords])

/-- Directives and parts between braces. -/
theorem annotated_reads {α β γ : Type} {ds : List Directive}
    (hds : ∀ d ∈ ds, d.Grammatical true maxDepth) {item : Reader β} {g : α → List Glyph}
    {F : Option Lexeme → Prop} {E : α → β → Prop} {xs : List α}
    (hitems : ReadsItems item g F E '\x7d' xs) {f : List Directive → List β → γ} {P : γ → Prop}
    (h : ∀ es ys, sameDirectives ds es = true → Agree E xs ys → P (f es ys)) :
    Reads (do
      let directives ← directives true maxDepth
      let parts ← betweenIfAny '\x7b' '\x7d' item
      return f directives parts)
      (s.directivesGlyphs ds ++ Glyph.body (xs.map g)) startsDefinition P := by
  refine (directives_reads hds).bind (fun es hes => ?_) fun rest hrest => ?_
  · exact (body_reads hitems).last (fun ys hys => .pure (h es ys hes hys)) fun _ hnext =>
      hnext.avoids _
  · exact next_body (by simp) _ (hrest.avoids _)

/-- A type declaration is read back, and what says something about the type still does. -/
theorem typeDeclaration_reads (layout : Layout) {t : TypeDeclaration} (h : t.Grammatical) :
    (typeDeclaration (typeKeyword t.body)).Reads (.name t.name :: s.typeBodyGlyphs layout t)
      startsDefinition fun u => s.Rereads (t.same u) (t.body.spansLines layout) ∧
        isNonEmpty u = isNonEmpty t := by
  obtain ⟨text, ds, body⟩ := t
  obtain ⟨-, hds, hbody⟩ := h
  -- Name and directives are read back as they are, so that only the body can differ.
  have hhead : ∀ {name es} {x y : Bool}, name = text → sameDirectives ds es = true →
      s.Rereads x y → s.Rereads ((text == name && sameDirectives ds es) && x) y := by
    rintro name es x y rfl hes hx
    exact .true_and (by simp [hes]) hx
  cases body with
  | scalar =>
    rw [typeKeyword, typeDeclaration]
    refine (name_reads text).andThen fun name hname => ?_
    refine (directives_reads hds).last (fun es hes => .pure ⟨?_, ?_⟩) fun _ hnext => hnext.avoids _
    · exact hhead hname hes (.of_true rfl)
    · simp only [isNonEmpty, ← isEmpty_eq_of_sameList hes]
  | object names fields =>
    rw [typeKeyword, typeDeclaration]
    refine (name_reads text).andThen fun name hname => ?_
    refine fielded_reads names hds layout.inner hbody.2 fun es others hes hothers => ⟨?_, ?_⟩
    · exact hhead hname hes (.true_and (by simp) (.sameList hothers))
    · simp only [isNonEmpty, ← isEmpty_eq_of_sameList hes, agree_isEmpty hothers]
  | interface names fields =>
    rw [typeKeyword, typeDeclaration]
    refine (name_reads text).andThen fun name hname => ?_
    refine fielded_reads names hds layout.inner hbody.2 fun es others hes hothers => ⟨?_, ?_⟩
    · exact hhead hname hes (.true_and (by simp) (.sameList hothers))
    · simp only [isNonEmpty, ← isEmpty_eq_of_sameList hes, agree_isEmpty hothers]
  | union members =>
    rw [typeKeyword, typeDeclaration]
    refine (name_reads text).andThen fun name hname => ?_
    refine (directives_reads hds).bind (fun es hes => ?_) fun rest hrest => ?_
    · refine (unionMembers_reads members).last (fun others hothers => .pure ⟨?_, ?_⟩)
        fun _ hnext => hnext.avoids _
      · exact hhead hname hes (.of_true (by simp [TypeBody.same, hothers]))
      · simp only [isNonEmpty, ← isEmpty_eq_of_sameList hes, hothers]
    · cases members with
      | nil => exact hrest.avoids _
      | cons n members => exact avoids_mark.mpr (by simp)
  | enum values =>
    have hitems : ReadsItems enumDeclaration (s.enumGlyphs layout.inner) (avoids typedMarks)
        (fun d e => s.Rereads (d.same e) (d.spansLines layout.inner)) '\x7d' values :=
      readsItems_declarations (fun d hd => enumDeclaration_reads layout.inner (hbody d hd))
        (fun _ => ⟨_, _, _, rfl⟩) (by simp [typedMarks])
    rw [typeKeyword, typeDeclaration]
    refine (name_reads text).andThen fun name hname => ?_
    refine annotated_reads hds hitems fun es others hes hothers => ⟨?_, ?_⟩
    · exact hhead hname hes (.sameList hothers)
    · simp only [isNonEmpty, ← isEmpty_eq_of_sameList hes, agree_isEmpty hothers]
  | inputObject fields =>
    have hitems := readsItems_inputs (s := s) layout.inner '\x7d' (by simp [typedMarks]) hbody
    rw [typeKeyword, typeDeclaration]
    refine (name_reads text).andThen fun name hname => ?_
    refine annotated_reads hds hitems fun es others hes hothers => ⟨?_, ?_⟩
    · exact hhead hname hes (.sameList hothers)
    · simp only [isNonEmpty, ← isEmpty_eq_of_sameList hes, agree_isEmpty hothers]

/-- A place where a directive may stand is read back. -/
theorem directiveLocation_reads {name : String} (h : name ∈ directiveLocations) :
    directiveLocation.Reads [.name name] anyNext (· = name) := by
  refine (name_reads name).andThen fun text htext => ?_
  rw [htext, if_pos h]
  exact .pure rfl

/-- The definition of a directive is read back. -/
theorem directiveDeclaration_reads (layout : Layout) {d : DirectiveDeclaration}
    (h : d.Grammatical) :
    directiveDeclaration.Reads (.mark '@' :: .name d.name :: (s.inputsGlyphs layout d.arguments ++
      ((if d.repeatable then [.name "repeatable"] else []) ++
        (.name "on" :: Glyph.namesBetween '|' d.locations)))) (avoids ['|'])
      fun e => s.Rereads (d.same e) (inputsSpanLines layout d.arguments) := by
  refine (expectMark_reads '@').andThen fun _ _ => (name_reads d.name).andThen fun name hname => ?_
  refine (inputs_reads layout h.arguments).bind (fun args hargs => ?_) fun rest _ => ?_
  · refine (accept_reads_if (.name "repeatable") d.repeatable).bind (fun repeatable hrepeatable => ?_)
      fun _ _ => by simp
    refine (expect_reads (.name "on")).andThen fun _ _ => ?_
    have hlocations := separated_reads '|' h.nonempty
      fun n hn => directiveLocation_reads (h.locations n hn)
    refine hlocations.last (fun others hothers => .pure ?_)
      fun _ hnext => hnext '|' List.mem_cons_self
    exact ((Rereads.true_and (by simp [hname]) hargs).and_true (by simp [hrepeatable])).and_true
      (by simp [hothers])
  · cases d.repeatable <;> simp

/-! ## Schemas -/

/-- A root type is read back. -/
theorem rootType_reads (root : OperationKind × String) :
    rootType.Reads [.name root.1.keyword, .mark ':', .name root.2] anyNext
      fun item => ∃ y, item = some y ∧ y = root := by
  refine (operationKind_reads root.1).andThen fun kind hkind => ?_
  refine (expectMark_reads ':').andThen fun _ _ => .peek fun rest _ => ?_
  refine (take_reads (.name root.2)).last (fun _ _ => .pure ⟨_, rfl, ?_⟩) fun _ _ => trivial
  rw [hkind]

/-- Root types are read back one after the other. -/
theorem readsItems_rootTypes (roots : List (OperationKind × String)) :
    ReadsItems rootType (fun root => [.name root.1.keyword, .mark ':', .name root.2]) anyNext
      (fun root item => ∃ y, item = some y ∧ y = root) '\x7d' roots :=
  ⟨fun root _ => rootType_reads root, fun _ _ => ⟨_, _, rfl, by simp, trivial⟩, trivial⟩

/-- The definition of a schema with a root type is read back. -/
theorem schemaDeclaration_reads {d : SchemaDeclaration} (h : d.Grammatical) (hroots : d.roots ≠ []) :
    schemaDeclaration.Reads
      (s.directivesGlyphs d.directives ++ Glyph.braces (Glyph.rootTypes d.roots))
      startsDefinition fun e => d.same e = true := by
  have hall := annotated_reads (s := s) h.directives (readsItems_rootTypes d.roots)
    (f := fun es roots => (⟨es, roots.filterMap id⟩ : SchemaDeclaration))
    (P := fun e => d.same e = true) fun es roots hes hagree => by
      rw [SchemaDeclaration.same, hes, hagree.filterMap.eq, beq_self_eq_true, Bool.and_self]
  rw [Glyph.body, if_neg (by simpa using hroots)] at hall
  exact hall

/-- The root types that are added to a schema are read back, or that there are none. -/
theorem addedRoots_reads (roots : List (OperationKind × String)) :
    addedRoots.Reads (Glyph.body (Glyph.rootTypes roots)) (avoids ['\x7b'])
      (Agree (fun root item => ∃ y, item = some y ∧ y = root) roots) := by
  by_cases hroots : roots = []
  · subst hroots
    refine (acceptMark_reads_nil '\x7b').last (fun accepted haccepted => ?_)
      fun _ hnext => hnext _ List.mem_cons_self
    rw [haccepted, if_neg Bool.false_ne_true]
    exact .pure trivial
  · rw [Glyph.body, if_neg (by simpa [Glyph.rootTypes] using hroots)]
    refine (acceptMark_reads '\x7b').andThen fun accepted haccepted => ?_
    rw [haccepted, if_pos rfl]
    exact (untilMark_reads (readsItems_rootTypes roots) (.flatten _)).before fun _ _ => trivial

/-- The extension of a schema that says something is read back. -/
theorem schemaAddition_reads {d : SchemaDeclaration} (h : d.Grammatical)
    (hnonempty : d.directives ≠ [] ∨ d.roots ≠ []) :
    schemaAddition.Reads
      (s.directivesGlyphs d.directives ++ Glyph.body (Glyph.rootTypes d.roots))
      startsDefinition fun e => d.same e = true := by
  refine (directives_reads h.directives).bind (fun es hes => ?_) fun rest hrest => ?_
  · refine (addedRoots_reads d.roots).last (fun roots hagree => ?_) fun _ hnext => hnext.avoids _
    have hguard : (!(es.isEmpty && roots.isEmpty)) = true := by
      rw [← isEmpty_eq_of_sameList hes, agree_isEmpty hagree]
      rcases hnonempty with hds | hroots
      · simp [hds]
      · simp [hroots]
    refine (guard_reads hguard).last (fun _ _ => .pure ?_) fun _ _ => trivial
    rw [SchemaDeclaration.same, hes, hagree.filterMap.eq, beq_self_eq_true, Bool.and_self]
  · exact next_body (by simp) _ (hrest.avoids _)

/-! ## Definitions -/

/-- The words that a definition of the type system starts with. -/
def systemWords : List String :=
  ["schema", "directive", "scalar", "type", "interface", "union", "enum", "input"]

/-- A definition of the type system, with its description. -/
def systemDefinitionWithDescription : Reader Definition := do
  let start ← Reader.start
  let text ← description
  systemDefinition start text

/-- What follows a reader goes on where that reader stops. -/
theorem bind_of_eq_some {α β : Type} {r : Reader α} {f : α → Reader β} {c d : Cursor} {x : α}
    (h : r c = some (x, d)) : (r >>= f) c = f x d := by
  show (r c).bind _ = _
  rw [h, Option.bind_some]

/-- With a description in front or without, a word of the type system is the start of its
definition. -/
theorem definition_eq_system {c : Cursor} {layout : Layout} {d : Option String} {word : String}
    (hword : word ∈ systemWords) {gs : List Glyph}
    (hc : c.Shows (s.descriptionGlyphs layout d ++ .name word :: gs)) :
    definition c = systemDefinitionWithDescription c := by
  have hpeek : peek c = some (Glyph.next (s.descriptionGlyphs layout d ++ .name word :: gs), c) := by
    rw [peek, hc.head?]
  have hstart : Reader.start c = some (_, c) := rfl
  rw [definition, systemDefinitionWithDescription, bind_of_eq_some hstart, bind_of_eq_some hstart,
    bind_of_eq_some hpeek]
  simp only [systemWords, List.mem_cons, List.not_mem_nil, or_false] at hword
  cases d with
  | none =>
    have hdescription : description c = some (none, c) := by
      rw [description, bind_of_eq_some hpeek]
      rfl
    rw [bind_of_eq_some hdescription]
    rcases hword with rfl | rfl | rfl | rfl | rfl | rfl | rfl | rfl <;> rfl
  | some text =>
    show describedDefinition _ c = _
    rw [describedDefinition, bind_of_eq_some hc.peekSecond]
    rcases hword with rfl | rfl | rfl | rfl | rfl | rfl | rfl | rfl <;> rfl

/-- A definition of the type system is known by its keyword, behind a description or not. -/
theorem definition_reads_system {layout : Layout} {d : Option String} {word : String}
    (hword : word ∈ systemWords) {gs : List Glyph} {P : Definition → Prop}
    (h : ∀ start text, s.Rereads (d == text) (descriptionSpansLines layout d) →
      (systemDefinition start text).Reads (.name word :: gs) startsDefinition P) :
    definition.Reads (s.descriptionGlyphs layout d ++ .name word :: gs) startsDefinition P := by
  have hsystem : systemDefinitionWithDescription.Reads
      (s.descriptionGlyphs layout d ++ .name word :: gs) startsDefinition P :=
    .start fun start => (description_reads layout d).bind (h start) fun _ _ => nofun
  intro c rest hc hrest
  have heq : definition c = systemDefinitionWithDescription c := by
    rw [List.append_assoc] at hc
    exact definition_eq_system hword hc
  rw [heq]
  exact hsystem hc hrest

/-- The definition of a type is read back. -/
theorem systemDefinition_reads_type (start : Nat) {layout : Layout} {d text : Option String}
    (htext : s.Rereads (d == text) (descriptionSpansLines layout d)) {t : TypeDeclaration}
    (h : t.Grammatical) (span : Option Span) :
    (systemDefinition start text).Reads (s.typeGlyphs layout t) startsDefinition fun e =>
      s.Rereads ((Definition.type d t span).same e) ((Definition.type d t span).spansLines layout) := by
  refine (name_reads (typeKeyword t.body)).andThen fun keyword hkeyword => ?_
  have hall : Reads (do
      let type ← typeDeclaration (typeKeyword t.body)
      return Definition.type text type (some ⟨start, ← Reader.stop⟩))
      (.name t.name :: s.typeBodyGlyphs layout t) startsDefinition fun e =>
        s.Rereads ((Definition.type d t span).same e)
          ((Definition.type d t span).spansLines layout) :=
    (typeDeclaration_reads layout h).last
      (fun u hu => .stop fun stop => .pure (htext.and hu.1)) fun _ hnext => hnext
  rw [hkeyword]
  obtain ⟨name, ds, body⟩ := t
  cases body <;> exact hall

/-- The extension of a type that says something is read back. -/
theorem extension_reads_type (start : Nat) (layout : Layout) {t : TypeDeclaration}
    (h : t.Grammatical) (hnonempty : isNonEmpty t = true) (span : Option Span) :
    (extension start).Reads (.name "extend" :: s.typeGlyphs layout t) startsDefinition fun e =>
      s.Rereads ((Definition.typeExtension t span).same e)
        ((Definition.typeExtension t span).spansLines layout) := by
  refine .peekSecond ((expect_reads (.name "extend")).andThen fun _ _ => ?_)
  refine Reads.thenAll (guard_reads rfl) (fun _ _ => ?_) fun _ _ => trivial
  refine (name_reads (typeKeyword t.body)).andThen fun keyword hkeyword => ?_
  have hall : Reads (do
      let type ← typeDeclaration (typeKeyword t.body)
      if isNonEmpty type then return Definition.typeExtension type (some ⟨start, ← Reader.stop⟩)
      else failure)
      (.name t.name :: s.typeBodyGlyphs layout t) startsDefinition fun e =>
        s.Rereads ((Definition.typeExtension t span).same e)
          ((Definition.typeExtension t span).spansLines layout) := by
    refine (typeDeclaration_reads layout h).last (fun u hu => ?_) fun _ hnext => hnext
    rw [hu.2, if_pos hnonempty]
    exact .stop fun stop => .pure hu.1
  rw [hkeyword]
  obtain ⟨name, ds, body⟩ := t
  cases body <;> exact hall

/-- An operation is read back, bare or behind its keyword. -/
theorem definition_reads_operation (isFirst : Bool) {o : Operation} (h : o.Grammatical) :
    definition.Reads (s.operationGlyphs isFirst o) anyNext
      fun e => (Definition.operation o).same e = true := by
  refine .start fun start => .peek fun rest _ => ?_
  unfold operationGlyphs
  by_cases hbare : isBare isFirst o = true
  · rw [if_pos hbare]
    have hfirst : isBare true o = true := by
      cases isFirst with
      | true => exact hbare
      | false => cases hbare
    exact bareQuery_reads start h hfirst
  · rw [if_neg hbare]
    have hall := namedOperation_reads (s := s) start h
    obtain ⟨kind, name, vs, ds, set, span⟩ := o
    cases kind <;> exact hall

/-- A definition is read back if it is one that can be. -/
theorem definition_reads (layout : Layout) (isFirst : Bool) {d : Definition} (h : d.Grammatical)
    (hd : d.Reprintable) :
    definition.Reads (s.definitionGlyphs layout isFirst d) startsDefinition
      fun e => s.Rereads (d.same e) (d.spansLines layout) := by
  -- A definition of the type system may have a description in front; the others are known by their
  -- first word.
  cases d with
  | operation o =>
    exact ((definition_reads_operation isFirst h).imp fun _ he => .of_true he).before
      fun _ _ => trivial
  | fragment f =>
    refine .start fun start => .peek fun rest _ => ?_
    exact ((fragmentDefinition_reads start h).imp fun _ he => .of_true he).before
      fun _ _ => trivial
  | directive d declaration span =>
    refine definition_reads_system (by simp [systemWords]) fun start text htext => ?_
    refine (name_reads "directive").andThen fun keyword hkeyword => ?_
    rw [hkeyword]
    exact (directiveDeclaration_reads layout h).last
      (fun e he => .stop fun stop => .pure (htext.and he)) fun _ hnext => hnext.avoids _
  | schema d declaration span =>
    refine definition_reads_system (by simp [systemWords]) fun start text htext => ?_
    refine (name_reads "schema").andThen fun keyword hkeyword => ?_
    rw [hkeyword]
    exact (schemaDeclaration_reads h hd).last
      (fun e he => .stop fun stop => .pure (htext.and_true he)) fun _ hnext => hnext
  | schemaExtension declaration span =>
    refine .start fun start => .peek fun rest _ => ?_
    refine .peekSecond ((expect_reads (.name "extend")).andThen fun _ _ => ?_)
    refine Reads.thenAll (guard_reads rfl) (fun _ _ => ?_) fun _ _ => trivial
    refine (name_reads "schema").andThen fun keyword hkeyword => ?_
    rw [hkeyword]
    exact (schemaAddition_reads h hd).last
      (fun e he => .stop fun stop => .pure (.of_true he)) fun _ hnext => hnext
  | type d t span =>
    refine definition_reads_system ?_ fun start text htext =>
      systemDefinition_reads_type start htext h span
    cases t.body <;> simp [typeKeyword, systemWords]
  | typeExtension t span =>
    exact .start fun start => .peek fun rest _ => extension_reads_type start layout h.1 h.2 span

/-! ## Definitions that cannot be read -/

/-- A mark is no name. -/
theorem name_fails (c : Char) : name.Fails [.mark c] anyNext := by
  intro cursor rest hc _
  obtain ⟨t, tokens, htokens, hlexeme, -⟩ := hc.exists_cons
  have htake : take cursor = some (.mark c, ⟨tokens, t.span.stop⟩) := by
    rw [take, htokens, ← hlexeme]
  rw [name, bind_of_eq_some htake]
  rfl

/-- A condition that does not hold fails. -/
theorem guard_fails {p : Prop} [Decidable p] (h : ¬ p) {gs : List Glyph}
    {G : Option Lexeme → Prop} : (guard p : Reader Unit).Fails gs G := by
  have hguard : (guard p : Reader Unit) = failure := if_neg h
  rw [hguard]
  exact fun _ _ _ _ => rfl

/-- Empty braces hold no root type. -/
theorem schemaDeclaration_fails {ds : List Directive} (h : ∀ d ∈ ds, d.Grammatical true maxDepth) :
    schemaDeclaration.Fails (s.directivesGlyphs ds ++ Glyph.braces []) anyNext := by
  refine .bind (directives_reads h) (fun es _ => ?_) fun _ _ => avoids_mark.mpr (by simp)
  have hroot : rootType.Fails [.mark '\x7d'] anyNext := (name_fails _).first.first
  have hbraces : (between '\x7b' '\x7d' rootType).Fails (Glyph.braces []) anyNext :=
    .andThen (expectMark_reads _) fun _ _ => hroot.first
  exact Fails.first (.peek fun rest _ => hbraces)

/-- An extension of a schema says something. -/
theorem schemaAddition_fails (s : Surroundings) :
    schemaAddition.Fails (s.directivesGlyphs [] ++ Glyph.body (Glyph.rootTypes []))
      startsDefinition := by
  refine .bind (directives_reads nofun) (fun es hes => ?_) fun rest hrest => hrest.avoids _
  refine .last (addedRoots_reads []) (fun roots hagree => ?_) fun _ hnext => hnext.avoids _
  refine Fails.first (guard_fails ?_)
  rw [← isEmpty_eq_of_sameList hes, agree_isEmpty hagree]
  decide

/-- A definition that cannot be read is not. -/
theorem definition_fails (layout : Layout) (isFirst : Bool) {d : Definition} (h : d.Grammatical)
    (hd : ¬ d.Reprintable) :
    definition.Fails (s.definitionGlyphs layout isFirst d) startsDefinition := by
  cases d with
  | schema d declaration span =>
    -- The braces are printed with nothing between them, where a root type is expected.
    have hroots : declaration.roots = [] := Decidable.not_not.mp hd
    have hsystem : systemDefinitionWithDescription.Fails
        (s.definitionGlyphs layout isFirst (.schema d declaration span)) startsDefinition := by
      refine .look _ fun start => .bind (description_reads layout d) (fun text _ => ?_)
        fun _ _ => nofun
      refine .andThen (name_reads "schema") fun keyword hkeyword => ?_
      rw [hkeyword, hroots]
      intro c rest hc _
      exact (schemaDeclaration_fails h.directives).first hc trivial
    intro c rest hc hrest
    have heq : definition c = systemDefinitionWithDescription c := by
      rw [definitionGlyphs, List.append_assoc] at hc
      exact definition_eq_system (by simp [systemWords]) hc
    rw [heq]
    exact hsystem hc hrest
  | schemaExtension declaration span =>
    -- Nothing is printed but the keywords, and that says nothing about the schema.
    obtain ⟨ds, roots⟩ := declaration
    obtain ⟨hds, hroots⟩ : ds = [] ∧ roots = [] := by
      simpa [Definition.Reprintable, not_or] using hd
    subst hds hroots
    refine .look _ fun start => .peek fun rest _ => ?_
    refine .look _ fun second => .andThen (expect_reads (.name "extend")) fun _ _ => ?_
    by_cases hsecond : second.isSome = true
    · refine .thenAll (guard_reads hsecond) (fun _ _ => ?_) fun _ _ => trivial
      refine .andThen (name_reads "schema") fun keyword hkeyword => ?_
      rw [hkeyword]
      exact (schemaAddition_fails s).first
    · exact Fails.first (guard_fails hsecond)
  | _ => exact absurd trivial hd

/-! ## Documents -/

/-- A definition starts with a lexeme, which is a description or its keyword unless it is the first
thing written. -/
theorem exists_definitionGlyphs (s : Surroundings) (layout : Layout) (isFirst : Bool)
    (d : Definition) :
    ∃ l tail, s.definitionGlyphs layout isFirst d = .lexeme l :: tail ∧
      (isFirst = false → startsDefinition (some l)) := by
  -- With a description the definition starts with a text, otherwise with its keyword.
  have hsystem : ∀ (d : Option String) (word : String) (gs : List Glyph), word ∈ definitionWords →
      ∃ l tail, s.descriptionGlyphs layout d ++ .name word :: gs = .lexeme l :: tail ∧
        (isFirst = false → startsDefinition (some l)) := by
    intro d word gs hword
    cases d with
    | none => exact ⟨_, _, rfl, fun _ => hword⟩
    | some text => exact ⟨_, _, rfl, fun _ => trivial⟩
  cases d with
  | operation o =>
    rw [definitionGlyphs, operationGlyphs]
    by_cases hbare : isBare isFirst o = true
    · -- Only the first definition is printed without its keyword.
      rw [if_pos hbare]
      refine ⟨_, _, rfl, fun hfirst => ?_⟩
      subst hfirst
      cases hbare
    · rw [if_neg hbare]
      refine ⟨_, _, rfl, fun _ => ?_⟩
      cases o.kind <;> simp [startsDefinition, definitionWords, OperationKind.keyword]
  | fragment f => exact hsystem none "fragment" _ (by simp [definitionWords])
  | directive d declaration span => exact hsystem d "directive" _ (by simp [definitionWords])
  | schema d declaration span => exact hsystem d "schema" _ (by simp [definitionWords])
  | schemaExtension declaration span => exact hsystem none "extend" _ (by simp [definitionWords])
  | type d t span =>
    refine hsystem d (typeKeyword t.body) _ ?_
    cases t.body <;> simp [typeKeyword, definitionWords]
  | typeExtension t span => exact hsystem none "extend" _ (by simp [definitionWords])

/-- What follows a definition, if nothing follows the last one. -/
theorem startsDefinition_next (s : Surroundings) (layout : Layout) (ds : List Definition)
    {rest : List Glyph} (hrest : Glyph.next rest = none) :
    startsDefinition (Glyph.next ((ds.map (s.definitionGlyphs layout false)).flatten ++ rest)) := by
  cases ds with
  | nil =>
    rw [List.map_nil, List.flatten_nil, List.nil_append, hrest]
    trivial
  | cons d ds =>
    obtain ⟨l, tail, htail, hl⟩ := exists_definitionGlyphs s layout false d
    rw [List.map_cons, List.flatten_cons, htail]
    exact hl rfl

section Definitions

variable {layout : Layout} {isFirst : Bool} {d : Definition} {ds : List Definition} {fuel : Nat}

/-- At the end of a text there are no more definitions. -/
theorem definitionsUpTo_reads_nil (fuel : Nat) {E : Definition → Definition → Prop} :
    (definitionsUpTo fuel).Reads [] (· = none) (Agree E []) := by
  cases fuel with
  | zero => exact .pure trivial
  | succ fuel =>
    refine .peek fun rest hrest => ?_
    rw [List.nil_append, hrest]
    exact .pure trivial

/-- The end is not reached in front of a definition. -/
theorem next_definition (s : Surroundings) (layout : Layout) (isFirst : Bool) (d : Definition)
    (rest : List Glyph) :
    ¬ (Glyph.next (s.definitionGlyphs layout isFirst d ++ rest)).isNone = true := by
  obtain ⟨l, tail, htail, -⟩ := exists_definitionGlyphs s layout isFirst d
  rw [htail]
  exact Bool.false_ne_true

/-- A definition and those behind it are read back. -/
theorem definitionsUpTo_reads_cons (h : d.Grammatical) (hd : d.Reprintable)
    (hrest : (definitionsUpTo fuel).Reads (ds.map (s.definitionGlyphs layout false)).flatten
      (· = none) (Agree (fun d e => s.Rereads (d.same e) (d.spansLines layout)) ds)) :
    (definitionsUpTo (fuel + 1)).Reads
      (s.definitionGlyphs layout isFirst d ++ (ds.map (s.definitionGlyphs layout false)).flatten)
      (· = none) (Agree (fun d e => s.Rereads (d.same e) (d.spansLines layout)) (d :: ds)) := by
  refine .peek fun rest _ => ?_
  rw [List.append_assoc, if_neg (next_definition s layout isFirst d _)]
  refine (definition_reads layout isFirst h hd).bind (fun e he => ?_)
    fun rest hnext => startsDefinition_next s layout ds hnext
  exact hrest.last (fun es hes => .pure ⟨he, hes⟩) fun _ hnext => hnext

/-- A definition cannot be read or those behind it cannot. -/
theorem definitionsUpTo_fails_cons (h : d.Grammatical)
    (hfails : d.Reprintable → (definitionsUpTo fuel).Fails
      (ds.map (s.definitionGlyphs layout false)).flatten (· = none)) :
    (definitionsUpTo (fuel + 1)).Fails
      (s.definitionGlyphs layout isFirst d ++ (ds.map (s.definitionGlyphs layout false)).flatten)
      (· = none) := by
  refine .peek fun rest _ => ?_
  rw [List.append_assoc, if_neg (next_definition s layout isFirst d _)]
  by_cases hd : d.Reprintable
  · exact .bind (definition_reads layout isFirst h hd) (fun e he => (hfails hd).first)
      fun rest hnext => startsDefinition_next s layout ds hnext
  · refine Fails.first fun c rest hc hrest => ?_
    rw [List.append_assoc] at hc
    exact definition_fails layout isFirst h hd hc (startsDefinition_next s layout ds hrest)

/-- Definitions are read back one after the other, by the fuel. -/
theorem definitionsUpTo_reads (h : ∀ x ∈ ds, x.Grammatical) (hall : ∀ x ∈ ds, x.Reprintable)
    (hfuel : ds.length ≤ fuel) :
    (definitionsUpTo fuel).Reads (ds.map (s.definitionGlyphs layout false)).flatten (· = none)
      (Agree (fun d e => s.Rereads (d.same e) (d.spansLines layout)) ds) := by
  induction ds generalizing fuel with
  | nil => exact definitionsUpTo_reads_nil fuel
  | cons d ds ih =>
    obtain ⟨hd, hds⟩ := List.forall_mem_cons.mp h
    obtain ⟨hd', hds'⟩ := List.forall_mem_cons.mp hall
    cases fuel with
    | zero => exact absurd hfuel (Nat.not_succ_le_zero _)
    | succ fuel =>
      exact definitionsUpTo_reads_cons hd hd' (ih hds hds' (Nat.le_of_succ_le_succ hfuel))

/-- Of definitions one of which cannot be read none is read. -/
theorem definitionsUpTo_fails (h : ∀ x ∈ ds, x.Grammatical) (hsome : ¬ ∀ x ∈ ds, x.Reprintable)
    (hfuel : ds.length ≤ fuel) :
    (definitionsUpTo fuel).Fails (ds.map (s.definitionGlyphs layout false)).flatten
      (· = none) := by
  induction ds generalizing fuel with
  | nil => exact absurd nofun hsome
  | cons d ds ih =>
    obtain ⟨hd, hds⟩ := List.forall_mem_cons.mp h
    cases fuel with
    | zero => exact absurd hfuel (Nat.not_succ_le_zero _)
    | succ fuel =>
      refine definitionsUpTo_fails_cons hd fun hd' => ?_
      refine ih hds (fun hds' => hsome (List.forall_mem_cons.mpr ⟨hd', hds'⟩)) ?_
      exact Nat.le_of_succ_le_succ hfuel

/-- Every definition has a lexeme. -/
theorem length_le_lexemeCount (s : Surroundings) (layout : Layout) (ds : List Definition) :
    ds.length ≤ Glyph.lexemeCount (ds.map (s.definitionGlyphs layout false)).flatten := by
  induction ds with
  | nil => exact Nat.zero_le _
  | cons d ds ih =>
    obtain ⟨l, tail, htail, -⟩ := exists_definitionGlyphs s layout false d
    rw [List.map_cons, List.flatten_cons, Glyph.lexemeCount_append, htail, Glyph.lexemeCount,
      List.length_cons]
    omega

end Definitions
end Grammar

namespace Document

open Grammar

variable {s : Surroundings} {d : Document} {text : String}

/-- The tokens of a text with the glyphs of a document: there are more of them than definitions
behind the first one. -/
theorem exists_tokens {first : Definition} {rest : List Definition}
    (h : Glyph.scan? text.toList = some (s.definitionsGlyphs (.lines 0) (first :: rest)).flatten) :
    ∃ tokens fuel, Token.scan? text.toList = some tokens ∧ tokens.length = fuel + 1 ∧
      rest.length ≤ fuel ∧
      (⟨tokens, 0⟩ : Cursor).Shows (s.definitionGlyphs (.lines 0) true first ++
        (rest.map (s.definitionGlyphs (.lines 0) false)).flatten ++ []) := by
  have hkeys := Token.map_key_scan? text.toList
  rw [h, Option.map_some] at hkeys
  obtain ⟨tokens, htokens, hmap⟩ := Option.map_eq_some_iff.mp hkeys
  have hshows : (⟨tokens, 0⟩ : Cursor).Shows (s.definitionGlyphs (.lines 0) true first ++
      (rest.map (s.definitionGlyphs (.lines 0) false)).flatten) := ⟨false, hmap⟩
  have hlength : rest.length < tokens.length := by
    have hcount : tokens.length = _ := hshows.length
    have hrest := length_le_lexemeCount s (.lines 0) rest
    obtain ⟨l, tail, htail, -⟩ := exists_definitionGlyphs s (.lines 0) true first
    rw [Glyph.lexemeCount_append, htail, Glyph.lexemeCount] at hcount
    omega
  obtain ⟨fuel, hfuel⟩ := Nat.exists_eq_add_of_lt hlength
  refine ⟨tokens, rest.length + fuel, htokens, hfuel, Nat.le_add_right _ _, ?_⟩
  rwa [List.append_nil]

/-- A document is read from its glyphs if all of its definitions can be. -/
theorem parse?_of_scan? (h : d.Grammatical) (hall : d.Reprintable)
    (hscan : Glyph.scan? text.toList = some (s.definitionsGlyphs (.lines 0) d.definitions).flatten) :
    ∃ e, parse? text = some e ∧ s.Rereads (d.same e) d.spansLines := by
  obtain ⟨definitions⟩ := d
  obtain ⟨first, rest, rfl⟩ := List.exists_cons_of_ne_nil h.nonempty
  obtain ⟨hfirst, hrest⟩ := List.forall_mem_cons.mp h.definitions
  obtain ⟨hfirst', hrest'⟩ := List.forall_mem_cons.mp hall
  obtain ⟨tokens, fuel, htokens, hlength, hfuel, hshows⟩ := exists_tokens hscan
  obtain ⟨es, c, hes, -, hagree⟩ := definitionsUpTo_reads_cons hfirst hfirst'
    (definitionsUpTo_reads hrest hrest' hfuel) hshows rfl
  cases es with
  | nil => exact hagree.elim
  | cons e es =>
    refine ⟨⟨e :: es⟩, ?_, .sameList hagree⟩
    rw [← hlength] at hes
    exact parse?_eq_some_iff.mpr ⟨tokens, c, htokens, hes, List.cons_ne_nil _ _⟩

/-- No document is read from the glyphs of one with a definition that cannot be read. -/
theorem parse?_eq_none_of_scan? (h : d.Grammatical) (hsome : ¬ d.Reprintable)
    (hscan : Glyph.scan? text.toList = some (s.definitionsGlyphs (.lines 0) d.definitions).flatten) :
    parse? text = none := by
  obtain ⟨definitions⟩ := d
  obtain ⟨first, rest, rfl⟩ := List.exists_cons_of_ne_nil h.nonempty
  obtain ⟨hfirst, hrest⟩ := List.forall_mem_cons.mp h.definitions
  obtain ⟨tokens, fuel, htokens, hlength, hfuel, hshows⟩ := exists_tokens hscan
  have hnone : definitionsUpTo (fuel + 1) ⟨tokens, 0⟩ = none := by
    refine definitionsUpTo_fails_cons hfirst (fun hfirst' => ?_) hshows rfl
    refine definitionsUpTo_fails hrest (fun hrest' => hsome ?_) hfuel
    exact List.forall_mem_cons.mpr ⟨hfirst', hrest'⟩
  refine Option.eq_none_iff_forall_ne_some.mpr fun e he => ?_
  obtain ⟨tokens', c, htokens', hread, -⟩ := parse?_eq_some_iff.mp he
  rw [htokens, Option.some.injEq] at htokens'
  rw [← htokens', hlength, hnone] at hread
  cases hread

end Document
end EmbeddedGraphQL
