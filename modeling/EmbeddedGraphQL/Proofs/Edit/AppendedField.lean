import EmbeddedGraphQL.Proofs.Edit.AddedField
import EmbeddedGraphQL.Proofs.Record.Stable
import EmbeddedGraphQL.Proofs.Schema.Named

/-!
# Appended fields

A field that is added comes last in the set of the located node, and nothing else in the document
changes. All that is new stands behind the located node, so the same path leads there again, and
the field is found to be there.

* `Schema.IsNamed.newSelection_eq_ok_of_some`: when there is a new selection.
* `Document.addField_of_hasField`, `Document.addField_of_new`: adding a field, case by case.
* `Document.locate?_of_append`: where selections are appended is located again.
* `Document.addField_appends_once`: the contract of adding a field.
-/

namespace EmbeddedGraphQL

namespace Schema

variable {schema : Schema} {typeName fieldName : String}

/-- A field is unknown exactly if it is not `__typename` and not declared. -/
theorem fieldType?_eq_none_iff : schema.fieldType? typeName fieldName = none ↔
    fieldName ≠ typenameField ∧ schema.field? typeName fieldName = none := by
  rw [fieldType?]
  split <;> simp_all

/-- There is no new selection of an unknown field. -/
theorem newSelection_of_none (h : schema.fieldType? typeName fieldName = none) :
    schema.newSelection typeName fieldName = .error (.unknownField typeName fieldName) := by
  rw [newSelection, h]

/-- A field that is known has a name, so there is a new selection of it. -/
theorem IsNamed.newSelection_eq_ok_of_some (hschema : schema.IsNamed)
    {declaration : Option FieldDeclaration} {type : TypeRef}
    (h : schema.fieldType? typeName fieldName = some (declaration, type)) :
    schema.newSelection typeName fieldName =
      .ok (Selection.newField fieldName (schema.scaffoldUnder type)) := by
  have hname : isName fieldName = true := by
    rw [fieldType?] at h
    split at h
    · rename_i htypename
      subst htypename
      decide
    · obtain ⟨f, hf, -⟩ := Option.map_eq_some_iff.mp h
      exact (hschema.field? hf).1
  simp [newSelection, h, checkedName, hname, bind, Except.bind, pure, Except.pure]

end Schema

namespace Document

variable {schema : Schema} {d d' : Document} {path typeName fieldName : String} {a : Address}
  {n : Node}

/-! ## Adding a field, case by case -/

/-- A field that is there already is not added again. -/
theorem addField_of_hasField (hlocate : Record.locate? schema d path = some a)
    (hn : d.get? a = some n) (hfield : Selection.hasField n.selections fieldName = true) :
    d.addField schema path typeName fieldName = .ok (some d) := by
  rw [addField, hlocate]
  simp only [hn, hfield, if_true]

/-- Otherwise it depends on the schema. -/
theorem addField_of_new (typeName : String) (hlocate : Record.locate? schema d path = some a)
    (hn : d.get? a = some n) (hfield : Selection.hasField n.selections fieldName = false) :
    d.addField schema path typeName fieldName =
      (schema.newSelection typeName fieldName).map fun field =>
        some ((d.set? a (n.withSelections (n.selections ++ [field]))).getD d) := by
  rw [addField, hlocate]
  simp only [hn, hfield, modify?_eq_set? hn]
  cases schema.newSelection typeName fieldName <;> rfl

/-- What adding a field can do: nothing if the path leads nowhere or the field is there, an error if
the field is unknown, and otherwise the field comes last in the set of the located node. -/
theorem addField_cases (hschema : schema.IsNamed) (d : Document)
    (path typeName fieldName : String) :
    (Record.locate? schema d path = none ∧
        d.addField schema path typeName fieldName = .ok none) ∨
      ∃ a n, Record.locate? schema d path = some a ∧ d.get? a = some n ∧
        ((Selection.hasField n.selections fieldName = true ∧
            d.addField schema path typeName fieldName = .ok (some d)) ∨
          (Selection.hasField n.selections fieldName = false ∧
            schema.fieldType? typeName fieldName = none ∧
            d.addField schema path typeName fieldName =
              .error (.unknownField typeName fieldName)) ∨
          (Selection.hasField n.selections fieldName = false ∧
            (schema.fieldType? typeName fieldName).isSome = true ∧
            ∃ set d', d.set? a (n.withSelections
                (n.selections ++ [Selection.newField fieldName set])) = some d' ∧
              d.addField schema path typeName fieldName = .ok (some d'))) := by
  cases hlocate : Record.locate? schema d path with
  | none => exact .inl ⟨rfl, by rw [addField, hlocate]⟩
  | some a =>
    obtain ⟨n, hn⟩ := Record.exists_get?_of_locate? hlocate
    refine .inr ⟨a, n, rfl, hn, ?_⟩
    cases hfield : Selection.hasField n.selections fieldName with
    | true => exact .inl ⟨rfl, addField_of_hasField hlocate hn hfield⟩
    | false =>
      -- The schema decides before anything is written.
      have hadd := addField_of_new typeName hlocate hn hfield
      cases hknown : schema.fieldType? typeName fieldName with
      | none =>
        rw [Schema.newSelection_of_none hknown] at hadd
        exact .inr (.inl ⟨rfl, rfl, hadd⟩)
      | some found =>
        rw [hschema.newSelection_eq_ok_of_some hknown] at hadd
        obtain ⟨d', hset⟩ := exists_set? hn (n.sameKind_withSelections _)
        refine .inr (.inr ⟨rfl, rfl, schema.scaffoldUnder found.2, d', hset, hadd.trans ?_⟩)
        rw [Except.map, hset, Option.getD_some]

/-- Adding a field gives none exactly if nothing has the path. -/
theorem addField_eq_none_iff (hschema : schema.IsNamed) :
    d.addField schema path typeName fieldName = .ok none ↔
      ∀ s : Standing, s.In d → s.path.display ≠ path := by
  rw [← Record.locate?_eq_none_iff_in schema]
  rcases addField_cases hschema d path typeName fieldName with
    ⟨hlocate, hadd⟩ | ⟨a, n, hlocate, -, ⟨-, hadd⟩ | ⟨-, -, hadd⟩ | ⟨-, -, set, d', -, hadd⟩⟩ <;>
    simp [hlocate, hadd]

/-- Adding a field fails exactly if there is a node that does not have it, and the schema does not
have it either. -/
theorem addField_eq_error_iff (hschema : schema.IsNamed) {e : EditError} :
    d.addField schema path typeName fieldName = .error e ↔
      e = .unknownField typeName fieldName ∧ schema.fieldType? typeName fieldName = none ∧
        ∃ a n, Record.locate? schema d path = some a ∧ d.get? a = some n ∧
          Selection.hasField n.selections fieldName = false := by
  rcases addField_cases hschema d path typeName fieldName with
    ⟨hlocate, hadd⟩ | ⟨a, n, hlocate, hn, ⟨hfield, hadd⟩ | ⟨hfield, hknown, hadd⟩ |
      ⟨hfield, hknown, set, d', hset, hadd⟩⟩
  · simp [hadd, hlocate]
  · simp [hadd, hlocate, hn, hfield]
  · simp [hadd, hlocate, hn, hfield, hknown, @eq_comm _ e]
  · simp [hadd, Option.isSome_iff_ne_none.mp hknown]

/-- A field that the schema has and the located node has not is appended. -/
theorem exists_addField_of_known (hschema : schema.IsNamed)
    (hlocate : Record.locate? schema d path = some a) (hn : d.get? a = some n)
    (hfield : Selection.hasField n.selections fieldName = false)
    (hknown : (schema.fieldType? typeName fieldName).isSome = true) :
    ∃ set d', d.set? a (n.withSelections
        (n.selections ++ [Selection.newField fieldName set])) = some d' ∧
      d.addField schema path typeName fieldName = .ok (some d') := by
  rcases addField_cases hschema d path typeName fieldName with
    ⟨hnone, -⟩ | ⟨b, k, hb, hk, hcases⟩
  · exact absurd (hlocate.symm.trans hnone) (by simp)
  · obtain rfl := Option.some.inj (hlocate.symm.trans hb)
    obtain rfl := Option.some.inj (hn.symm.trans hk)
    rcases hcases with ⟨hthere, -⟩ | ⟨-, hunknown, -⟩ | ⟨-, -, hadded⟩
    · exact absurd (hfield.symm.trans hthere) (by decide)
    · rw [hunknown] at hknown
      cases hknown
    · exact hadded

/-! ## The document after appending -/

/-- A node that selects more still selects what it did first. -/
theorem selections_prefix_append (n : Node) (more : List Selection) :
    n.selections <+: (n.withSelections (n.selections ++ more)).selections := by
  rw [Node.selections_withSelections]
  exact List.prefix_append _ _

section Append

variable {more : List Selection} (hn : d.get? a = some n)
  (hset : d.set? a (n.withSelections (n.selections ++ more)) = some d')
include hn hset

/-- A document grows where selections are appended. -/
theorem Grows.of_append : d.Grows d' :=
  .of_set? hn hset (Node.outline_of_head (n.head_withSelections _)) (selections_prefix_append n _)

/-- Where selections are appended, every node stays as it is, except for what it selects. -/
theorem exists_head_of_append {b : Address} {k : Node} (hk : d.get? b = some k) :
    ∃ k', d'.get? b = some k' ∧ k'.head = k.head := by
  by_cases hne : b = a
  · subst hne
    obtain rfl := Option.some.inj (hn.symm.trans hk)
    exact ⟨_, get?_set? hset, n.head_withSelections _⟩
  · exact exists_head_of_ne hn hset (selections_prefix_append n _) hk hne

/-- Where selections are appended, the path that led there leads there again: all that is new comes
after it. -/
theorem locate?_of_append (hlocate : Record.locate? schema d path = some a) :
    Record.locate? schema d' path = some a := by
  -- New records may have this path as well, but none of them can come before the located node.
  refine (Grows.of_append hn hset).locate?_eq_some hlocate fun t ht hnew _ => ?_
  exact not_before_of_new hn hset (selections_prefix_append n _) ht hnew

end Append

/-- Adding a field that was appended changes nothing. -/
theorem addField_of_append {set : List Selection}
    (hlocate : Record.locate? schema d path = some a) (hn : d.get? a = some n)
    (hset : d.set? a (n.withSelections
      (n.selections ++ [Selection.newField fieldName set])) = some d') :
    d'.addField schema path typeName fieldName = .ok (some d') := by
  refine addField_of_hasField (locate?_of_append hn hset hlocate) (get?_set? hset) ?_
  rw [Node.selections_withSelections]
  exact Selection.hasField_append_newField ..

/-- Adding a field gives none exactly if nothing has the path. It changes nothing if the located
node selects a field of the name already. It fails exactly if the located node does not, and the
field is neither `__typename` nor declared on the type, and then says so. Otherwise one field of the
name is appended to what the located node selects, and nothing else changes: writing the old node
back gives the old document, every node keeps its address and all but its selections, a path that
none of the new records has leads where it led before, and adding the field again changes
nothing. -/
theorem addField_appends_once (hschema : schema.IsNamed) (d : Document)
    (path typeName fieldName : String) :
    (d.addField schema path typeName fieldName = .ok none ↔
        ∀ s : Standing, s.In d → s.path.display ≠ path) ∧
      (∀ a n, Record.locate? schema d path = some a → d.get? a = some n →
        (∃ f set, .field f set ∈ n.selections ∧ f.name = fieldName) →
        d.addField schema path typeName fieldName = .ok (some d)) ∧
      (∀ e, d.addField schema path typeName fieldName = .error e ↔
        e = .unknownField typeName fieldName ∧ fieldName ≠ typenameField ∧
          schema.field? typeName fieldName = none ∧
          ∃ a n, Record.locate? schema d path = some a ∧ d.get? a = some n ∧
            ∀ f set, .field f set ∈ n.selections → f.name ≠ fieldName) ∧
      ∀ a n, Record.locate? schema d path = some a → d.get? a = some n →
        (∀ f set, .field f set ∈ n.selections → f.name ≠ fieldName) →
        (fieldName = typenameField ∨
          ∃ declaration, schema.field? typeName fieldName = some declaration) →
        ∃ set d', d.addField schema path typeName fieldName = .ok (some d') ∧
          d.set? a (n.withSelections
            (n.selections ++ [Selection.newField fieldName set])) = some d' ∧
          d'.set? a n = some d ∧
          (∀ b k, d.get? b = some k → ∃ k', d'.get? b = some k' ∧ k'.head = k.head) ∧
          (∀ q, (∀ t ∈ d'.candidates, d.get? t.address = none → t.path.display ≠ q) →
            Record.locate? schema d' q = Record.locate? schema d q) ∧
          d'.addField schema path typeName fieldName = .ok (some d') := by
  simp only [← Selection.hasField_eq_false_iff, ← Selection.hasField_iff]
  refine ⟨addField_eq_none_iff hschema, ?_, ?_, ?_⟩
  · intro a n hlocate hn hfield
    exact addField_of_hasField hlocate hn hfield
  · intro e
    rw [addField_eq_error_iff hschema, Schema.fieldType?_eq_none_iff, and_assoc]
  · intro a n hlocate hn hfield hknown
    -- The field has a type, as it is `__typename` or declared.
    have hsome : (schema.fieldType? typeName fieldName).isSome = true := by
      rw [Option.isSome_iff_ne_none, Ne, Schema.fieldType?_eq_none_iff]
      rintro ⟨htypename, hnone⟩
      rcases hknown with hname | ⟨declaration, hdeclared⟩
      · exact htypename hname
      · exact absurd (hdeclared.symm.trans hnone) (by simp)
    -- What is new is below the node, so that the rest is seen from the set that has grown.
    obtain ⟨set, d', hset, hadd⟩ := exists_addField_of_known hschema hlocate hn hfield hsome
    refine ⟨set, d', hadd, hset, (set?_set? hset n).trans (set?_get? hn), ?_, ?_, ?_⟩
    · exact fun b k hk => exists_head_of_append hn hset hk
    · exact fun q hnew => (Grows.of_append hn hset).locate?_eq hnew
    · exact addField_of_append hlocate hn hset

/-- The schema of `friends`, as a text. -/
def friendsText : String := "type Query { name: String friend: Query }"

/-- The document `{ friend { name } a: friend { friend { name } } }`. -/
def twoFriends : Document :=
  ⟨[.operation ⟨.query, none, [], [],
    [.newField "friend" [.newField "name" []],
      .field ⟨some "a", "friend", [], [], none⟩ [.newField "friend" [.newField "name" []]]],
    none⟩]⟩

/-- The first of two fields of one path gets a field, and keeps it when it is added again. -/
theorem addField_appends_once_twoFriends :
    ∃ schema d', Schema.ofTexts? [friendsText] = some schema ∧
      Record.locate? schema twoFriends "fragment_friend" = some ⟨0, [0]⟩ ∧
      twoFriends.addField schema "fragment_friend" "Query" "friend" = .ok (some d') ∧
      d'.addField schema "fragment_friend" "Query" "friend" = .ok (some d') ∧
      d'.set? ⟨0, [0]⟩ (.field ⟨none, "friend", [], [], none⟩ [.newField "name" []]) =
        some twoFriends := by
  have hfound : ((Schema.ofTexts? [friendsText]).map fun schema =>
      (Record.locate? schema twoFriends "fragment_friend",
        (schema.field? "Query" "friend").isSome)) = some (some ⟨0, [0]⟩, true) := by
    decide +kernel
  obtain ⟨schema, hschema, heq⟩ := Option.map_eq_some_iff.mp hfound
  obtain ⟨hlocate, hsome⟩ := Prod.mk.inj heq
  obtain ⟨-, -, -, happend⟩ := addField_appends_once (Schema.isNamed_of_ofTexts? hschema)
    twoFriends "fragment_friend" "Query" "friend"
  obtain ⟨set, d', hadd, -, hback, -, -, hagain⟩ := happend ⟨0, [0]⟩
    (.field ⟨none, "friend", [], [], none⟩ [.newField "name" []]) hlocate rfl
    (Selection.hasField_eq_false_iff.mp rfl) (.inr (Option.isSome_iff_exists.mp hsome))
  exact ⟨schema, d', hschema, hlocate, hadd, hagain, hback⟩

end Document
end EmbeddedGraphQL
