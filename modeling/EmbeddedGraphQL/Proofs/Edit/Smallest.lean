import EmbeddedGraphQL.Proofs.Edit.Innermost

/-!
# The last and the smallest selection set around a range of lines

The last set around a range of lines is no larger than the sets it is in. It can be larger than a
set in front of it, if the owner of that one ends on the line where its own starts.

* `SetSight.extent`: over how many lines the owner of a set goes on.
* `Document.extent_le_or_endsBefore`: a set around the lines is not smaller than the last one, or
  ends in front of it.
* `Enclosing.target_smallest_iff`: when the target of a fragment or of a spread is a smallest set.
* `Enclosing.not_target_smallest`: it is not always one.
-/

namespace EmbeddedGraphQL

namespace SetSight

/-- By how many lines the owner of a set goes beyond its first line. -/
def extent (index : LineIndex) (x : SetSight) : Nat :=
  x.owner.elim 0 fun span => (index.position span.stop).line - (index.position span.start).line

/-- An owner inside another one has no greater extent. -/
theorem extent_le_of_within {index : LineIndex} {x y : SetSight} {inner outer : Span}
    (hx : x.owner = some inner) (hy : y.owner = some outer) (hwithin : inner.Within outer) :
    x.extent index ≤ y.extent index := by
  have hstart := index.line_mono hwithin.1
  have hstop := index.line_mono hwithin.2
  simp only [extent, hx, hy, Option.elim_some]
  omega

end SetSight

namespace Document

variable {schema : Schema} {index : LineIndex} {lines : LineRange} {d : Document} {x y : SetSight}
  {text : String}

/-- A set around some lines has no smaller extent than the last one, unless it ends before it. -/
theorem extent_le_or_endsBefore (h : parse? text = some d)
    (hx : (d.setsAround schema index lines).getLast? = some x)
    (hy : y ∈ d.setsAround schema index lines) :
    x.extent index ≤ y.extent index ∨ y.EndsBefore x := by
  obtain ⟨hyset, haround⟩ := mem_setsAround_iff.mp hy
  have hxset := (mem_setsAround_iff.mp (List.mem_of_getLast? hx)).1
  rcases precedes_or_of_getLast? h hx hyset with rfl | hprecedes | ⟨-, hnot⟩
  · exact .inl (Nat.le_refl _)
  · by_cases hin : y.address.InSet 0 x.address
    · obtain ⟨inner, hinner⟩ := exists_owner h hxset
      obtain ⟨outer, houter⟩ := exists_owner h hyset
      exact .inl (SetSight.extent_le_of_within hinner houter
        (hprecedes.inside hin outer houter inner hinner))
    · exact .inr (hprecedes.behind hin)
  · -- The sets behind the last one are not around the lines.
    simp [haround] at hnot

/-- Of two sets around some lines, one in front of the other, the first one ends and the second one
starts between the last and the first of the lines, hence both on the same line if there is only
one. -/
theorem exists_shared_of_endsBefore (h : parse? text = some d)
    (hy : y ∈ d.setsAround schema index lines) (hx : x ∈ d.setsAround schema index lines)
    (hends : y.EndsBefore x) :
    ∃ first ∈ y.owner, ∃ second ∈ x.owner,
      lines.last ≤ (index.position first.stop).line ∧
        (index.position first.stop).line ≤ (index.position second.start).line ∧
        (index.position second.start).line ≤ lines.first := by
  obtain ⟨hyset, hyaround⟩ := mem_setsAround_iff.mp hy
  obtain ⟨hxset, hxaround⟩ := mem_setsAround_iff.mp hx
  obtain ⟨first, hfirst⟩ := exists_owner h hyset
  obtain ⟨second, hsecond⟩ := exists_owner h hxset
  refine ⟨first, hfirst, second, hsecond, ?_, ?_, ?_⟩
  · exact ((SetSight.isAround_iff hfirst).mp hyaround).2
  · exact index.line_mono (hends first hfirst second hsecond)
  · exact ((SetSight.isAround_iff hsecond).mp hxaround).1

end Document

namespace Enclosing

variable {schema : Schema} {d : Document} {source : String} {lines : LineRange} {a : Address}

/-- The target of a fragment or of a spread is the last set around the lines. -/
theorem exists_getLast?_of_target
    (h : (FragmentPlan.find? schema d source lines).map (·.target) = some a ∨
      (SpreadPlace.find? schema d source lines).map (·.target) = some a) :
    ∃ x, (d.setsAround schema (LineIndex.ofString source) lines).getLast? = some x ∧
      x.address = a := by
  -- Both plans start from the innermost set around the lines, which is the last of those around
  -- them.
  have hfound : ∃ found, find? schema d source lines = some found ∧ found.set.address = a := by
    rcases h with h | h
    · obtain ⟨plan, hplan, rfl⟩ := Option.map_eq_some_iff.mp h
      obtain ⟨found, hfound, hplan⟩ := Option.bind_eq_some_iff.mp hplan
      simp only at hplan
      split at hplan
      · cases hplan
      · cases hplan
        exact ⟨found, hfound, rfl⟩
    · obtain ⟨place, hplace, rfl⟩ := Option.map_eq_some_iff.mp h
      obtain ⟨found, hfound, hplace⟩ := Option.bind_eq_some_iff.mp hplace
      cases hplace
      exact ⟨found, hfound, rfl⟩
  obtain ⟨found, hfound, rfl⟩ := hfound
  have hset := map_set_find? schema d source lines
  rw [hfound, Option.map_some] at hset
  obtain ⟨x, hx, hset⟩ := Option.bind_eq_some_iff.mp hset.symm
  exact ⟨x, hx, (SetSight.eq_of_enclosing? hset).2.symm⟩

/-- The target of a fragment or of a spread is smallest among the sets around the lines exactly if
it is not greater than those whose owners end before its own. Such an owner ends on the line
where that of the target starts or before it, between the last and the first of the lines; so a
range of several lines has the smallest set around it as its target. -/
theorem target_smallest_iff (h : Document.parse? source = some d)
    (ha : (FragmentPlan.find? schema d source lines).map (·.target) = some a ∨
      (SpreadPlace.find? schema d source lines).map (·.target) = some a) :
    let index := LineIndex.ofString source
    let around := d.setsAround schema index lines
    ∃ x ∈ around, x.address = a ∧
      ((∀ y ∈ around, x.extent index ≤ y.extent index) ↔
        ∀ y ∈ around, y.EndsBefore x → x.extent index ≤ y.extent index) ∧
      (∀ y ∈ around, y.EndsBefore x → ∃ first ∈ y.owner, ∃ second ∈ x.owner,
        lines.last ≤ (index.position first.stop).line ∧
          (index.position first.stop).line ≤ (index.position second.start).line ∧
          (index.position second.start).line ≤ lines.first) ∧
      (lines.first < lines.last → ∀ y ∈ around, x.extent index ≤ y.extent index) := by
  intro index around
  obtain ⟨x, hlast, hx⟩ := exists_getLast?_of_target ha
  have hmem : x ∈ around := List.mem_of_getLast? hlast
  have hsmall : ∀ y ∈ around, x.extent index ≤ y.extent index ∨ y.EndsBefore x :=
    fun y hy => Document.extent_le_or_endsBefore h hlast hy
  refine ⟨x, hmem, hx, ⟨fun hall y hy _ => hall y hy, fun hall y hy => ?_⟩, ?_, ?_⟩
  · exact (hsmall y hy).elim id (hall y hy)
  · exact fun y hy hends => Document.exists_shared_of_endsBefore h hy hmem hends
  · intro hseveral y hy
    refine (hsmall y hy).elim id fun hends => ?_
    -- No owner in front of another one reaches to the last of several lines from the first.
    obtain ⟨first, -, second, -, hle⟩ := Document.exists_shared_of_endsBefore h hy hmem hends
    omega

/-- The first two lines have the set of `a` as their target, the smallest one around them. -/
theorem target_smallest_iff_sharedLine :
    ∃ d, Document.parse? sharedLine = some d ∧
      (FragmentPlan.find? nestedQueries d sharedLine ⟨0, 1⟩).map (·.target) = some ⟨0, [0]⟩ ∧
      ∃ x ∈ d.setsAround nestedQueries (.ofString sharedLine) ⟨0, 1⟩, x.address = ⟨0, [0]⟩ ∧
        ∀ y ∈ d.setsAround nestedQueries (.ofString sharedLine) ⟨0, 1⟩,
          x.extent (.ofString sharedLine) ≤ y.extent (.ofString sharedLine) := by
  have htarget : ((Document.parse? sharedLine).bind fun d =>
      (FragmentPlan.find? nestedQueries d sharedLine ⟨0, 1⟩).map (·.target)) =
        some ⟨0, [0]⟩ := by
    decide +kernel
  obtain ⟨d, hd, htarget⟩ := Option.bind_eq_some_iff.mp htarget
  obtain ⟨x, hx, haddress, -, -, hsmallest⟩ := target_smallest_iff hd (.inl htarget)
  exact ⟨d, hd, htarget, x, hx, haddress, hsmallest (by decide)⟩

/-- The second line has the set of `b` as its target, although that of `c` in front of it is
smaller. -/
theorem not_target_smallest :
    ¬ ∀ (schema : Schema) (source : String) (d : Document) (lines : LineRange) (a : Address),
      Document.parse? source = some d →
      ((FragmentPlan.find? schema d source lines).map (·.target) = some a ∨
        (SpreadPlace.find? schema d source lines).map (·.target) = some a) →
      ∀ x ∈ d.setsAround schema (.ofString source) lines, x.address = a →
        ∀ y ∈ d.setsAround schema (.ofString source) lines,
          ¬ y.extent (.ofString source) < x.extent (.ofString source) := by
  intro h
  have hchoice : ((Document.parse? sharedLine).bind fun d =>
      if (FragmentPlan.find? nestedQueries d sharedLine ⟨1, 1⟩).map (·.target) =
          some ⟨0, [1]⟩ then
        some ((d.setsAround nestedQueries (.ofString sharedLine) ⟨1, 1⟩).map fun x =>
          (x.address, x.extent (.ofString sharedLine)))
      else none) =
        some [(⟨0, []⟩, 2), (⟨0, [0]⟩, 1), (⟨0, [0, 0]⟩, 0), (⟨0, [1]⟩, 1)] := by
    decide +kernel
  -- The target, with an extent of 1, is behind the set of `c`, with an extent of 0.
  obtain ⟨d, hd, hchoice⟩ := Option.bind_eq_some_iff.mp hchoice
  obtain ⟨htarget, hsets⟩ := Option.ite_none_right_eq_some.mp hchoice
  have hmem : ∀ p ∈ [((⟨0, [0, 0]⟩ : Address), 0), (⟨0, [1]⟩, 1)],
      ∃ x ∈ d.setsAround nestedQueries (.ofString sharedLine) ⟨1, 1⟩,
        (x.address, x.extent (.ofString sharedLine)) = p := by
    intro p hp
    rw [← List.mem_map, Option.some.inj hsets]
    exact List.mem_cons_of_mem _ (List.mem_cons_of_mem _ hp)
  obtain ⟨y, hy, heq⟩ := hmem (⟨0, [0, 0]⟩, 0) (by decide)
  obtain ⟨-, hyextent⟩ := Prod.mk.inj heq
  obtain ⟨x, hx, heq⟩ := hmem (⟨0, [1]⟩, 1) (by decide)
  obtain ⟨hxaddress, hxextent⟩ := Prod.mk.inj heq
  have hsmallest := h nestedQueries sharedLine d ⟨1, 1⟩ _ hd (.inl htarget) x hx hxaddress y hy
  omega

end Enclosing
end EmbeddedGraphQL
