import EmbeddedGraphQL.Proofs.Document.Placement
import EmbeddedGraphQL.Proofs.Document.Spans

/-!
# Nesting and spans

Of two parts of a document, the one that comes first in document order either has the other one
inside its selection set or stands in front of it. The spans of a document that was read from a text
show which of the two it is: the second span lies inside the first one, or it starts behind its end.

* `Span.Within`: one span inside another.
* `Standing.LaidOut`: the spans of two parts are as their addresses say.
* `Document.standings_laidOut`: in a document that was read, all parts are laid out.
-/

namespace EmbeddedGraphQL

/-- Whether a span lies inside another one. -/
def Span.Within (inner outer : Span) : Prop :=
  outer.start ≤ inner.start ∧ inner.stop ≤ outer.stop

/-- What is inside the set of one selection is not inside that of another selection of the same
set. -/
theorem Address.not_inSet_of_branch (a : Address) {i j : Nat} (h : i ≠ j) (p q : List Nat)
    (first : Nat) :
    ¬ InSet ⟨a.definition, a.selections ++ i :: p⟩ first
      ⟨a.definition, a.selections ++ j :: q⟩ := by
  rintro ⟨index, rest, -, heq⟩
  have hselections := congrArg Address.selections heq
  simp only [List.append_assoc, List.append_cancel_left_eq, List.cons_append,
    List.cons.injEq] at hselections
  exact h hselections.1.symm

namespace Standing

/-- Whether the spans of two parts of a document, the first one before the second one, are as their
addresses say: the second one is inside the first one if it is in its set, and behind it else. -/
structure LaidOut (t u : Standing) : Prop where
  inside : t.address.InSet 0 u.address → ∀ outer ∈ t.span, ∀ inner ∈ u.span, inner.Within outer
  behind : ¬ t.address.InSet 0 u.address →
    ∀ outer ∈ t.span, ∀ inner ∈ u.span, outer.stop ≤ inner.start

/-- Whether a part of a document has a span between two byte offsets. -/
def SpannedIn (lo hi : Nat) (s : Standing) : Prop :=
  ∃ span, s.span = some span ∧ lo ≤ span.start ∧ span.start ≤ span.stop ∧ span.stop ≤ hi

variable {lo lo' hi hi' : Nat} {s t u : Standing}

/-- What is spanned inside bounds is spanned inside wider ones. -/
theorem SpannedIn.mono (h : s.SpannedIn lo hi) (hlo : lo' ≤ lo) (hhi : hi ≤ hi') :
    s.SpannedIn lo' hi' := by
  obtain ⟨span, hspan, hstart, hle, hstop⟩ := h
  exact ⟨span, hspan, by omega, hle, by omega⟩

/-- A part in the set of another one is laid out if it lies in its span. -/
theorem LaidOut.of_inSet {span : Span} (hspan : t.span = some span)
    (hu : u.SpannedIn span.start span.stop) (hset : t.address.InSet 0 u.address) : LaidOut t u where
  inside _ outer houter inner hinner := by
    obtain ⟨uspan, huspan, hstart, -, hstop⟩ := hu
    cases hspan.symm.trans houter
    cases huspan.symm.trans hinner
    exact ⟨hstart, hstop⟩
  behind hne := absurd hset hne

/-- A part outside the set of another one is laid out if it starts behind it. -/
theorem LaidOut.of_behind {mid mid' : Nat} (ht : t.SpannedIn lo mid) (hu : u.SpannedIn mid' hi)
    (hmid : mid ≤ mid') (hset : ¬ t.address.InSet 0 u.address) : LaidOut t u where
  inside h := absurd h hset
  behind _ outer houter inner hinner := by
    obtain ⟨tspan, htspan, -, -, hstop⟩ := ht
    obtain ⟨uspan, huspan, hstart, -⟩ := hu
    cases htspan.symm.trans houter
    cases huspan.symm.trans hinner
    omega

end Standing

/-! ## Parts of definitions -/

/-- What stands in the set of a node lies in the span of the node and is laid out. -/
theorem Standing.laidOut_cons {address : Address} {ancestors : List Node} {n : Node} {span : Span}
    {lo hi : Nat} (hspan : n.span = some span) (hstart : lo ≤ span.start)
    (hle : span.start ≤ span.stop) (hstop : span.stop ≤ hi)
    (h : (∀ t ∈ Selection.setStandings address (n :: ancestors) 0 n.selections,
        t.SpannedIn span.start span.stop) ∧
      (Selection.setStandings address (n :: ancestors) 0 n.selections).Pairwise LaidOut) :
    (∀ t ∈ ⟨address, ancestors, .node n⟩ ::
        Selection.setStandings address (n :: ancestors) 0 n.selections, t.SpannedIn lo hi) ∧
      (⟨address, ancestors, .node n⟩ ::
        Selection.setStandings address (n :: ancestors) 0 n.selections).Pairwise LaidOut := by
  obtain ⟨hspanned, hlaid⟩ := h
  obtain ⟨-, hset⟩ := Selection.setStandings_ordered address (n :: ancestors) 0 n.selections
  refine ⟨List.forall_mem_cons.mpr ⟨⟨span, hspan, hstart, hle, hstop⟩, ?_⟩,
    List.pairwise_cons.mpr ⟨?_, hlaid⟩⟩
  · exact fun t ht => (hspanned t ht).mono hstart hstop
  · exact fun t ht => .of_inSet hspan (hspanned t ht) (hset t ht)

namespace Selection

mutual

/-- What stands in a placed selection stands between its bounds and is laid out. -/
theorem PlacedIn.standings {lo hi : Nat} (s : Selection) (h : s.PlacedIn lo hi)
    (address : Address) (ancestors : List Node) :
    (∀ t ∈ s.standings address ancestors, t.SpannedIn lo hi) ∧
      (s.standings address ancestors).Pairwise Standing.LaidOut := by
  cases s with
  | field f set =>
    obtain ⟨span, hspan, hstart, hle, hstop, hset⟩ := h
    exact Standing.laidOut_cons (n := .field f set) hspan hstart hle hstop
      (PlacedSet.standings set hset address (.field f set :: ancestors) 0)
  | inline f set =>
    obtain ⟨span, hspan, hstart, hle, hstop, hset⟩ := h
    exact Standing.laidOut_cons (n := .inline f set) hspan hstart hle hstop
      (PlacedSet.standings set hset address (.inline f set :: ancestors) 0)
  | spread s =>
    rw [Selection.standings]
    exact ⟨List.forall_mem_singleton.mpr h, List.pairwise_singleton _ _⟩

/-- What stands in a placed set stands between its bounds and is laid out. -/
theorem PlacedSet.standings {lo hi : Nat} (set : List Selection) (h : PlacedSet lo hi set)
    (owner : Address) (ancestors : List Node) (first : Nat) :
    (∀ t ∈ setStandings owner ancestors first set, t.SpannedIn lo hi) ∧
      (setStandings owner ancestors first set).Pairwise Standing.LaidOut := by
  cases set with
  | nil => simp [setStandings]
  | cons s rest =>
    obtain ⟨mid, hs, hmid, hrest⟩ := h
    obtain ⟨span, -, hstart, hle, hstop, -⟩ := hs.span
    obtain ⟨hsSpanned, hsLaid⟩ := PlacedIn.standings s hs (owner.child first) ancestors
    obtain ⟨hrestSpanned, hrestLaid⟩ := PlacedSet.standings rest hrest owner ancestors (first + 1)
    rw [setStandings]
    refine ⟨List.forall_mem_append.mpr ⟨?_, ?_⟩,
      List.pairwise_append.mpr ⟨hsLaid, hrestLaid, ?_⟩⟩
    · exact fun t ht => (hsSpanned t ht).mono (Nat.le_refl _) hmid
    · exact fun t ht => (hrestSpanned t ht).mono (by omega) (Nat.le_refl _)
    · -- What is in the first selection ends before the others start, and their addresses branch.
      intro t ht u hu
      refine .of_behind (hsSpanned t ht) (hrestSpanned u hu) (Nat.le_refl _) ?_
      obtain ⟨p, hp⟩ :=
        Address.exists_eq_of_child ((standings_ordered (owner.child first) ancestors s).2 t ht)
      obtain ⟨index, q, hindex, hq⟩ :=
        (setStandings_ordered owner ancestors (first + 1) rest).2 u hu
      rw [hp, hq]
      exact owner.not_inSet_of_branch (by omega) p q 0

end

end Selection

/-- What stands in a placed node lies in its span and is laid out. -/
theorem Node.Placed.standings {n : Node} (h : n.Placed) (index : Nat) :
    ∃ span ∈ n.span, (∀ t ∈ n.standings index, t.SpannedIn span.start span.stop) ∧
      (n.standings index).Pairwise Standing.LaidOut := by
  obtain ⟨span, hspan, hle, hset⟩ := h
  exact ⟨span, hspan, Standing.laidOut_cons hspan (Nat.le_refl _) hle (Nat.le_refl _)
    (Selection.PlacedSet.standings n.selections hset (.ofDefinition index) [n] 0)⟩

namespace Definition

variable {x : Definition}

/-- What stands in a placed definition lies in its span. -/
theorem Placed.exists_spannedIn (h : x.Placed) {index : Nat} {t : Standing}
    (ht : t ∈ x.standings index) :
    ∃ n ∈ Node.ofDefinition? x, ∃ span ∈ n.span, t.SpannedIn span.start span.stop := by
  unfold standings at ht
  cases hn : Node.ofDefinition? x with
  | none => simp [hn] at ht
  | some n =>
    rw [hn] at ht
    obtain ⟨span, hspan, hspanned, -⟩ := (h n hn).standings index
    exact ⟨n, rfl, span, hspan, hspanned t ht⟩

/-- What stands in a placed definition is laid out. -/
theorem Placed.laidOut (h : x.Placed) (index : Nat) :
    (x.standings index).Pairwise Standing.LaidOut := by
  unfold standings
  cases hn : Node.ofDefinition? x with
  | none => exact .nil
  | some n =>
    obtain ⟨span, -, -, hlaid⟩ := (h n hn).standings index
    exact hlaid

end Definition

/-! ## Documents -/

namespace Document

variable {text : String} {d : Document}

/-- Everything that stands in a document has a span, which starts before it ends. -/
theorem exists_span (h : parse? text = some d) {s : Standing} (hs : s ∈ d.standings) :
    ∃ span, s.span = some span ∧ span.start ≤ span.stop := by
  obtain ⟨⟨x, index⟩, hx, hs⟩ := List.mem_flatMap.mp hs
  have hplaced := placed_of_parse? h x (List.fst_mem_of_mem_zipIdx hx)
  obtain ⟨-, -, -, -, span, hspan, -, hle, -⟩ := hplaced.exists_spannedIn hs
  exact ⟨span, hspan, hle⟩

/-- In a document that was read from a text, everything is laid out as the addresses say. -/
theorem standings_laidOut (h : parse? text = some d) :
    d.standings.Pairwise Standing.LaidOut := by
  have hplaced : ∀ p ∈ d.definitions.zipIdx, p.1.Placed :=
    fun p hp => placed_of_parse? h p.1 (List.fst_mem_of_mem_zipIdx hp)
  have hends : d.definitions.zipIdx.Pairwise fun p q => p.1.EndsBefore q.1 := by
    rw [← List.pairwise_map (f := Prod.fst), List.zipIdx_map_fst]
    exact pairwise_endsBefore h
  rw [standings, List.pairwise_flatMap]
  refine ⟨fun p hp => (hplaced p hp).laidOut p.2, ?_⟩
  refine ((hends.and (zipIdx_pairwise d.definitions)).imp_of_mem ?_)
  rintro p q hp hq ⟨hpq, hlt⟩ t ht u hu
  obtain ⟨m, hm, first, hfirst, ht'⟩ := (hplaced p hp).exists_spannedIn ht
  obtain ⟨n, hn, second, hsecond, hu'⟩ := (hplaced q hq).exists_spannedIn hu
  refine .of_behind ht' hu' (hpq m hm n hn first hfirst second hsecond) ?_
  -- What is in the set of something is in the same definition.
  rintro ⟨index, rest, -, heq⟩
  have htp : t.address.definition = p.2 := (p.1.standings_ordered p.2).2 t ht
  have huq : u.address.definition = q.2 := (q.1.standings_ordered q.2).2 u hu
  have hsame : u.address.definition = t.address.definition := by rw [heq]
  omega

end Document
end EmbeddedGraphQL
