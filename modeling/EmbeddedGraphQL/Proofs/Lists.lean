import Mathlib.Data.List.Basic

/-!
# Lists

Facts about lists that do not depend on what they are lists of.

* `intercalate_cons_map`: lists in a row, with separators.
* `zipIdx_pairwise`, `flatMap_zipIdx`: the entries of a list with their numbers.
* `find?_eq_some_iff_of_pairwise`, `find?_of_mem_of_distinct`: which entry a search finds.
* `foldlM_invariant`, `foldl_or_eq`: what a fold keeps.
-/

namespace EmbeddedGraphQL

variable {α β : Type}

/-! ## Rows and numbers -/

/-- A row of lists has a separator in front of each list but the first. -/
theorem intercalate_cons_map (sep first : List β) (f : α → List β) (xs : List α) :
    List.intercalate sep (first :: xs.map f) = first ++ xs.flatMap fun y => sep ++ f y := by
  induction xs generalizing first with
  | nil => simp
  | cons y xs ih =>
    rw [List.map_cons, List.intercalate_cons_of_ne_nil (by simp), ih (f y), List.flatMap_cons]
    simp

/-- A list may be gone through with its numbers. -/
theorem flatMap_zipIdx (l : List α) (f : α → List β) :
    l.flatMap f = l.zipIdx.flatMap fun p => f p.1 := by
  rw [← List.flatMap_map Prod.fst f, List.zipIdx_map_fst]

/-- The numbers of a list increase from left to right. -/
theorem zipIdx_pairwise (l : List α) : l.zipIdx.Pairwise fun p q => p.2 < q.2 := by
  rw [← List.pairwise_map (f := Prod.snd), List.zipIdx_map_snd]
  exact List.pairwise_lt_range'

/-! ## Ordered lists and distinct keys -/

/-- Two entries of a list are the same, or one comes first. -/
theorem eq_or_of_pairwise {R : α → α → Prop} {l : List α} (h : l.Pairwise R) {x y : α}
    (hx : x ∈ l) (hy : y ∈ l) : x = y ∨ R x y ∨ R y x := by
  obtain ⟨i, hi, rfl⟩ := List.getElem_of_mem hx
  obtain ⟨j, hj, rfl⟩ := List.getElem_of_mem hy
  rcases Nat.lt_trichotomy i j with hlt | rfl | hlt
  · exact .inr (.inl (List.pairwise_iff_getElem.mp h i j hi hj hlt))
  · exact .inl rfl
  · exact .inr (.inr (List.pairwise_iff_getElem.mp h j i hj hi hlt))

/-- In an ordered list, the first entry of a kind is the one that no other one of the kind comes
before. -/
theorem find?_eq_some_iff_of_pairwise {R : α → α → Prop} {p : α → Bool} {l : List α}
    (h : l.Pairwise R) (hasymm : ∀ {x y}, R x y → ¬ R y x) {a : α} :
    l.find? p = some a ↔ a ∈ l ∧ p a = true ∧ ∀ b ∈ l, p b = true → ¬ R b a := by
  constructor
  · intro hfind
    obtain ⟨hp, before, after, rfl, hbefore⟩ := List.find?_eq_some_iff_append.mp hfind
    refine ⟨by simp, hp, fun b hb hpb hR => ?_⟩
    obtain ⟨-, hafter, -⟩ := List.pairwise_append.mp h
    rcases List.mem_append.mp hb with hb | hb
    · exact absurd hpb (by simpa using hbefore b hb)
    · rcases List.mem_cons.mp hb with rfl | hb
      · exact hasymm hR hR
      · exact hasymm hR ((List.pairwise_cons.mp hafter).1 b hb)
  · rintro ⟨ha, hp, hfirst⟩
    obtain ⟨before, after, rfl⟩ := List.append_of_mem ha
    refine List.find?_eq_some_iff_append.mpr ⟨hp, before, after, rfl, fun b hb => ?_⟩
    have hR : R b a := (List.pairwise_append.mp h).2.2 b hb a List.mem_cons_self
    simpa using fun hpb => hfirst b (List.mem_append_left _ hb) hpb hR

/-- What is in a list with distinct keys is found by its key. -/
theorem find?_of_mem_of_distinct {key : α → String} {l : List α} {a : α}
    (hl : (l.map key).Nodup) (ha : a ∈ l) : l.find? (fun b => key b = key a) = some a := by
  induction l with
  | nil => cases ha
  | cons b l ih =>
    obtain ⟨hb, hl⟩ := List.nodup_cons.mp hl
    rcases List.mem_cons.mp ha with rfl | ha
    · exact List.find?_cons_of_pos (by simp)
    · have hne : key b ≠ key a := fun heq => hb (heq ▸ List.mem_map_of_mem ha)
      rw [List.find?_cons_of_neg (by simpa using hne), ih hl ha]

/-! ## Folds -/

/-- What every step of a fold keeps, the fold keeps. -/
theorem foldlM_invariant {step : β → α → Option β} {I : β → Prop} {Q : α → Prop}
    (hstep : ∀ {b a b'}, I b → Q a → step b a = some b' → I b') {l : List α} {b b' : β}
    (hl : ∀ a ∈ l, Q a) (hb : I b) (h : l.foldlM step b = some b') : I b' := by
  induction l generalizing b with
  | nil => exact Option.some.inj h ▸ hb
  | cons a l ih =>
    obtain ⟨next, hnext, hrest⟩ := Option.bind_eq_some_iff.mp h
    obtain ⟨ha, hl⟩ := List.forall_mem_cons.mp hl
    exact ih hl (hstep hb ha hnext) hrest

/-- A fold that keeps the first result it meets. -/
theorem foldl_or_eq (f : α → Option β) (l : List α) (found : Option β) :
    l.foldl (fun found a => found.or (f a)) found = found.or (l.findSome? f) := by
  induction l generalizing found with
  | nil => simp
  | cons a l ih =>
    rw [List.foldl_cons, ih, List.findSome?_cons, Option.or_assoc]
    cases f a <;> rfl

/-- What a list is mapped to comes from something in it. -/
theorem exists_of_mem_mapM {f : α → Option β} {as : List α} {bs : List β}
    (h : as.mapM f = some bs) {b : β} (hb : b ∈ bs) : ∃ a ∈ as, f a = some b := by
  induction as generalizing bs with
  | nil =>
    cases h
    cases hb
  | cons a as ih =>
    simp only [List.mapM_cons, Option.bind_eq_bind, Option.bind_eq_some_iff, Option.pure_def,
      Option.some.injEq] at h
    obtain ⟨first, hfirst, rest, hrest, rfl⟩ := h
    rcases List.mem_cons.mp hb with rfl | hb
    · exact ⟨a, List.mem_cons_self, hfirst⟩
    · obtain ⟨a', ha', heq⟩ := ih hrest hb
      exact ⟨a', List.mem_cons_of_mem _ ha', heq⟩

end EmbeddedGraphQL
