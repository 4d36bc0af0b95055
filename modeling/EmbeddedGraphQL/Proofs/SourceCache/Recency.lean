import EmbeddedGraphQL.Proofs.SourceCache.Run

/-!
# Which texts a source cache remembers

A source cache keeps a list of texts and moves the looked up one to its front. It knows nothing of
the operations it was used by, and yet it remembers exactly the different texts that were looked up
last since it was cleared, as many as it has room for, in the order of their last lookups.

* `SourceCache.lookedUp`, `SourceCache.recent`: the texts looked up in a history of operations, and
  the different ones among the last of them.
* `SourceCache.texts_lookup`: what one lookup makes of the remembered texts.
* `SourceCache.texts_run`: the remembered texts after any history.
* `SourceCache.run_remembers_recent`: contents, size and hits of the cache after any history.
-/

namespace EmbeddedGraphQL
namespace SourceCache

/-! ## Histories -/

/-- The texts that a history of operations has looked up in the cache since it was last cleared,
last one first. -/
def lookedUp (ops : List Operation) : List String :=
  (ops.reverse.takeWhile (· ≠ .clear)).filterMap Operation.cached?

/-- The different texts that were looked up last, last one first and at most `capacity` of them. -/
def recent (capacity : Nat) (ops : List Operation) : List String :=
  -- Of a text that was looked up several times only the first place stays: its last lookup.
  (lookedUp ops).eraseDups.take capacity

@[simp] theorem recent_nil (capacity : Nat) : recent capacity [] = [] := List.take_nil

/-- A look-up that is cached comes to the front. -/
theorem lookedUp_of_cached {op : Operation} {text : String} (h : op.cached? = some text)
    (ops : List Operation) : lookedUp (ops ++ [op]) = text :: lookedUp ops := by
  have hclear : op ≠ .clear := by
    rintro rfl
    cases h
  simp [lookedUp, hclear, h]

/-- An operation that caches nothing and clears nothing leaves the look-ups. -/
theorem lookedUp_of_not_cached {op : Operation} (h : op.cached? = none) (hclear : op ≠ .clear)
    (ops : List Operation) : lookedUp (ops ++ [op]) = lookedUp ops := by
  simp [lookedUp, hclear, h]

@[simp] theorem lookedUp_clear (ops : List Operation) : lookedUp (ops ++ [.clear]) = [] := by
  simp [lookedUp]

/-! ## Different texts -/

section Distinct

variable {α : Type} [DecidableEq α]

/-- Leaving some elements out commutes with leaving repetitions out. -/
theorem eraseDups_filter (p : α → Bool) (l : List α) :
    (l.filter p).eraseDups = l.eraseDups.filter p := by
  -- The elements equal to the first one go before the recursion does, so it is on the length.
  induction hlength : l.length using Nat.strongRecOn generalizing l with
  | ind n ih =>
    cases l with
    | nil => rfl
    | cons a l =>
      have hrest : ((l.filter fun b => !b == a).filter p).eraseDups =
          (l.filter fun b => !b == a).eraseDups.filter p := by
        refine ih _ ?_ _ rfl
        rw [← hlength]
        exact Nat.lt_succ_of_le (List.length_filter_le _ _)
      rw [List.eraseDups_cons]
      by_cases ha : p a = true
      · rw [List.filter_cons_of_pos ha, List.filter_cons_of_pos ha, List.eraseDups_cons, ← hrest,
          List.filter_filter, List.filter_filter]
        simp only [Bool.and_comm]
      · rw [List.filter_cons_of_neg ha, List.filter_cons_of_neg ha, ← hrest, List.filter_filter]
        congr 1
        refine List.filter_congr fun b _ => ?_
        by_cases hb : b = a
        · simp [hb, Bool.eq_false_iff.mpr ha]
        · simp [hb]

/-- One more element in front of a list replaces the same element further back. -/
theorem eraseDups_cons_eq (a : α) (l : List α) :
    (a :: l).eraseDups = a :: l.eraseDups.filter (· ≠ a) := by
  rw [List.eraseDups_cons, eraseDups_filter]
  congr 2
  funext b
  by_cases hb : b = a <;> simp [hb]

/-- A list with its duplicates erased has no duplicates. -/
theorem nodup_eraseDups (l : List α) : l.eraseDups.Nodup := by
  induction l with
  | nil => exact List.nodup_nil
  | cons a l ih =>
    rw [eraseDups_cons_eq, List.nodup_cons]
    exact ⟨by simp, ih.filter _⟩

/-- Among the first elements of a list, one that stands further back is not missed. -/
theorem take_filter_of_not_mem {a : α} {n : Nat} {l : List α} (h : a ∉ l.take n) :
    (l.filter (· ≠ a)).take n = l.take n := by
  induction l generalizing n with
  | nil => rfl
  | cons b l ih =>
    cases n with
    | zero => simp
    | succ n =>
      rw [List.take_succ_cons, List.mem_cons, not_or] at h
      rw [List.filter_cons_of_pos (by simpa using Ne.symm h.1), List.take_succ_cons, ih h.2,
        List.take_succ_cons]

/-- Taking out what is not there changes nothing. -/
theorem filter_ne_eq_self {a : α} {l : List α} (h : a ∉ l) : l.filter (· ≠ a) = l := by
  refine List.filter_eq_self.mpr fun b hb => decide_eq_true ?_
  rintro rfl
  exact h hb

/-- Of different elements, one that stands among the first makes room for one more when it goes. -/
theorem take_filter_of_mem {a : α} {n : Nat} {l : List α} (hl : l.Nodup) (h : a ∈ l.take (n + 1)) :
    (l.filter (· ≠ a)).take n = (l.take (n + 1)).filter (· ≠ a) := by
  induction l generalizing n with
  | nil => simp
  | cons b l ih =>
    obtain ⟨hb, hl⟩ := List.nodup_cons.mp hl
    rw [List.take_succ_cons] at h ⊢
    by_cases hab : b = a
    · -- It stands first: all others stay.
      subst hab
      have hbtake : b ∉ l.take n := fun hmem => hb (List.mem_of_mem_take hmem)
      rw [List.filter_cons_of_neg (by simp), List.filter_cons_of_neg (by simp),
        filter_ne_eq_self hb, filter_ne_eq_self hbtake]
    · have hmem : a ∈ l.take n := (List.mem_cons.mp h).resolve_left (Ne.symm hab)
      cases n with
      | zero => cases hmem
      | succ n =>
        rw [List.filter_cons_of_pos (by simpa using hab),
          List.filter_cons_of_pos (by simpa using hab), List.take_succ_cons, ih hl hmem]

end Distinct

/-! ## Remembered texts -/

/-- A lookup puts its text in front of the remembered ones, where it replaces itself or else the
last one if there is no room left. -/
theorem texts_lookup (cache : SourceCache) (text : String) :
    (cache.lookup text).2.texts =
      if text ∈ cache.texts then text :: cache.texts.filter (· ≠ text)
      else (text :: cache.texts).take cache.capacity := by
  split
  · rename_i h
    obtain ⟨regions, -, hlookup⟩ := lookup_of_mem h
    rw [hlookup, texts, texts, List.map_cons, List.filter_map]
    rfl
  · rename_i h
    rw [lookup_of_not_mem h, texts, texts, List.map_take, List.map_cons]

/-- If the first of some different texts are remembered, then after a lookup the first of them are
with the looked up one put in front. -/
theorem texts_lookup_of_take {cache : SourceCache} {different : List String}
    (hdifferent : different.Nodup) (h : cache.texts = different.take cache.capacity)
    (text : String) :
    (cache.lookup text).2.texts =
      (text :: different.filter (· ≠ text)).take cache.capacity := by
  obtain ⟨n, hn⟩ := Nat.exists_eq_add_one.mpr cache.capacity_pos
  rw [texts_lookup, h, hn]
  split
  · -- A hit: the text leaves its old place, so that all others stay.
    rename_i hmem
    rw [List.take_succ_cons, take_filter_of_mem hdifferent hmem]
  · -- A miss: the text stands too far back, or nowhere, and the last of a full cache goes.
    rename_i hmem
    have hfirst : text ∉ different.take n :=
      fun hmem' => hmem (List.take_subset_take_left _ (Nat.le_succ n) hmem')
    rw [List.take_succ_cons, List.take_succ_cons, take_filter_of_not_mem hfirst, List.take_take,
      Nat.min_eq_left (Nat.le_succ n)]

/-- One operation more in the history: the remembered texts stay the recent ones. -/
theorem texts_step {cache : SourceCache} {history : List Operation}
    (h : cache.texts = recent cache.capacity history) (op : Operation) :
    (cache.step op).2.texts = recent (cache.step op).2.capacity (history ++ [op]) := by
  rw [(cache.settings_step op).2]
  obtain ⟨text, hcached, hstep⟩ | ⟨text, rfl, hstep⟩ | ⟨text, rfl, hstep⟩ | ⟨rfl, hstep⟩ :=
    cache.step_cases op
  · rw [hstep, recent, lookedUp_of_cached hcached, eraseDups_cons_eq]
    exact texts_lookup_of_take (nodup_eraseDups _) h text
  · rw [hstep, recent, lookedUp_of_not_cached rfl (by simp)]
    exact h
  · rw [hstep, recent, lookedUp_of_not_cached rfl (by simp)]
    exact h
  · rw [hstep, recent, lookedUp_clear, List.eraseDups_nil, List.take_nil]
    rfl

/-- Any operations more in the history: the remembered texts stay the recent ones. -/
theorem texts_run {cache : SourceCache} {history : List Operation}
    (h : cache.texts = recent cache.capacity history) (ops : List Operation) :
    (cache.run ops).2.texts = recent cache.capacity (history ++ ops) := by
  induction ops generalizing cache history with
  | nil => rw [run_nil, List.append_nil, h]
  | cons op ops ih =>
    rw [run_cons, ih (texts_step h op), (cache.settings_step op).2, List.append_assoc,
      List.singleton_append]

/-- After any history of operations a cache remembers exactly the recent texts, in the order of
their last lookups, and never more than it has room for. The next lookup is a hit if its text is
one of them and a miss otherwise. Asking for a text and extracting past the cache change neither
the remembered texts nor their order. -/
theorem run_remembers_recent (e : Extractor) (capacity : Nat) (hcapacity : 0 < capacity)
    (ops : List Operation) :
    let cache := ((empty e capacity hcapacity).run ops).2
    cache.texts = recent capacity ops ∧
      (∀ text, cache.contains text = true ↔ text ∈ recent capacity ops) ∧
      cache.size ≤ capacity ∧
      (∀ op text, op.cached? = some text →
        ((cache.step op).2.hits, (cache.step op).2.misses) =
          if text ∈ recent capacity ops then (cache.hits + 1, cache.misses)
          else (cache.hits, cache.misses + 1)) ∧
      ∀ text, (cache.step (.contains text)).2.entries = cache.entries ∧
        (cache.step (.extract text false)).2.entries = cache.entries := by
  intro cache
  -- The texts are the recent ones from the start on, and each operation keeps that.
  have htexts : cache.texts = recent capacity ops := by
    have hempty : (empty e capacity hcapacity).texts = recent capacity [] := by
      rw [recent_nil]
      rfl
    exact texts_run hempty ops
  refine ⟨htexts, ?_, ?_, ?_, ?_⟩
  · intro text
    rw [contains_iff, htexts]
  · calc cache.size = cache.texts.length := (List.length_map _).symm
      _ = (recent capacity ops).length := by rw [htexts]
      _ ≤ capacity := List.length_take_le _ _
  · intro op text hcached
    rw [step_of_cached hcached, counters_lookup, htexts]
  · intro text
    exact ⟨rfl, rfl⟩

/-- A history in which a text that was looked up early is looked up again before a third one. -/
def touchedHistory : List Operation :=
  [.get "a", .clear, .get "a", .get "b", .extract "c" false, .extract "a" true, .contains "b",
    .select "d" ⟨0, 0⟩]

/-- With room for two texts the one that was not looked up again has to go. -/
theorem run_remembers_recent_touched :
    let cache := ((empty ⟨.reScript, ["relay"]⟩ 2 (by decide)).run touchedHistory).2
    cache.texts = ["d", "a"] ∧ cache.contains "b" ≠ true ∧
      (cache.step (.get "a")).2.hits = cache.hits + 1 ∧
      (cache.step (.get "b")).2.misses = cache.misses + 1 := by
  intro cache
  have hrecent : recent 2 touchedHistory = ["d", "a"] := by decide +kernel
  obtain ⟨htexts, hcontains, -, hcounters, -⟩ :=
    run_remembers_recent ⟨.reScript, ["relay"]⟩ 2 (by decide) touchedHistory
  rw [hrecent] at htexts hcontains hcounters
  refine ⟨htexts, ?_, ?_, ?_⟩
  · rw [Ne, hcontains]
    decide
  · exact congrArg Prod.fst (hcounters (.get "a") "a" rfl)
  · exact congrArg Prod.snd (hcounters (.get "b") "b" rfl)

end SourceCache
end EmbeddedGraphQL
