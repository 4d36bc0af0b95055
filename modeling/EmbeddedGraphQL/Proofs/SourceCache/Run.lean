import EmbeddedGraphQL.SourceCache

/-!
# Runs of a source cache

A source cache is used by one operation after another, in any order. Each operation gives an answer
and leaves a cache for the next one. What an operation does to the remembered texts depends only on
whether it looks a text up, and on whether that text is remembered.

* `SourceCache.Operation`, `SourceCache.Answer`: what a cache is asked and what it answers.
* `SourceCache.step`, `SourceCache.run`: one operation, and a sequence of them.
* `SourceCache.lookup_of_mem`, `SourceCache.lookup_of_not_mem`: all that a lookup can do.
* `SourceCache.counters_lookup`: which lookups are hits.
* `SourceCache.step_cases`: all that an operation can do.
-/

namespace EmbeddedGraphQL
namespace SourceCache

/-! ## Operations -/

/-- What a cache can be asked. -/
inductive Operation where
  /-- The regions of a text, from the cache if it remembers them. -/
  | get (text : String)
  /-- The regions of a text, where the cache may be bypassed. -/
  | extract (text : String) (useCache : Bool)
  /-- The region at a position of a text. -/
  | select (text : String) (position : Position)
  /-- Whether a text is remembered. -/
  | contains (text : String)
  /-- To forget all texts. -/
  | clear
deriving DecidableEq

/-- What a cache can answer. -/
inductive Answer where
  /-- All regions of a text. -/
  | regions (regions : List Region)
  /-- The region at a position, if there is one. -/
  | region (region : Option Region)
  /-- Whether a text is remembered. -/
  | remembered (answer : Bool)
  /-- Nothing was asked for. -/
  | done
deriving DecidableEq

/-- The text that an operation looks up in the cache. -/
def Operation.cached? : Operation → Option String
  | .get text => some text
  | .extract text useCache => if useCache then some text else none
  | .select text _ => some text
  | .contains _ => none
  | .clear => none

/-- One operation: its answer, and the cache it leaves. -/
def step (cache : SourceCache) : Operation → Answer × SourceCache
  | .get text => (cache.lookup text).map .regions id
  | .extract text useCache => (cache.extract text useCache).map .regions id
  | .select text p => (cache.select text p).map .region id
  | .contains text => (.remembered (cache.contains text), cache)
  | .clear => (.done, cache.clear)

/-- A sequence of operations: their answers, and the cache left by the last one. -/
def run (cache : SourceCache) : List Operation → List Answer × SourceCache
  | [] => ([], cache)
  | op :: ops =>
    let (answer, next) := cache.step op
    (next.run ops).map (answer :: ·) id

@[simp] theorem run_nil (cache : SourceCache) : cache.run [] = ([], cache) := rfl

@[simp] theorem run_cons (cache : SourceCache) (op : Operation) (ops : List Operation) :
    cache.run (op :: ops) =
      ((cache.step op).1 :: ((cache.step op).2.run ops).1, ((cache.step op).2.run ops).2) := rfl

/-! ## Lookups -/

/-- The remembered texts, most recent one first. -/
def texts (cache : SourceCache) : List String := cache.entries.map (·.1)

/-- A cache contains a text exactly if it holds it. -/
theorem contains_iff {cache : SourceCache} {text : String} :
    cache.contains text = true ↔ text ∈ cache.texts := by
  simp [contains, texts]

/-- The lookup of a remembered text gives the regions stored with it and moves it to the front. -/
theorem lookup_of_mem {cache : SourceCache} {text : String} (h : text ∈ cache.texts) :
    ∃ regions, (text, regions) ∈ cache.entries ∧
      cache.lookup text = (regions,
        { cache with
          entries := (text, regions) :: cache.entries.filter (·.1 ≠ text)
          hits := cache.hits + 1 }) := by
  have hfound : (cache.entries.find? (·.1 = text)).isSome := by
    rw [List.find?_isSome]
    obtain ⟨entry, hentry, rfl⟩ := List.mem_map.mp h
    exact ⟨entry, hentry, decide_eq_true rfl⟩
  obtain ⟨⟨key, regions⟩, hentry⟩ := Option.isSome_iff_exists.mp hfound
  have hkey : key = text := by simpa using List.find?_some hentry
  subst hkey
  refine ⟨regions, List.mem_of_find?_eq_some hentry, ?_⟩
  rw [lookup, hentry]

/-- The lookup of any other text extracts its regions and puts it in front, where the last text may
have to go. -/
theorem lookup_of_not_mem {cache : SourceCache} {text : String} (h : text ∉ cache.texts) :
    cache.lookup text = (cache.extractor.extract text,
      { cache with
        entries := ((text, cache.extractor.extract text) :: cache.entries).take cache.capacity
        misses := cache.misses + 1 }) := by
  have hmissing : cache.entries.find? (·.1 = text) = none := by
    rw [List.find?_eq_none]
    intro entry hentry hkey
    exact h (List.mem_map.mpr ⟨entry, hentry, of_decide_eq_true hkey⟩)
  rw [lookup, hmissing]

/-- A lookup keeps the extractor and the capacity. -/
theorem settings_lookup (cache : SourceCache) (text : String) :
    (cache.lookup text).2.extractor = cache.extractor ∧
      (cache.lookup text).2.capacity = cache.capacity := by
  by_cases h : text ∈ cache.texts
  · obtain ⟨regions, -, hlookup⟩ := lookup_of_mem h
    rw [hlookup]
    exact ⟨rfl, rfl⟩
  · rw [lookup_of_not_mem h]
    exact ⟨rfl, rfl⟩

/-- A lookup is a hit exactly if its text is remembered, and otherwise a miss. -/
theorem counters_lookup (cache : SourceCache) (text : String) :
    ((cache.lookup text).2.hits, (cache.lookup text).2.misses) =
      if text ∈ cache.texts then (cache.hits + 1, cache.misses)
      else (cache.hits, cache.misses + 1) := by
  split
  · rename_i h
    obtain ⟨regions, -, hlookup⟩ := lookup_of_mem h
    rw [hlookup]
  · rename_i h
    rw [lookup_of_not_mem h]

/-! ## Steps -/

/-- All that an operation can do: look a text up, extract past the cache, ask, or forget. -/
theorem step_cases (cache : SourceCache) (op : Operation) :
    (∃ text, op.cached? = some text ∧ (cache.step op).2 = (cache.lookup text).2) ∨
      (∃ text, op = .extract text false ∧
        (cache.step op).2 = { cache with misses := cache.misses + 1 }) ∨
      (∃ text, op = .contains text ∧ (cache.step op).2 = cache) ∨
      (op = .clear ∧ (cache.step op).2 = cache.clear) := by
  cases op with
  | get text => exact .inl ⟨text, rfl, rfl⟩
  | extract text useCache =>
    cases useCache with
    | false => exact .inr (.inl ⟨text, rfl, rfl⟩)
    | true => exact .inl ⟨text, rfl, rfl⟩
  | select text p => exact .inl ⟨text, rfl, rfl⟩
  | contains text => exact .inr (.inr (.inl ⟨text, rfl, rfl⟩))
  | clear => exact .inr (.inr (.inr ⟨rfl, rfl⟩))

/-- An operation that looks a text up leaves the cache that the lookup leaves. -/
theorem step_of_cached {op : Operation} {text : String} (h : op.cached? = some text)
    (cache : SourceCache) : (cache.step op).2 = (cache.lookup text).2 := by
  obtain ⟨text', htext', hstep⟩ | ⟨_, rfl, -⟩ | ⟨_, rfl, -⟩ | ⟨rfl, -⟩ := cache.step_cases op
  · rw [hstep, Option.some.inj (htext'.symm.trans h)]
  all_goals cases h

/-- Every operation keeps the extractor and the capacity. -/
theorem settings_step (cache : SourceCache) (op : Operation) :
    (cache.step op).2.extractor = cache.extractor ∧
      (cache.step op).2.capacity = cache.capacity := by
  obtain ⟨text, -, hstep⟩ | ⟨_, -, hstep⟩ | ⟨_, -, hstep⟩ | ⟨-, hstep⟩ := cache.step_cases op
  · rw [hstep]
    exact cache.settings_lookup text
  all_goals
    rw [hstep]
    exact ⟨rfl, rfl⟩

end SourceCache
end EmbeddedGraphQL
