import Mathlib.Data.List.Forall2
import EmbeddedGraphQL.Proofs.SourceCache.Run

/-!
# What a source cache answers

Whatever a source cache was asked before, it gives the regions that the extractor would give, since
every remembered text stands with its own regions. Its counters tell how much work that took: the
misses count the runs of the extractor, and hits and misses together the questions for regions.

The extractor is a function and leaves no trace of its runs. To count them, the cache is run with an
extraction that may have effects, here one that counts itself; that run gives the same answers and
leaves the same cache as the run without effects.

* `SourceCache.Sound`: every remembered text stands with its own regions.
* `SourceCache.lookupWith`, `SourceCache.stepWith`, `SourceCache.runWith`: the cache with an
  extraction that may have effects.
* `SourceCache.runWith_counted`: the runs of the extractor are the misses.
* `SourceCache.run_answers_fresh`: answers and counters of any sequence of operations.
-/

namespace EmbeddedGraphQL
namespace SourceCache

/-! ## Remembered regions -/

/-- Whether every remembered text stands with the regions that the extractor finds in it. -/
def Sound (cache : SourceCache) : Prop :=
  ∀ entry ∈ cache.entries, entry.2 = cache.extractor.extract entry.1

/-- A lookup gives the regions of its text, and what is remembered stays sound. -/
theorem Sound.lookup {cache : SourceCache} (h : cache.Sound) (text : String) :
    (cache.lookup text).1 = cache.extractor.extract text ∧ (cache.lookup text).2.Sound := by
  by_cases hmem : text ∈ cache.texts
  · obtain ⟨regions, hentry, hlookup⟩ := lookup_of_mem hmem
    have hregions : regions = cache.extractor.extract text := h _ hentry
    rw [hlookup]
    refine ⟨hregions, List.forall_mem_cons.mpr ⟨hregions, ?_⟩⟩
    intro entry hkept
    exact h entry (List.mem_of_mem_filter hkept)
  · rw [lookup_of_not_mem hmem]
    refine ⟨rfl, ?_⟩
    intro entry htaken
    obtain rfl | hentry := List.mem_cons.mp (List.mem_of_mem_take htaken)
    · rfl
    · exact h entry hentry

/-- Every operation keeps what is remembered sound. -/
theorem Sound.step {cache : SourceCache} (h : cache.Sound) (op : Operation) :
    (cache.step op).2.Sound := by
  obtain ⟨text, -, hstep⟩ | ⟨_, -, hstep⟩ | ⟨_, -, hstep⟩ | ⟨-, hstep⟩ := cache.step_cases op
  · rw [hstep]
    exact (h.lookup text).2
  · rw [hstep]
    exact h
  · rw [hstep]
    exact h
  · rw [hstep]
    exact List.forall_mem_nil _

/-! ## Answers -/

/-- What an operation that asks for regions is answered without a cache. -/
def Operation.fresh? (e : Extractor) : Operation → Option Answer
  | .get text => some (.regions (e.extract text))
  | .extract text _ => some (.regions (e.extract text))
  | .select text p => some (.region (Region.selectAt (e.extract text) text p))
  | .contains _ => none
  | .clear => none

/-- Whether an operation asks for regions. -/
def Operation.asksRegions : Operation → Bool
  | .get _ => true
  | .extract _ _ => true
  | .select _ _ => true
  | .contains _ => false
  | .clear => false

/-- An operation is answered as it is without a cache. -/
theorem Sound.answer {cache : SourceCache} (h : cache.Sound) {op : Operation} {fresh : Answer}
    (hfresh : op.fresh? cache.extractor = some fresh) : (cache.step op).1 = fresh := by
  cases op with
  | get text =>
    cases hfresh
    exact congrArg Answer.regions (h.lookup text).1
  | extract text useCache =>
    cases hfresh
    cases useCache with
    | false => rfl
    | true => exact congrArg Answer.regions (h.lookup text).1
  | select text p =>
    cases hfresh
    exact congrArg (fun regions => Answer.region (Region.selectAt regions text p)) (h.lookup text).1
  | contains text => cases hfresh
  | clear => cases hfresh

/-- All operations of a run are answered as they are without a cache. -/
theorem Sound.answers {cache : SourceCache} (h : cache.Sound) (ops : List Operation) :
    List.Forall₂ (fun op answer => ∀ fresh, op.fresh? cache.extractor = some fresh → answer = fresh)
      ops (cache.run ops).1 := by
  induction ops generalizing cache with
  | nil => exact .nil
  | cons op ops ih =>
    refine .cons (fun fresh hfresh => h.answer hfresh) ?_
    -- The other operations are asked of the next cache, which has the same extractor.
    rw [← (cache.settings_step op).1]
    exact ih (h.step op)

/-! ## Counters -/

/-- A lookup is counted once. -/
theorem counted_lookup (cache : SourceCache) (text : String) :
    (cache.lookup text).2.hits + (cache.lookup text).2.misses = cache.hits + cache.misses + 1 := by
  have hcounters := cache.counters_lookup text
  split at hcounters
  all_goals
    obtain ⟨hhits, hmisses⟩ := Prod.mk.inj hcounters
    omega

/-- An operation is counted once if it asks for regions. -/
theorem counted_step (cache : SourceCache) (op : Operation) :
    (cache.step op).2.hits + (cache.step op).2.misses =
      cache.hits + cache.misses + if op.asksRegions then 1 else 0 := by
  cases op with
  | get text => exact cache.counted_lookup text
  | extract text useCache =>
    cases useCache with
    | false => rfl
    | true => exact cache.counted_lookup text
  | select text p => exact cache.counted_lookup text
  | contains text => rfl
  | clear => rfl

/-- Hits and misses count the operations of a run that ask for regions. -/
theorem counted_run (cache : SourceCache) (ops : List Operation) :
    (cache.run ops).2.hits + (cache.run ops).2.misses =
      cache.hits + cache.misses + ops.countP (·.asksRegions) := by
  induction ops generalizing cache with
  | nil => rfl
  | cons op ops ih =>
    rw [run_cons, ih, counted_step, List.countP_cons, Nat.add_assoc, Nat.add_comm (ite _ _ _)]

/-! ## Runs of the extractor -/

section Effects

variable {m : Type → Type} [Monad m]

/-- The regions of a text, where extracting them may have effects. -/
def lookupWith (cache : SourceCache) (extract : String → m (List Region)) (text : String) :
    m (List Region × SourceCache) :=
  match cache.entries.find? (·.1 = text) with
  | some entry =>
    pure (entry.2,
      { cache with
        entries := entry :: cache.entries.filter (·.1 ≠ text)
        hits := cache.hits + 1 })
  | none => do
    let regions ← extract text
    return (regions,
      { cache with
        entries := ((text, regions) :: cache.entries).take cache.capacity
        misses := cache.misses + 1 })

/-- One operation, where extracting regions may have effects. -/
def stepWith (cache : SourceCache) (extract : String → m (List Region)) :
    Operation → m (Answer × SourceCache)
  | .get text => do
    let (regions, next) ← cache.lookupWith extract text
    return (.regions regions, next)
  | .extract text true => do
    let (regions, next) ← cache.lookupWith extract text
    return (.regions regions, next)
  | .extract text false => do
    let regions ← extract text
    return (.regions regions, { cache with misses := cache.misses + 1 })
  | .select text p => do
    let (regions, next) ← cache.lookupWith extract text
    return (.region (Region.selectAt regions text p), next)
  | .contains text => return (.remembered (cache.contains text), cache)
  | .clear => return (.done, cache.clear)

/-- A sequence of operations, where extracting regions may have effects. -/
def runWith (cache : SourceCache) (extract : String → m (List Region)) :
    List Operation → m (List Answer × SourceCache)
  | [] => return ([], cache)
  | op :: ops => do
    let (answer, next) ← cache.stepWith extract op
    let (answers, last) ← next.runWith extract ops
    return (answer :: answers, last)

end Effects

/-- An extraction that counts itself. -/
def counted (e : Extractor) (text : String) : StateM Nat (List Region) := do
  modify (· + 1)
  return e.extract text

/-- A lookup runs the extractor when it is a miss. -/
theorem lookupWith_counted (cache : SourceCache) (text : String) :
    (cache.lookupWith (counted cache.extractor) text).run cache.misses =
      (cache.lookup text, (cache.lookup text).2.misses) := by
  rw [lookupWith, lookup]
  cases cache.entries.find? (·.1 = text) with
  | some entry => rfl
  | none => rfl

/-- An operation runs the extractor when it is counted as a miss. -/
theorem stepWith_counted (cache : SourceCache) (op : Operation) :
    (cache.stepWith (counted cache.extractor) op).run cache.misses =
      (cache.step op, (cache.step op).2.misses) := by
  have hlookup := cache.lookupWith_counted
  cases op with
  | get text =>
    rw [stepWith, StateT.run_bind, hlookup]
    rfl
  | extract text useCache =>
    cases useCache with
    | false => rfl
    | true =>
      rw [stepWith, StateT.run_bind, hlookup]
      rfl
  | select text p =>
    rw [stepWith, StateT.run_bind, hlookup]
    rfl
  | contains text => rfl
  | clear => rfl

/-- With the runs of the extractor counted on from the misses of the cache, a run gives the same
answers, leaves the same cache, and ends with the misses of that cache. -/
theorem runWith_counted (cache : SourceCache) (ops : List Operation) :
    (cache.runWith (counted cache.extractor) ops).run cache.misses =
      (cache.run ops, (cache.run ops).2.misses) := by
  induction ops generalizing cache with
  | nil => rfl
  | cons op ops ih =>
    have hrest := ih (cache.step op).2
    rw [(cache.settings_step op).1] at hrest
    rw [runWith, StateT.run_bind, stepWith_counted]
    -- The first operation is done; what is left is the run of the others behind its answer.
    change ((cache.step op).2.runWith (counted cache.extractor) ops >>= fun rest =>
      pure ((cache.step op).1 :: rest.1, rest.2)).run (cache.step op).2.misses = _
    rw [StateT.run_bind, hrest]
    rfl

/-! ## Whole runs -/

/-- For any sequence of operations on a new cache: every question for regions is answered as it is
without a cache; hits and misses together count those questions; the misses count the runs of the
extractor; and forgetting all texts keeps both counters. -/
theorem run_answers_fresh (language : HostLanguage) (tags : List String) (capacity : Nat)
    (hcapacity : 0 < capacity) (ops : List Operation) :
    let e : Extractor := ⟨language, tags⟩
    let cache := empty e capacity hcapacity
    let last := (cache.run ops).2
    List.Forall₂ (fun op answer => ∀ fresh, op.fresh? e = some fresh → answer = fresh)
        ops (cache.run ops).1 ∧
      last.hits + last.misses = ops.countP (·.asksRegions) ∧
      (cache.runWith (counted e) ops).run 0 = (cache.run ops, last.misses) ∧
      (last.step .clear).2.hits = last.hits ∧ (last.step .clear).2.misses = last.misses := by
  intro e cache last
  have hsound : cache.Sound := List.forall_mem_nil _
  refine ⟨hsound.answers ops, ?_, cache.runWith_counted ops, rfl, rfl⟩
  have hcounted := cache.counted_run ops
  rwa [show cache.hits + cache.misses = 0 from rfl, Nat.zero_add] at hcounted

/-- A history with one text that is looked up, looked up again, extracted past the cache and looked
up after it was forgotten. -/
def repeatedHistory : List Operation :=
  [.get "%relay(`a`)", .select "%relay(`a`)" ⟨0, 0⟩, .extract "%relay(`a`)" false, .contains "b",
    .clear, .extract "%relay(`a`)" true]

/-- The second question is answered from the cache, and all four are counted. -/
theorem run_answers_fresh_repeated :
    let cache := empty ⟨.reScript, ["relay"]⟩ 1 (by decide)
    let last := (cache.run repeatedHistory).2
    (cache.run repeatedHistory).1[1]? =
        some (.region (Region.selectAt ((⟨.reScript, ["relay"]⟩ : Extractor).extract
          "%relay(`a`)") "%relay(`a`)" ⟨0, 0⟩)) ∧
      last.hits + last.misses = 4 ∧
      ((cache.runWith (counted ⟨.reScript, ["relay"]⟩) repeatedHistory).run 0).2 = last.misses := by
  intro cache last
  obtain ⟨hanswers, hcounted, hruns, -⟩ :=
    run_answers_fresh .reScript ["relay"] 1 (by decide) repeatedHistory
  have hlater := (List.forall₂_cons.mp hanswers).2
  have hsecond := (List.forall₂_cons.mp hlater).1 _ rfl
  exact ⟨congrArg some hsecond, hcounted, congrArg Prod.snd hruns⟩

end SourceCache
end EmbeddedGraphQL
