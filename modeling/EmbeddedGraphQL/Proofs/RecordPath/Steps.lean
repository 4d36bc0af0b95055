import Mathlib.Data.List.DropRight
import EmbeddedGraphQL.Proofs.RecordPath.Joined

/-!
# Steps along a record path

A walk keeps a single path and steps along it: a push leads one segment further in, a pop one
segment out again, and a pop at the root leads nowhere. Any steps amount to the same on every path:
they take some segments off its end and then put others on. Steps that are balanced, so that each
pop undoes a push among them, amount to nothing, and no other steps do.

* `RecordPath.run`: the path after some steps.
* `PathEffect`, `RecordPath.run_eq_on`: what steps amount to, on every path.
* `PathStep.Balanced`, `PathStep.balanced_iff`: steps that amount to nothing.
* `RecordPath.run_tracked`: after any steps the comparison without joining compares with the joined
  path, and balanced steps lead back.
-/

namespace EmbeddedGraphQL

/-- A step along a record path. -/
inductive PathStep where
  /-- One segment further in. -/
  | push (segment : String)
  /-- One segment further out. -/
  | pop
deriving DecidableEq

namespace RecordPath

/-- The path after a step. -/
def step (p : RecordPath) : PathStep → RecordPath
  | .push segment => p.push segment
  | .pop => p.pop.2

/-- The path after some steps. -/
def run (p : RecordPath) (steps : List PathStep) : RecordPath := steps.foldl step p

end RecordPath

/-! ## Balanced steps -/

namespace PathStep

/-- Whether a step leads further in. -/
def isPush : PathStep → Bool
  | .push _ => true
  | .pop => false

/-- The number of pushes among some steps. -/
def pushes (steps : List PathStep) : Nat := steps.countP isPush

/-- The number of pops among some steps. -/
def pops (steps : List PathStep) : Nat := steps.count .pop

/-- Steps of which every pop undoes a push among them, and every push is undone: at no time were
there more pops than pushes, and in the end there are as many. -/
structure Balanced (steps : List PathStep) : Prop where
  /-- No pop is without a push before it. -/
  covered : ∀ start, start <+: steps → pops start ≤ pushes start
  /-- No push is left. -/
  closed : pops steps = pushes steps

@[simp] theorem pushes_append (s t : List PathStep) : pushes (s ++ t) = pushes s + pushes t :=
  List.countP_append

@[simp] theorem pops_append (s t : List PathStep) : pops (s ++ t) = pops s + pops t :=
  List.count_append

@[simp] theorem pushes_push (segment : String) : pushes [push segment] = 1 := rfl

@[simp] theorem pushes_pop : pushes [pop] = 0 := rfl

@[simp] theorem pops_push (segment : String) : pops [push segment] = 0 := rfl

@[simp] theorem pops_pop : pops [pop] = 1 := rfl

end PathStep

/-! ## What steps amount to -/

/-- What some steps do to a path. -/
@[ext]
structure PathEffect where
  /-- How many segments of the path are taken off. -/
  taken : Nat
  /-- The segments that are then put on. -/
  put : List String
deriving DecidableEq

namespace PathEffect

/-- What nothing amounts to. -/
def nothing : PathEffect := ⟨0, []⟩

/-- The effect with one step more. A pop takes back the last segment that was put on, and only if
there is none it takes one off the path. -/
def after (e : PathEffect) : PathStep → PathEffect
  | .push segment => ⟨e.taken, e.put ++ [segment]⟩
  | .pop => if e.put = [] then ⟨e.taken + 1, []⟩ else ⟨e.taken, e.put.dropLast⟩

/-- What some steps amount to. -/
def of (steps : List PathStep) : PathEffect := steps.foldl after nothing

/-- The path that an effect makes of a path. -/
def on (e : PathEffect) (p : RecordPath) : RecordPath := ⟨p.segments.rdrop e.taken ++ e.put⟩

@[simp] theorem of_concat (steps : List PathStep) (s : PathStep) :
    of (steps ++ [s]) = (of steps).after s := by
  simp [of]

@[simp] theorem nothing_on (p : RecordPath) : nothing.on p = p := by
  simp [nothing, on]

/-- A step more has the effect of the step on the path that was made. -/
theorem after_on (e : PathEffect) (s : PathStep) (p : RecordPath) :
    (e.after s).on p = (e.on p).step s := by
  cases s with
  | push segment => simp [after, on, RecordPath.step, RecordPath.push]
  | pop =>
    by_cases hput : e.put = []
    · -- Nothing that was put on is left: the pop reaches the path below.
      have hdrop : p.segments.rdrop (e.taken + 1) = (p.segments.rdrop e.taken).dropLast := by
        rw [← List.rdrop_add, List.rdrop, ← List.dropLast_eq_take]
      simp [after, on, RecordPath.step, RecordPath.pop, hput, hdrop]
    · simp [after, on, RecordPath.step, RecordPath.pop, hput,
        List.dropLast_append_of_ne_nil hput]

/-- A step more counts once: as a segment put on, as one taken back, or as one taken off the path. -/
theorem count_after (e : PathEffect) (s : PathStep) :
    PathStep.pops [s] + (e.after s).put.length + e.taken =
      PathStep.pushes [s] + e.put.length + (e.after s).taken := by
  cases s with
  | push segment =>
    simp only [after, PathStep.pops_push, PathStep.pushes_push, List.length_append,
      List.length_singleton]
    omega
  | pop =>
    by_cases hput : e.put = []
    · simp only [after, hput, if_true, PathStep.pops_pop, PathStep.pushes_pop, List.length_nil]
      omega
    · have hpos := List.length_pos_of_ne_nil hput
      simp only [after, hput, if_false, PathStep.pops_pop, PathStep.pushes_pop,
        List.length_dropLast]
      omega

/-- What was put on and is still there are the pushes without the pops that found one. -/
theorem count_of (steps : List PathStep) :
    PathStep.pops steps + (of steps).put.length = PathStep.pushes steps + (of steps).taken := by
  induction steps using List.reverseRecOn with
  | nil => rfl
  | append_singleton steps s ih =>
    have hstep := count_after (of steps) s
    rw [of_concat, PathStep.pops_append, PathStep.pushes_append]
    omega

/-- A step more gives back nothing of what was taken off. -/
theorem taken_after (e : PathEffect) (s : PathStep) : e.taken ≤ (e.after s).taken := by
  cases s with
  | push segment => exact Nat.le_refl _
  | pop =>
    rw [after]
    split
    · exact Nat.le_succ _
    · exact Nat.le_refl _

/-- More steps take at least as much of the path. -/
theorem taken_mono (start more : List PathStep) :
    (of start).taken ≤ (of (start ++ more)).taken := by
  induction more using List.reverseRecOn with
  | nil => rw [List.append_nil]
  | append_singleton more s ih =>
    rw [← List.append_assoc, of_concat]
    exact Nat.le_trans ih (taken_after _ s)

/-- Nothing is taken off a path exactly if at no time there were more pops than pushes. -/
theorem taken_of_eq_zero_iff (steps : List PathStep) :
    (of steps).taken = 0 ↔
      ∀ start, start <+: steps → PathStep.pops start ≤ PathStep.pushes start := by
  constructor
  · rintro htaken start ⟨more, rfl⟩
    have hmono := taken_mono start more
    have hcount := count_of start
    omega
  · intro hcovered
    -- By induction over the steps: a first pop too many would be the last step of a start.
    induction steps using List.reverseRecOn with
    | nil => rfl
    | append_singleton steps s ih =>
      have hbefore := ih fun start h => hcovered start (h.trans (List.prefix_append _ _))
      rw [of_concat]
      cases s with
      | push segment => exact hbefore
      | pop =>
        have hlast := hcovered _ (List.prefix_refl _)
        have hcount := count_of steps
        rw [PathStep.pops_append, PathStep.pushes_append, PathStep.pops_pop,
          PathStep.pushes_pop] at hlast
        have hput : (of steps).put ≠ [] := by
          intro hput
          rw [hput, List.length_nil] at hcount
          omega
        rw [after, if_neg hput]
        exact hbefore

end PathEffect

/-- Steps are balanced exactly if they amount to nothing. -/
theorem PathStep.balanced_iff (steps : List PathStep) :
    Balanced steps ↔ PathEffect.of steps = PathEffect.nothing := by
  have hcount := PathEffect.count_of steps
  have htaken := PathEffect.taken_of_eq_zero_iff steps
  constructor
  · rintro ⟨hcovered, hclosed⟩
    have hzero := htaken.mpr hcovered
    have hput : (PathEffect.of steps).put = [] := List.eq_nil_of_length_eq_zero (by omega)
    exact PathEffect.ext hzero hput
  · intro heffect
    refine ⟨htaken.mp (by rw [heffect]; rfl), ?_⟩
    rw [heffect] at hcount
    simpa [PathEffect.nothing] using hcount

/-- Whether steps are balanced can be decided by going through them once. -/
instance (steps : List PathStep) : Decidable (PathStep.Balanced steps) :=
  decidable_of_iff _ (PathStep.balanced_iff steps).symm

/-- As many pushes as pops are not enough: here the pop takes off what no push gives back. -/
example : ¬ PathStep.Balanced [.pop, .push "user"] := by decide

namespace RecordPath

/-- The path after some steps is what they amount to. -/
theorem run_eq_on (p : RecordPath) (steps : List PathStep) :
    p.run steps = (PathEffect.of steps).on p := by
  have hrun : steps.foldl step (PathEffect.nothing.on p) =
      (steps.foldl PathEffect.after PathEffect.nothing).on p :=
    List.foldl_hom (fun e : PathEffect => e.on p) fun e s => (e.after_on s p).symm
  rwa [PathEffect.nothing_on] at hrun

/-- Steps that lead from every path back to it amount to nothing. -/
theorem of_eq_nothing_of_run_eq {steps : List PathStep} (h : ∀ p : RecordPath, p.run steps = p) :
    PathEffect.of steps = PathEffect.nothing := by
  -- Of a path as long as what is taken off, nothing is left: what is put on is the whole path.
  have hput : ∀ segment : String,
      (PathEffect.of steps).put = List.replicate (PathEffect.of steps).taken segment := by
    intro segment
    have hpath := h ⟨List.replicate (PathEffect.of steps).taken segment⟩
    rw [run_eq_on, PathEffect.on, RecordPath.mk.injEq] at hpath
    simpa [List.rdrop] using hpath
  -- It cannot be two paths that differ in all their segments, unless they have none.
  have hsame := (hput "a").symm.trans (hput "b")
  have hzero : (PathEffect.of steps).taken = 0 := by
    simpa [List.replicate_inj] using hsame
  have hnil := hput "a"
  rw [hzero, List.replicate_zero] at hnil
  exact PathEffect.ext hzero hnil

/-- After any steps from any path, a name agrees with the path exactly if it is the displayed path,
which is the root and the segments joined with underscores. Steps lead from every path back to that
path exactly if they are balanced. -/
theorem run_tracked (steps : List PathStep) :
    (∀ (p : RecordPath) (record : String),
        (p.run steps).agreesWith record = true ↔ record = (p.run steps).display) ∧
      (∀ p : RecordPath,
        (p.run steps).display = "_".intercalate (recordRoot :: (p.run steps).segments)) ∧
      (PathStep.Balanced steps ↔ ∀ p : RecordPath, p.run steps = p) := by
  refine ⟨fun p record => ?_, fun p => display_eq_intercalate _, ?_⟩
  · rw [agreesWith_iff, eq_comm]
  · rw [PathStep.balanced_iff]
    constructor
    · intro hnothing p
      rw [run_eq_on, hnothing, PathEffect.nothing_on]
    · exact of_eq_nothing_of_run_eq

end RecordPath
end EmbeddedGraphQL
