import Mathlib.Data.List.Nodup
import EmbeddedGraphQL.Workspace.Cache

/-!
# Runs of a workspace cache

A workspace cache is used by one operation after another while the files change in between, so that
every question for a workspace comes with the files there are then. Roots are paths: two texts with
the same components are the same root.

All that an operation can do is to drop workspaces and to load one where none is kept. What the
cache keeps for a root after an operation follows from what it kept before.

* `WorkspaceCache.Operation`, `WorkspaceCache.run`: what a cache is asked, and a sequence of it.
* `Operation.drops`, `Operation.loaded?`: the two things that an operation can do.
* `WorkspaceCache.Distinct`: no two workspaces are kept for the same root.
* `WorkspaceCache.find?_after`: what is kept for a root after an operation.
-/

namespace EmbeddedGraphQL

/-! ## Paths with the same components -/

namespace Path

/-- Two paths are the same if their components agree. -/
theorem same_iff {p q : String} : same p q = true ↔ components p = components q :=
  decide_eq_true_iff

@[simp] theorem same_self (p : String) : same p p = true := same_iff.mpr rfl

/-- Being the same path is symmetric. -/
theorem same_comm (p q : String) : same p q = same q p := by
  rw [Bool.eq_iff_iff, same_iff, same_iff, eq_comm]

/-- Of two paths that are the same, a third one is the same as both or as neither. -/
theorem same_congr {p q : String} (h : same p q = true) (r : String) : same r p = same r q := by
  rw [Bool.eq_iff_iff, same_iff, same_iff, same_iff.mp h]

end Path

namespace Workspace

/-- A workspace remembers the root it was loaded for. -/
theorem root_of_load {tree : FileTree} {root : String} {w : Workspace}
    (h : load tree root = .ok w) : w.root = root := by
  unfold load at h
  split at h
  · cases h
  · rename_i configPath _
    split at h
    · cases h
    · rename_i config _
      simp only [ofConfig] at h
      cases hschema : tree.loadSchema ((Path.parent? configPath).getD root)
          config.schema.toList with
      | error e =>
        rw [hschema] at h
        cases h
      | ok schema =>
        rw [hschema] at h
        cases h
        rfl

end Workspace

namespace WorkspaceCache

/-! ## Operations -/

/-- What a cache can be asked. -/
inductive Operation where
  /-- The workspace of a root, with the files there are then. -/
  | get (tree : FileTree) (root : String)
  /-- To drop the workspaces with a configuration file. -/
  | invalidate (configPath : String)
  /-- To drop the workspace of a root. -/
  | remove (root : String)

namespace Operation

/-- Whether an operation drops a workspace that is kept. -/
def drops : Operation → Workspace → Bool
  | .get _ _, _ => false
  | .invalidate configPath, w => Path.same w.configPath configPath
  | .remove root, w => Path.same w.root root

/-- The workspace that an operation loads for a root if none is kept for it. -/
def loaded? (root : String) : Operation → Option Workspace
  | .get tree asked =>
    if Path.same asked root then (Workspace.load tree asked).toOption else none
  | .invalidate _ => none
  | .remove _ => none

end Operation

/-- The cache that an operation leaves. -/
def after (cache : WorkspaceCache) : Operation → WorkspaceCache
  | .get tree root => (cache.get tree root).2
  | .invalidate configPath => (cache.invalidate configPath).2
  | .remove root => (cache.remove root).2

/-- The cache that a sequence of operations leaves. -/
def run (cache : WorkspaceCache) (ops : List Operation) : WorkspaceCache := ops.foldl after cache

@[simp] theorem run_nil (cache : WorkspaceCache) : cache.run [] = cache := rfl

@[simp] theorem run_append (cache : WorkspaceCache) (ops ops' : List Operation) :
    cache.run (ops ++ ops') = (cache.run ops).run ops' := List.foldl_append

@[simp] theorem run_singleton (cache : WorkspaceCache) (op : Operation) :
    cache.run [op] = cache.after op := rfl

/-! ## Distinct roots -/

/-- Whether no two workspaces are kept for the same root. -/
def Distinct (cache : WorkspaceCache) : Prop :=
  (cache.workspaces.map fun w => Path.components w.root).Nodup

variable {cache : WorkspaceCache} {root : String} {w : Workspace}

/-- The workspace that is found has the root asked for. -/
theorem same_of_find? (h : cache.find? root = some w) : Path.same w.root root = true := by
  have hsome := List.find?_some h
  exact hsome

/-- With distinct roots, what is found for a root is the workspace that is kept for it. -/
theorem Distinct.find?_eq_some_iff (h : cache.Distinct) :
    cache.find? root = some w ↔ w ∈ cache.workspaces ∧ Path.same w.root root = true := by
  constructor
  · intro hfound
    exact ⟨List.mem_of_find?_eq_some hfound, same_of_find? hfound⟩
  · rintro ⟨hmem, hsame⟩
    cases hfound : cache.find? root with
    | none => exact absurd hsame (List.find?_eq_none.mp hfound w hmem)
    | some v =>
      have hroot : Path.components v.root = Path.components w.root :=
        (Path.same_iff.mp (same_of_find? hfound)).trans (Path.same_iff.mp hsame).symm
      rw [List.inj_on_of_nodup_map h (List.mem_of_find?_eq_some hfound) hmem hroot]

/-- No workspace is found exactly if none has the root asked for. -/
theorem find?_eq_none_iff :
    cache.find? root = none ↔ ∀ w ∈ cache.workspaces, Path.same w.root root = false := by
  simp [find?, List.find?_eq_none]

/-- What is found for a root does not depend on how the root is written. -/
theorem find?_congr {root' : String} (h : Path.same root root' = true) :
    cache.find? root = cache.find? root' := by
  unfold find?
  congr 1
  funext w
  exact Path.same_congr h w.root

/-- Dropping workspaces keeps the roots distinct. -/
theorem Distinct.filter (h : cache.Distinct) (keep : Workspace → Bool) :
    Distinct ⟨cache.workspaces.filter keep⟩ := h.sublist (List.filter_sublist.map _)

/-- Of the workspace that is kept for a root, dropping leaves either all or nothing. -/
theorem Distinct.find?_filter (h : cache.Distinct) (keep : Workspace → Bool) (root : String) :
    find? ⟨cache.workspaces.filter keep⟩ root = (cache.find? root).filter keep := by
  ext w
  rw [(h.filter keep).find?_eq_some_iff, Option.filter_eq_some_iff, h.find?_eq_some_iff,
    List.mem_filter, and_right_comm]

/-! ## One operation -/

/-- A question for a root that is kept is answered with what is kept. -/
theorem get_of_some (h : cache.find? root = some w) (tree : FileTree) :
    cache.get tree root = (.ok w, cache) := by
  rw [get, h]

/-- A question for any other root is answered with what is loaded, which is then kept. -/
theorem get_of_none (h : cache.find? root = none) (tree : FileTree) :
    cache.get tree root = (Workspace.load tree root,
      ⟨cache.workspaces ++ (Workspace.load tree root).toOption.toList⟩) := by
  rw [get, h]
  cases Workspace.load tree root with
  | error e => simp [Except.toOption]
  | ok w => rfl

/-- An operation keeps the roots distinct. -/
theorem Distinct.after (h : cache.Distinct) (op : Operation) : (cache.after op).Distinct := by
  cases op with
  | invalidate configPath => exact h.filter _
  | remove root => exact h.filter _
  | get tree root =>
    cases hfound : cache.find? root with
    | some w =>
      rw [WorkspaceCache.after, get_of_some hfound]
      exact h
    | none =>
      rw [WorkspaceCache.after, get_of_none hfound]
      cases hload : Workspace.load tree root with
      | error e => simpa [Except.toOption] using h
      | ok w =>
        -- Only a root for which nothing is kept is loaded.
        have hnew :
            Path.components w.root ∉ cache.workspaces.map fun v => Path.components v.root := by
          rw [Workspace.root_of_load hload, List.mem_map]
          rintro ⟨v, hv, hroot⟩
          have hother := find?_eq_none_iff.mp hfound v hv
          rw [Path.same_iff.mpr hroot] at hother
          cases hother
        rw [Distinct, Except.toOption, Option.toList_some, List.map_append, List.map_singleton]
        exact h.append (List.nodup_singleton _) (List.disjoint_singleton.mpr hnew)

/-- Every history keeps the roots distinct. -/
theorem Distinct.run (h : cache.Distinct) (ops : List Operation) : (cache.run ops).Distinct := by
  induction ops generalizing cache with
  | nil => exact h
  | cons op ops ih => exact ih (h.after op)

/-- The empty cache has distinct roots. -/
theorem distinct_empty : Distinct empty := List.nodup_nil

/-- What is kept for a root after an operation: nothing if the operation drops what was kept,
otherwise what was kept or else what the operation loads. -/
theorem Distinct.find?_after (h : cache.Distinct) (op : Operation) (root : String) :
    (cache.after op).find? root =
      ((cache.find? root).filter fun w => !op.drops w).or (op.loaded? root) := by
  cases op with
  | invalidate configPath =>
    rw [Operation.loaded?, Option.or_none]
    exact h.find?_filter _ root
  | remove asked =>
    rw [Operation.loaded?, Option.or_none]
    exact h.find?_filter _ root
  | get tree asked =>
    -- A look-up drops nothing, and adds a workspace only if there was none of this root.
    have hkept : ((cache.find? root).filter fun w => !(Operation.get tree asked).drops w) =
        cache.find? root := by
      cases cache.find? root <;> rfl
    rw [hkept, WorkspaceCache.after]
    cases hfound : cache.find? asked with
    | some w =>
      rw [get_of_some hfound, Operation.loaded?]
      split
      · rename_i hsame
        rw [← find?_congr hsame, hfound, Option.some_or]
      · rw [Option.or_none]
    | none =>
      have hload : ∀ w, Workspace.load tree asked = .ok w → w.root = asked :=
        fun w => Workspace.root_of_load
      rw [get_of_none hfound, Operation.loaded?, find?, List.find?_append]
      congr 1
      cases hw : Workspace.load tree asked with
      | error e => simp [Except.toOption]
      | ok w =>
        rw [Except.toOption, Option.toList_some, List.find?_singleton, hload w hw]

end WorkspaceCache
end EmbeddedGraphQL
