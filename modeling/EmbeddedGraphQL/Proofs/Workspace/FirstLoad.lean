import Mathlib.Data.List.Induction
import EmbeddedGraphQL.Proofs.Workspace.Run

/-!
# Which workspaces a cache keeps

A workspace cache knows nothing of the operations it was used by. What it keeps for a root is
nevertheless determined by them: the workspace that was loaded first since the one before it was
dropped. Later questions for the root load nothing, whatever has become of the files, and questions
that fail leave no trace.

* `WorkspaceCache.DropsAt`: an operation drops what a cache keeps for a root.
* `WorkspaceCache.SinceDrop`: the part of a history since the workspace of a root was last dropped.
* `WorkspaceCache.exists_sinceDrop`: every history has such a part.
* `WorkspaceCache.SinceDrop.find?_run`: what is kept is what was loaded first in it.
* `WorkspaceCache.run_keeps_first_load`: contents and answers of the cache after any history.
-/

namespace EmbeddedGraphQL
namespace WorkspaceCache

/-! ## Histories -/

/-- Whether an operation drops the workspace that a cache keeps for a root. -/
def DropsAt (cache : WorkspaceCache) (root : String) (op : Operation) : Prop :=
  ∃ w, cache.find? root = some w ∧ op.drops w = true

/-- Whether of a history, `old` followed by `recent`, the second part is what happened since the
workspace of a root was last dropped. -/
structure SinceDrop (root : String) (old recent : List Operation) : Prop where
  /-- The first part is empty or ends with the drop. -/
  dropped : old = [] ∨ ∃ before op, old = before ++ [op] ∧ DropsAt (empty.run before) root op
  /-- No operation of the second part drops the workspace. -/
  kept : ∀ before op after, recent = before ++ op :: after →
    ¬ DropsAt (empty.run (old ++ before)) root op

variable {root : String} {old recent : List Operation}

/-- After a history of operations no two workspaces are kept for the same root. -/
theorem distinct_run (ops : List Operation) : (empty.run ops).Distinct := distinct_empty.run ops

/-- After a drop nothing is kept. -/
theorem find?_of_dropsAt {cache : WorkspaceCache} (h : cache.Distinct) {op : Operation}
    (hdrops : DropsAt cache root op) : (cache.after op).find? root = none := by
  obtain ⟨w, hw, hdrop⟩ := hdrops
  -- What drops a workspace loads none.
  have hload : op.loaded? root = none := by
    cases op with
    | get tree asked => cases hdrop
    | invalidate configPath => rfl
    | remove asked => rfl
  rw [h.find?_after, hw, hload, Option.or_none, Option.filter_some, hdrop]
  rfl

/-- An operation that drops nothing of a root keeps what there is or else loads. -/
theorem find?_of_not_dropsAt {cache : WorkspaceCache} (h : cache.Distinct) {op : Operation}
    (hkept : ¬ DropsAt cache root op) :
    (cache.after op).find? root = (cache.find? root).or (op.loaded? root) := by
  rw [h.find?_after]
  cases hw : cache.find? root with
  | none => rfl
  | some w =>
    have hdrop : op.drops w = false := Bool.eq_false_iff.mpr fun hdrop => hkept ⟨w, hw, hdrop⟩
    rw [Option.filter_some, hdrop]
    rfl

namespace SinceDrop

/-- One operation more that drops nothing. -/
theorem concat (h : SinceDrop root old recent) {op : Operation}
    (hkept : ¬ DropsAt (empty.run (old ++ recent)) root op) :
    SinceDrop root old (recent ++ [op]) where
  dropped := h.dropped
  kept := by
    intro before op' after heq
    rcases List.eq_nil_or_concat after with rfl | ⟨after, last, rfl⟩
    · obtain ⟨rfl, hop⟩ := List.append_inj' heq rfl
      cases hop
      exact hkept
    · have hsplit : recent ++ [op] = (before ++ op' :: after) ++ [last] := by simpa using heq
      exact h.kept before op' after (List.append_inj' hsplit rfl).1

/-- The history without its last operation. -/
theorem dropLast {op : Operation} (h : SinceDrop root old (recent ++ [op])) :
    SinceDrop root old recent where
  dropped := h.dropped
  kept := by
    rintro before op' after rfl
    exact h.kept before op' (after ++ [op]) (by simp)

/-- What is kept for a root is what was loaded for it first since the last drop. -/
theorem find?_run (h : SinceDrop root old recent) :
    (empty.run (old ++ recent)).find? root = recent.findSome? (Operation.loaded? root) := by
  -- By induction from the drop on: the first operation that loads decides, as long as none drops.
  induction recent using List.reverseRecOn with
  | nil =>
    rw [List.append_nil]
    rcases h.dropped with rfl | ⟨before, op, rfl, hdrops⟩
    · rfl
    · rw [run_append, run_singleton]
      exact find?_of_dropsAt (distinct_run before) hdrops
  | append_singleton recent op ih =>
    have hkept := h.kept recent op [] rfl
    rw [← List.append_assoc, run_append, run_singleton,
      find?_of_not_dropsAt (distinct_run _) hkept, ih h.dropLast, List.findSome?_append]
    simp

end SinceDrop

/-- Every history ends with what happened since the workspace of a root was last dropped. -/
theorem exists_sinceDrop (root : String) (ops : List Operation) :
    ∃ old recent, ops = old ++ recent ∧ SinceDrop root old recent := by
  induction ops using List.reverseRecOn with
  | nil => exact ⟨[], [], rfl, Or.inl rfl, fun before op after h => by simp at h⟩
  | append_singleton ops op ih =>
    by_cases hdrops : DropsAt (empty.run ops) root op
    · refine ⟨ops ++ [op], [], (List.append_nil _).symm, Or.inr ⟨ops, op, rfl, hdrops⟩, ?_⟩
      intro before op' after h
      simp at h
    · obtain ⟨old, recent, rfl, hsince⟩ := ih
      exact ⟨old, recent ++ [op], List.append_assoc _ _ _, hsince.concat hdrops⟩

/-! ## Answers -/

variable {cache : WorkspaceCache}

/-- A question that fails leaves the cache as it was. -/
theorem get_of_error {tree : FileTree} {e : WorkspaceError}
    (h : (cache.get tree root).1 = .error e) : (cache.get tree root).2 = cache := by
  cases hfound : cache.find? root with
  | some w =>
    rw [get_of_some hfound] at h
    cases h
  | none =>
    rw [get_of_none hfound] at h ⊢
    rw [show Workspace.load tree root = .error e from h]
    simp [Except.toOption]

/-- A question that is answered leaves the answer for its own root, and all others as they were. -/
theorem Distinct.find?_get (h : cache.Distinct) {tree : FileTree} {w : Workspace}
    (hget : (cache.get tree root).1 = .ok w) (other : String) :
    (cache.get tree root).2.find? other =
      if Path.same root other then some w else cache.find? other := by
  have hkept : ¬ DropsAt cache other (.get tree root) := by
    rintro ⟨w, -, hdrops⟩
    cases hdrops
  have hafter := find?_of_not_dropsAt h hkept
  rw [Operation.loaded?] at hafter
  refine hafter.trans ?_
  split
  · rename_i hsame
    -- The answer is what was kept, or else what was loaded and is kept from now on.
    rw [← find?_congr hsame]
    cases hfound : cache.find? root with
    | some v =>
      rw [get_of_some hfound] at hget
      cases hget
      rfl
    | none =>
      rw [get_of_none hfound] at hget
      rw [show Workspace.load tree root = .ok w from hget]
      rfl
  · exact Option.or_none

/-- What is dropped with a configuration file is counted. -/
theorem invalidate_fst (cache : WorkspaceCache) (configPath : String) :
    (cache.invalidate configPath).1 =
      (cache.workspaces.filter fun w => Path.same w.configPath configPath).length := by
  have hsplit := List.length_eq_length_filter_add (l := cache.workspaces)
    (fun w => Path.same w.configPath configPath)
  simp only [invalidate, size]
  omega

/-- Removing a root leaves all others as they were. -/
theorem Distinct.find?_remove (h : cache.Distinct) (root other : String) :
    (cache.remove root).2.find? other =
      if Path.same root other then none else cache.find? other := by
  refine (h.find?_filter _ other).trans ?_
  cases hw : cache.find? other with
  | none => split <;> rfl
  | some w =>
    rw [Option.filter_some, Path.same_comm w.root, Path.same_congr (same_of_find? hw)]
    cases Path.same root other <;> rfl

/-- After any history of operations, with the files changing in between, a cache keeps for each
root the workspace that was loaded first since the one before it was dropped, and nothing else. It
answers a question for a root that is kept with that workspace, whatever the files are. A question
that fails leaves the cache as it was, and one that is answered changes nothing but its own root.
Invalidating drops exactly the workspaces with the configuration file and counts them; removing
drops the workspace of the root alone and tells whether there was one. -/
theorem run_keeps_first_load (ops : List Operation) :
    let cache := empty.run ops
    (∀ w ∈ cache.workspaces, cache.find? w.root = some w) ∧
      (∀ root, ∃ old recent, ops = old ++ recent ∧ SinceDrop root old recent) ∧
      (∀ root old recent, ops = old ++ recent → SinceDrop root old recent →
        cache.find? root = recent.findSome? (Operation.loaded? root)) ∧
      (∀ root w, cache.find? root = some w → ∀ tree, cache.get tree root = (.ok w, cache)) ∧
      (∀ tree root e, (cache.get tree root).1 = .error e → (cache.get tree root).2 = cache) ∧
      (∀ tree root w, (cache.get tree root).1 = .ok w → ∀ other,
        (cache.get tree root).2.find? other =
          if Path.same root other then some w else cache.find? other) ∧
      (∀ configPath,
        (∀ w, w ∈ (cache.invalidate configPath).2.workspaces ↔
          w ∈ cache.workspaces ∧ Path.same w.configPath configPath = false) ∧
        (cache.invalidate configPath).1 =
          (cache.workspaces.filter fun w => Path.same w.configPath configPath).length) ∧
      ∀ root, (cache.remove root).1 = (cache.find? root).isSome ∧
        ∀ other, (cache.remove root).2.find? other =
          if Path.same root other then none else cache.find? other := by
  intro cache
  -- All that is said of one state holds because no two workspaces share a root.
  have hdistinct : cache.Distinct := distinct_run ops
  refine ⟨?_, fun root => exists_sinceDrop root ops, ?_, ?_, ?_, ?_, ?_, ?_⟩
  · intro w hw
    exact hdistinct.find?_eq_some_iff.mpr ⟨hw, Path.same_self _⟩
  · rintro root old recent rfl hsince
    exact hsince.find?_run
  · intro root w hw tree
    exact get_of_some hw tree
  · intro tree root e he
    exact get_of_error he
  · intro tree root w hw other
    exact hdistinct.find?_get hw other
  · intro configPath
    refine ⟨fun w => ?_, invalidate_fst cache configPath⟩
    simp [invalidate]
  · intro root
    exact ⟨rfl, hdistinct.find?_remove root⟩

/-- A project with a directory in it, and a schema with one field. -/
def projectWith (field : String) : FileTree :=
  ⟨[], [(["p"], .directory), (["p", "sub"], .directory),
    (["p", ".graphqlrc.json"], .file (some "\x7b\"schema\": \"s.graphql\"\x7d")),
    (["p", "s.graphql"], .file (some ("type Query \x7b " ++ field ++ ": Int \x7d")))]⟩

/-- A history in which the project is not there at first and its schema changes after it was
loaded. Its directory is loaded as a root of its own, with the same configuration file. -/
def sharedHistory : List Operation :=
  [.get ⟨[], []⟩ "/p", .get (projectWith "a") "/p", .get (projectWith "b") "/p/.",
    .get (projectWith "b") "/p/sub"]

/-- The workspace of the project is the one from before its schema changed, and both roots are
dropped with the configuration file they share. -/
theorem run_keeps_first_load_shared :
    let cache := empty.run sharedHistory
    (∃ w, Workspace.load (projectWith "a") "/p" = .ok w ∧
      ∀ tree, cache.get tree "/p/" = (.ok w, cache)) ∧
      (cache.invalidate "/p//.graphqlrc.json").1 = 2 := by
  intro cache
  obtain ⟨-, -, hfirst, hget, -, -, hinvalidate, -⟩ := run_keeps_first_load sharedHistory
  refine ⟨?_, ?_⟩
  · have hsince : SinceDrop "/p/" [] sharedHistory := by
      refine ⟨Or.inl rfl, ?_⟩
      rintro before op after heq ⟨w, -, hdrops⟩
      have hop : op ∈ sharedHistory := heq ▸ by simp
      simp only [sharedHistory, List.mem_cons, List.not_mem_nil, or_false] at hop
      rcases hop with rfl | rfl | rfl | rfl <;> cases hdrops
    have hkept := hfirst "/p/" [] sharedHistory rfl hsince
    have hmissing : Operation.loaded? "/p/" (.get ⟨[], []⟩ "/p") = none := by decide +kernel
    have hsame : Path.same "/p" "/p/" = true := by decide +kernel
    have hloaded : (Workspace.load (projectWith "a") "/p").toOption.isSome := by decide +kernel
    cases hload : Workspace.load (projectWith "a") "/p" with
    | error e =>
      rw [hload] at hloaded
      cases hloaded
    | ok w =>
      refine ⟨w, rfl, fun tree => hget "/p/" w ?_ tree⟩
      rw [hkept, sharedHistory, List.findSome?_cons, hmissing, List.findSome?_cons,
        Operation.loaded?, if_pos hsame, hload]
      rfl
  · rw [(hinvalidate _).2]
    decide +kernel

end WorkspaceCache
end EmbeddedGraphQL
