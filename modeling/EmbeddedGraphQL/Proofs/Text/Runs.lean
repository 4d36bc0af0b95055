import Mathlib.Data.List.Basic
import EmbeddedGraphQL.Text.Blank

/-!
# Runs of characters

A run of characters of some kind at the start of a text ends where another kind of character stands.
The blanks around a text are such runs: a text that is not all blank is the blanks in front of it,
the trimmed text, which starts and ends with something, and the blanks behind it.

* `Text.takeWhile_append_stop`, `Text.dropWhile_append_stop`: where a run ends.
* `Text.append_stop_inj`: a run and what stops it can be told apart.
* `Text.leadingBlanks_append`, `Text.trailingBlanks_append`: the blanks around something.
* `Text.head?_trim`, `Text.getLast?_trim`, `Text.trim_ne_nil`: the text between the blanks.
-/

namespace EmbeddedGraphQL
namespace Text

/-! ## Runs -/

/-- A text that ends a run of characters stops it. -/
theorem takeWhile_append_stop {p : Char → Bool} {run rest : List Char}
    (hrun : ∀ c ∈ run, p c = true) (hrest : ∀ c ∈ rest.head?, p c = false) :
    (run ++ rest).takeWhile p = run := by
  rw [List.takeWhile_append_of_pos hrun]
  cases rest with
  | nil => simp
  | cons c rest => simp [hrest c rfl]

/-- Dropping a run leaves what stops it. -/
theorem dropWhile_append_stop {p : Char → Bool} {run rest : List Char}
    (hrun : ∀ c ∈ run, p c = true) (hrest : ∀ c ∈ rest.head?, p c = false) :
    (run ++ rest).dropWhile p = rest := by
  rw [List.dropWhile_append_of_pos hrun]
  cases rest with
  | nil => rfl
  | cons c rest => simp [hrest c rfl]

/-- A text can be split in one way only into a run and what stops it. -/
theorem append_stop_inj {p : Char → Bool} {run rest run' rest' : List Char}
    (hrun : ∀ c ∈ run, p c = true) (hrest : ∀ c ∈ rest.head?, p c = false)
    (hrun' : ∀ c ∈ run', p c = true) (hrest' : ∀ c ∈ rest'.head?, p c = false)
    (h : run ++ rest = run' ++ rest') : run = run' ∧ rest = rest' := by
  have htake := takeWhile_append_stop hrun hrest
  have hdrop := dropWhile_append_stop hrun hrest
  rw [h] at htake hdrop
  rw [takeWhile_append_stop hrun' hrest'] at htake
  rw [dropWhile_append_stop hrun' hrest'] at hdrop
  exact ⟨htake.symm, hdrop.symm⟩

/-- What is left behind a run starts with a character of another kind. -/
theorem head?_dropWhile {p : Char → Bool} {text : List Char} :
    ∀ c ∈ (text.dropWhile p).head?, p c = false := by
  intro c hc
  have hstop := List.head?_dropWhile_not p text
  rw [Option.mem_def] at hc
  rwa [hc] at hstop

/-! ## Blanks around a text -/

/-- The leading blanks are blanks. -/
theorem isBlank_of_mem_leadingBlanks {text : List Char} {c : Char}
    (h : c ∈ leadingBlanks text) : isBlank c = true :=
  List.all_eq_true.mp List.all_takeWhile c h

/-- The trailing blanks are blanks. -/
theorem isBlank_of_mem_trailingBlanks {text : List Char} {c : Char}
    (h : c ∈ trailingBlanks text) : isBlank c = true :=
  List.all_eq_true.mp List.all_takeWhile c (List.mem_reverse.mp h)

variable {before solid behind : List Char}

/-- The blanks in front of a solid text are its leading blanks. -/
theorem leadingBlanks_append (hbefore : ∀ c ∈ before, isBlank c = true) (hne : solid ≠ [])
    (hhead : ∀ c ∈ solid.head?, isBlank c = false) :
    leadingBlanks (before ++ (solid ++ behind)) = before := by
  apply takeWhile_append_stop hbefore
  rwa [List.head?_append_of_ne_nil solid hne]

/-- The blanks behind a solid text are its trailing blanks. -/
theorem trailingBlanks_append (hbehind : ∀ c ∈ behind, isBlank c = true) (hne : solid ≠ [])
    (hlast : ∀ c ∈ solid.getLast?, isBlank c = false) :
    trailingBlanks (before ++ (solid ++ behind)) = behind := by
  rw [trailingBlanks, List.reverse_append, List.reverse_append, List.append_assoc,
    takeWhile_append_stop, List.reverse_reverse]
  · simpa using hbehind
  · rwa [List.head?_append_of_ne_nil _ (by simpa using hne), List.head?_reverse]

/-! ## Trimmed texts -/

variable {text : List Char}

/-- What is left without the blanks at its end ends with something. -/
theorem getLast?_trimEnd : ∀ c ∈ (trimEnd text).getLast?, isBlank c = false := by
  rw [trimEnd, List.getLast?_reverse]
  exact head?_dropWhile

/-- Of a text that is not all blank something is left. -/
theorem trim_ne_nil (h : isAllBlank text = false) : trim text ≠ [] := by
  intro hnil
  -- Otherwise all of the text would be blanks in front of it or at the end of the rest.
  have hrest : trimStart text = trailingBlanks (trimStart text) := by
    conv => lhs; rw [← trimEnd_append_trailingBlanks (trimStart text)]
    rw [show trimEnd (trimStart text) = [] from hnil, List.nil_append]
  have hall : isAllBlank text = true := by
    rw [isAllBlank, List.all_eq_true, ← leadingBlanks_append_trimStart text]
    intro c hc
    rcases List.mem_append.mp hc with hc | hc
    · exact isBlank_of_mem_leadingBlanks hc
    · rw [hrest] at hc
      exact isBlank_of_mem_trailingBlanks hc
  rw [h] at hall
  cases hall

/-- The trimmed text starts with something. -/
theorem head?_trim : ∀ c ∈ (trim text).head?, isBlank c = false := by
  intro c hc
  have hne : trim text ≠ [] := by
    intro hnil
    rw [hnil] at hc
    cases hc
  have hstart : (trimStart text).head? = (trim text).head? := by
    conv => lhs; rw [← trimEnd_append_trailingBlanks (trimStart text)]
    exact List.head?_append_of_ne_nil _ hne
  rw [← hstart] at hc
  exact head?_dropWhile c hc

/-- The trimmed text ends with something. -/
theorem getLast?_trim : ∀ c ∈ (trim text).getLast?, isBlank c = false := getLast?_trimEnd

end Text
end EmbeddedGraphQL
