import EmbeddedGraphQL.Proofs.LineIndex.Table

/-!
# Lines by bisection

The starts of the lines ascend, so that the line of an offset can be looked up by halving: the entry
in the middle is the offset, or says in which half to go on. If no line starts at the offset, what
is left in the end is the number of lines that start before it, and the offset lies on the last of
them. This is the line that a search from the first line on finds.

* `LineIndex.bisect`: the search by halving.
* `LineIndex.SearchResult.Tells`, `LineIndex.SearchResult.line_eq`: what a search has to say, and to
  which line that leads.
* `LineIndex.bisect_tells`: the search by halving says it.
* `LineIndex.bisectedLine_ofText`: the line of an offset by bisection.
-/

namespace EmbeddedGraphQL
namespace LineIndex

/-! ## Ascending entries -/

section Ascending

variable {entries : List Nat} {number offset : Nat}

/-- Up to an ascending entry no other one is larger. -/
theorem le_of_mem_take (hordered : entries.Pairwise (· < ·)) (hnumber : number < entries.length) :
    ∀ n ∈ entries.take (number + 1), n ≤ entries[number] := by
  intro n hn
  obtain ⟨i, hi, rfl⟩ := List.mem_take_iff_getElem.mp hn
  rcases Nat.lt_or_ge i number with hlt | hge
  · exact Nat.le_of_lt (List.pairwise_iff_getElem.mp hordered i number _ hnumber hlt)
  · have hsame : i = number := by omega
    subst hsame
    exact Nat.le_refl _

/-- Behind an ascending entry all are larger. -/
theorem lt_of_mem_drop (hordered : entries.Pairwise (· < ·)) (hnumber : number < entries.length) :
    ∀ n ∈ entries.drop (number + 1), entries[number] < n := by
  intro n hn
  obtain ⟨i, hi, rfl⟩ := List.mem_drop_iff_getElem.mp hn
  exact List.pairwise_iff_getElem.mp hordered number _ hnumber _ (by omega)

/-- If exactly the first entries are up to an offset, they are those counted from the start on. -/
theorem takeWhile_eq_take (hbefore : ∀ n ∈ entries.take number, n ≤ offset)
    (hbehind : ∀ n ∈ entries.drop number, offset < n) :
    entries.takeWhile (· ≤ offset) = entries.take number := by
  have hstop : (entries.drop number).takeWhile (· ≤ offset) = [] := by
    cases hdrop : entries.drop number with
    | nil => rfl
    | cons n rest =>
      have hn := hbehind n (hdrop ▸ List.mem_cons_self)
      simp [Nat.not_le.mpr hn]
  rw [← List.take_append_drop number entries, List.takeWhile_append_of_pos (by simpa using hbefore),
    hstop, List.append_nil, List.take_append_drop]

end Ascending

/-! ## Results of a search -/

/-- What comes of the search for an offset among ascending entries. -/
inductive SearchResult where
  /-- The entry with this number is the offset. -/
  | found (number : Nat)
  /-- No entry is the offset, and so many are smaller. -/
  | absent (smaller : Nat)
deriving DecidableEq

namespace SearchResult

/-- The number of the last entry up to the offset, or zero if there is none. -/
def line : SearchResult → Nat
  | .found number => number
  | .absent smaller => smaller - 1

/-- Whether a result is one for an offset among some entries. -/
def Tells (entries : List Nat) (offset : Nat) : SearchResult → Prop
  | .found number => entries[number]? = some offset
  | .absent smaller => smaller ≤ entries.length ∧ (∀ n ∈ entries.take smaller, n < offset) ∧
      ∀ n ∈ entries.drop smaller, offset < n

/-- Whatever search it comes from, a result leads to the last of the entries up to the offset. -/
theorem line_eq {entries : List Nat} {offset : Nat} (hordered : entries.Pairwise (· < ·))
    {result : SearchResult} (h : result.Tells entries offset) :
    result.line = (entries.takeWhile (· ≤ offset)).length - 1 := by
  cases result with
  | found number =>
    -- The entries up to the offset are those in front of it and the one that is the offset.
    obtain ⟨hnumber, rfl⟩ := List.getElem?_eq_some_iff.mp h
    rw [takeWhile_eq_take (le_of_mem_take hordered hnumber) (lt_of_mem_drop hordered hnumber),
      List.length_take_of_le hnumber]
    rfl
  | absent smaller =>
    obtain ⟨hle, hbefore, hbehind⟩ := h
    have hupTo : ∀ n ∈ entries.take smaller, n ≤ offset := fun n hn => Nat.le_of_lt (hbefore n hn)
    rw [takeWhile_eq_take hupTo hbehind, List.length_take_of_le hle]
    rfl

end SearchResult

/-! ## Halving -/

/-- The number in the middle between two others. -/
def middle (low high : Nat) : Nat := low + (high - low) / 2

/-- The middle lies below the upper bound, and not below the lower one. -/
theorem middle_bounds {low high : Nat} (h : low < high) :
    low ≤ middle low high ∧ middle low high < high := by
  unfold middle
  omega

/-- The search for an offset among the entries from `low` up to, but not including, `high`. -/
def bisect (entries : List Nat) (offset low high : Nat) (hhigh : high ≤ entries.length) :
    SearchResult :=
  if hlt : low < high then
    have hmiddle := middle_bounds hlt
    have hentry : middle low high < entries.length := Nat.lt_of_lt_of_le hmiddle.2 hhigh
    if entries[middle low high] = offset then .found (middle low high)
    else if entries[middle low high] < offset then
      bisect entries offset (middle low high + 1) high hhigh
    else bisect entries offset low (middle low high) (Nat.le_of_lt hentry)
  else .absent low
termination_by high - low

/-- What is known in the course of a bisection: the offset is larger than the entries below `low`
and smaller than those from `high` on. -/
structure Narrowed (entries : List Nat) (offset low high : Nat) : Prop where
  /-- There is no entry on both sides. -/
  ordered : low ≤ high
  /-- The entries below are smaller. -/
  below : ∀ n ∈ entries.take low, n < offset
  /-- The entries above are larger. -/
  above : ∀ n ∈ entries.drop high, offset < n

namespace Narrowed

variable {entries : List Nat} {offset low high middle : Nat}

/-- Before the search nothing is ruled out. -/
theorem start (entries : List Nat) (offset : Nat) : Narrowed entries offset 0 entries.length :=
  ⟨Nat.zero_le _, by simp, by simp⟩

/-- An entry that is too small rules out all entries up to it. -/
theorem right (h : Narrowed entries offset low high) (hordered : entries.Pairwise (· < ·))
    (hmiddle : middle < entries.length) (hhigh : middle < high)
    (hsmall : entries[middle] < offset) : Narrowed entries offset (middle + 1) high where
  ordered := hhigh
  below n hn := Nat.lt_of_le_of_lt (le_of_mem_take hordered hmiddle n hn) hsmall
  above := h.above

/-- An entry that is too large rules out all entries from it on. -/
theorem left (h : Narrowed entries offset low high) (hordered : entries.Pairwise (· < ·))
    (hmiddle : middle < entries.length) (hlow : low ≤ middle)
    (hlarge : offset < entries[middle]) : Narrowed entries offset low middle where
  ordered := hlow
  below := h.below
  above n hn := by
    rw [List.drop_eq_getElem_cons hmiddle] at hn
    rcases List.mem_cons.mp hn with rfl | hn
    · exact hlarge
    · exact Nat.lt_trans hlarge (lt_of_mem_drop hordered hmiddle n hn)

end Narrowed

/-- The bisection of ascending entries tells where the offset is, from any narrowing on. -/
theorem bisect_tells {entries : List Nat} {offset low high : Nat}
    (hordered : entries.Pairwise (· < ·)) (hhigh : high ≤ entries.length)
    (h : Narrowed entries offset low high) :
    (bisect entries offset low high hhigh).Tells entries offset := by
  fun_induction bisect entries offset low high hhigh with
  | case1 low high hhigh hlt hmiddle hentry heq =>
    exact List.getElem?_eq_some_iff.mpr ⟨hentry, heq⟩
  | case2 low high hhigh hlt hmiddle hentry hne hsmall ih =>
    exact ih (h.right hordered hentry hmiddle.2 hsmall)
  | case3 low high hhigh hlt hmiddle hentry hne hlarge ih =>
    exact ih (h.left hordered hentry hmiddle.1 (by omega))
  | case4 low high hhigh hlt =>
    -- Nothing is left between the two sides.
    have hsame : low = high := by
      have := h.ordered
      omega
    subst hsame
    exact ⟨hhigh, h.below, h.above⟩

/-! ## The line of an offset -/

/-- The line of an offset, by bisection of the starts of the lines. -/
def bisectedLine (index : LineIndex) (offset : Nat) : Nat :=
  (bisect (index.lines.map (·.start)) offset 0 (index.lines.map (·.start)).length
    (Nat.le_refl _)).line

/-- In the index of a text, bisection finds the line of every offset. -/
theorem bisectedLine_ofText (text : List Char) (offset : Nat) :
    (ofText text).bisectedLine offset = (ofText text).lineOf offset := by
  have hordered : ((ofText text).lines.map (·.start)).Pairwise (· < ·) :=
    List.pairwise_map.mpr (lines_ordered text)
  have htells := bisect_tells hordered (Nat.le_refl _) (.start _ offset)
  rw [bisectedLine, SearchResult.line_eq hordered htells, List.takeWhile_map, List.length_map]
  rfl

end LineIndex
end EmbeddedGraphQL
