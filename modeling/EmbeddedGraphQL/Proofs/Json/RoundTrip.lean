import EmbeddedGraphQL.Json.Read
import EmbeddedGraphQL.Json.Write
import EmbeddedGraphQL.Proofs.Document.FirstLexeme
import EmbeddedGraphQL.Proofs.Lists

/-!
# Written JSON is read back

A value whose numbers are natural and whose texts are whole is read back from its text, whether it
is written on one line or over several. A number has no end of its own, so a reader is only asked to
find the end of its part where the next character cannot belong to it.

* `Json.Plain`: the values in question.
* `Json.Reads`: a reader takes a part of a text for a thing, whatever follows.
* `Json.reads_ofNat`, `Json.reads_str`: numbers and quoted texts.
* `Json.group_of_reads`: items between brackets, with spaces around them.
* `Json.IsWriter`: what the two writers have in common.
* `Json.parse?_compact`, `Json.parse?_pretty`: both writers are undone.
-/

namespace EmbeddedGraphQL
namespace Json

/-- A value whose numbers are natural and in which nothing is broken. -/
inductive Plain : Json → Prop where
  /-- The null value. -/
  | null : Plain .null
  /-- A truth value. -/
  | bool (value : Bool) : Plain (.bool value)
  /-- A natural number. -/
  | ofNat (n : Nat) : Plain (.ofNat n)
  /-- A text. -/
  | str (value : String) : Plain (.str value)
  /-- A list of plain values. -/
  | array {items : List Json} (h : ∀ item ∈ items, Plain item) : Plain (.array items)
  /-- An object with plain values. -/
  | object {members : List (String × Json)} (h : ∀ m ∈ members, Plain m.2) :
    Plain (.object members)

/-! ## Quoted texts -/

namespace Quoted

/-- The characters that are written as a backslash and a character. -/
def named : List Char := ['"', '\\', '\x08', '\x0c', '\n', '\r', '\t']

/-- A character without a name is written by its code unit if it is a control character, else as it
is. -/
theorem writeChar_of_not_named {c : Char} (h : c ∉ named) :
    writeChar c =
      if c.toNat < 0x20 then
        ['\\', 'u', '0', '0', hexDigit (c.toNat / 16), hexDigit (c.toNat % 16)]
      else [c] := by
  simp only [named, List.mem_cons, List.not_mem_nil, or_false, not_or] at h
  simp only [writeChar, h, if_false]

/-- A code unit below the surrogates stands for its character. -/
theorem text?_unit {c : Char} (h : c.toNat < 0x20) (more : List Piece) :
    text? (.unit c.toNat :: more) = (text? more).map (c :: ·) := by
  have hhigh : Text.isHighSurrogate c.toNat = false := by
    simp only [Text.isHighSurrogate, Bool.and_eq_false_iff, decide_eq_false_iff_not]
    omega
  have hscalar : Text.scalar? c.toNat = some c := by
    rw [Text.scalar?, if_pos (Or.inl (by omega)), Char.ofNat_toNat]
  conv => lhs; unfold text?
  rw [hhigh, hscalar]
  rfl

/-- What one character is written as is read as one piece, which stands for the character. -/
theorem exists_piece (c : Char) : ∃ piece,
    (∀ more, text? (piece :: more) = (text? more).map (c :: ·)) ∧
      ∀ rest, pieces? (writeChar c ++ rest) =
        (pieces? rest).map fun (more, rest) => (piece :: more, rest) := by
  by_cases hnamed : c ∈ named
  · refine ⟨.char c, fun more => by rw [text?], ?_⟩
    intro rest
    simp only [named, List.mem_cons, List.not_mem_nil, or_false] at hnamed
    rcases hnamed with rfl | rfl | rfl | rfl | rfl | rfl | rfl <;>
      cases hrest : pieces? rest <;> simp [writeChar, pieces?, escape?, hrest]
  · by_cases hcode : c.toNat < 0x20
    · -- The control characters are few enough to try them all.
      have hdigits : ∀ n < 0x20,
          Text.hexValue? ['0', '0', hexDigit (n / 16), hexDigit (n % 16)] = some n := by
        decide
      refine ⟨.unit c.toNat, text?_unit hcode, ?_⟩
      intro rest
      rw [writeChar_of_not_named hnamed, if_pos hcode]
      simp only [List.cons_append, List.nil_append, pieces?, hdigits _ hcode]
      cases pieces? rest <;> rfl
    · refine ⟨.char c, fun more => by rw [text?], ?_⟩
      intro rest
      simp only [named, List.mem_cons, not_or] at hnamed
      rw [writeChar_of_not_named (by simpa [named] using hnamed), if_neg hcode, List.cons_append,
        List.nil_append, pieces?, if_neg hcode]
      · exact hnamed.1
      · exact fun _ _ _ _ _ h => absurd h hnamed.2.1
      · exact fun _ _ h => absurd h hnamed.2.1

/-- A text is read back from between its quotes. -/
theorem pieces?_write (text rest : List Char) : ∃ pieces,
    pieces? (text.flatMap writeChar ++ '"' :: rest) = some (pieces, rest) ∧
      text? pieces = some text := by
  induction text with
  | nil => exact ⟨[], by rw [List.flatMap_nil, List.nil_append, pieces?], rfl⟩
  | cons c text ih =>
    obtain ⟨pieces, hpieces, htext⟩ := ih
    obtain ⟨piece, hpiece, hread⟩ := exists_piece c
    refine ⟨piece :: pieces, ?_, ?_⟩
    · rw [List.flatMap_cons, List.append_assoc, hread, hpieces, Option.map_some]
    · rw [hpiece, htext, Option.map_some]

end Quoted

/-! ## Parts of a text -/

/-- Whether a character may go on with a number. -/
def continuesNumber (c : Char) : Bool := c.isDigit || c == '.' || c == 'e' || c == 'E'

/-- Whether a character opens a value: it is no space and closes no group. -/
def opensValue (c : Char) : Bool := !isSpace c && c != ']' && c != '\x7d'

/-- A reader takes a part of a text for a thing, whatever follows that cannot belong to a number. -/
structure Reads {α : Type} (item : Reader α) (part : List Char) (x : α) : Prop where
  /-- The part starts with something, which is no space and closes no group. -/
  opens : ∃ c tail, part = c :: tail ∧ opensValue c = true
  /-- The part is taken, and only the part. -/
  takes : ∀ rest, (∀ c ∈ rest.head?, continuesNumber c = false) →
    item (part ++ rest) = some (x, rest)

/-- Spaces between two parts. -/
structure Gap where
  /-- The characters. -/
  chars : List Char
  /-- They are spaces. -/
  spaces : ∀ c ∈ chars, isSpace c = true

/-- No spaces. -/
def Gap.none : Gap := ⟨[], fun _ h => nomatch h⟩

/-- No value starts with a space. -/
theorem isSpace_of_opensValue {c : Char} (h : opensValue c = true) : isSpace c = false := by
  simp only [opensValue, Bool.and_eq_true, Bool.not_eq_true'] at h
  exact h.1.1

/-- In front of a value there is nothing to skip. -/
theorem skip_of_opens {part : List Char} (h : ∃ c tail, part = c :: tail ∧ opensValue c = true)
    (rest : List Char) : skip (part ++ rest) = part ++ rest := by
  obtain ⟨c, tail, rfl, hc⟩ := h
  rw [skip, List.cons_append, List.dropWhile_cons_of_neg]
  rw [isSpace_of_opensValue hc]
  exact Bool.false_ne_true

/-- The gap of a layout is skipped. -/
theorem skip_gap (gap : Gap) (rest : List Char) : skip (gap.chars ++ rest) = skip rest :=
  List.dropWhile_append_of_pos gap.spaces

/-- A space ends a number. -/
theorem continuesNumber_of_isSpace {c : Char} (h : isSpace c = true) :
    continuesNumber c = false := by
  simp only [isSpace, Bool.or_eq_true, beq_iff_eq] at h
  rcases h with ((rfl | rfl) | rfl) | rfl <;> decide

/-! ## Values without others inside -/

/-- A written number has a digit at its start, whatever follows. -/
theorem head?_toDigits_append (n : Nat) (rest : List Char) :
    (Nat.toDigits 10 n ++ rest).head? = (Nat.toDigits 10 n).head? := by
  obtain ⟨c, tail, h⟩ := List.exists_cons_of_ne_nil (Nat.toDigits_ne_nil (n := n) (b := 10))
  rw [h]
  rfl

/-- A number has a zero in front only if it is zero. -/
theorem head?_toDigits_eq_zero {n : Nat} (h : (Nat.toDigits 10 n).head? = some '0') : n = 0 := by
  induction n using Nat.strongRecOn with
  | ind n ih =>
    rw [Nat.toDigits_eq_if (by decide)] at h
    split at h
    · rename_i hlt
      have hdigit : ∀ m < 10, Nat.digitChar m = '0' → m = 0 := by decide
      exact hdigit n hlt (by simpa using h)
    · rename_i hle
      rw [head?_toDigits_append] at h
      have := ih (n / 10) (by omega) h
      omega

/-- A natural number is written in its decimal digits. -/
theorem toList_toString (n : Nat) : (toString n).toList = Nat.toDigits 10 n := by
  rw [Nat.toString_eq_ofList_toDigits, String.toList_ofList]

/-- A written number is made of digits. -/
theorem isDigit_of_mem_toDigits {n : Nat} {c : Char} (h : c ∈ Nat.toDigits 10 n) :
    c.isDigit = true :=
  Nat.isDigit_of_mem_toDigits (by decide) (by decide) h

section Numbers

variable {rest : List Char}

/-- What ends a number is no digit. -/
theorem isDigit_of_continuesNumber {c : Char} (h : continuesNumber c = false) :
    c.isDigit = false := by
  simp only [continuesNumber, Bool.or_eq_false_iff] at h
  exact h.1.1.1

/-- All digits of a written number are taken, and no more. -/
theorem digits_toDigits (n : Nat) (hrest : ∀ c ∈ rest.head?, continuesNumber c = false) :
    digits (Nat.toDigits 10 n ++ rest) = some (Nat.toDigits 10 n, rest) := by
  have hall : ∀ c ∈ Nat.toDigits 10 n, c.isDigit = true := fun _ => isDigit_of_mem_toDigits
  have hstop : ∀ c ∈ rest.head?, c.isDigit = false :=
    fun c hc => isDigit_of_continuesNumber (hrest c hc)
  simp only [digits, Text.takeWhile_append_stop hall hstop,
    Text.dropWhile_append_stop hall hstop, List.isEmpty_iff, Nat.toDigits_ne_nil, if_false]

/-- A written number has no zeros in front of other digits. -/
theorem whole_toDigits (n : Nat) (hrest : ∀ c ∈ rest.head?, continuesNumber c = false) :
    whole (Nat.toDigits 10 n ++ rest) = some (Nat.toDigits 10 n, rest) := by
  by_cases hzero : n = 0
  · subst hzero
    -- A zero must stand alone, so this is where the next character counts.
    cases rest with
    | nil => rfl
    | cons c rest =>
      show whole ('0' :: c :: rest) = some (['0'], c :: rest)
      rw [whole, isDigit_of_continuesNumber (hrest c rfl)]
      rfl
  · have hhead : ∀ c tail, Nat.toDigits 10 n ++ rest ≠ '0' :: c :: tail := by
      intro c tail heq
      have hfirst := congrArg List.head? heq
      rw [head?_toDigits_append] at hfirst
      exact hzero (head?_toDigits_eq_zero hfirst)
    rw [whole, digits_toDigits n hrest]
    exact hhead

/-- A natural number is read back. -/
theorem number_toDigits (n : Nat) (hrest : ∀ c ∈ rest.head?, continuesNumber c = false) :
    number (Nat.toDigits 10 n ++ rest) = some (.ofNat n, rest) := by
  have hminus : minus (Nat.toDigits 10 n ++ rest) = ([], Nat.toDigits 10 n ++ rest) := by
    rw [minus]
    intro tail heq
    have hmem : '-' ∈ Nat.toDigits 10 n := by
      have := congrArg List.head? heq
      rw [head?_toDigits_append] at this
      exact List.mem_of_head? this
    exact absurd (isDigit_of_mem_toDigits hmem) (by decide)
  -- Neither a fraction nor an exponent follows the digits.
  have hfraction : fraction rest = some ([], rest) := by
    rw [fraction]
    rintro tail rfl
    exact absurd (hrest '.' rfl) (by decide)
  have hexponent : exponent rest = some ([], rest) := by
    cases rest with
    | nil => rfl
    | cons c rest =>
      have hc := hrest c rfl
      simp only [continuesNumber, Bool.or_eq_false_iff, beq_eq_false_iff_ne] at hc
      simp [exponent, hc.1.2, hc.2]
  simp only [number, hminus, whole_toDigits n hrest, hfraction, hexponent, Option.bind_eq_bind,
    Option.bind_some, List.nil_append, List.append_nil, ← Nat.toString_eq_ofList_toDigits]
  rfl

end Numbers

/-- A value that starts with no bracket holds no others. -/
theorem value_eq_simple {n : Nat} {c : Char} (hlist : c ≠ '[') (hobject : c ≠ '\x7b')
    (text : List Char) : value n (c :: text) = simple (c :: text) := by
  cases n with
  | zero => rfl
  | succ n =>
    simp only [value]
    split
    · rename_i heq
      exact absurd (List.cons.inj heq).1 hlist
    · rename_i heq
      exact absurd (List.cons.inj heq).1 hobject
    · rfl

/-- The null value is read back. -/
theorem reads_null (depth : Nat) : Reads (value depth) (writeSimple .null) .null := by
  refine ⟨⟨'n', _, rfl, by decide⟩, fun rest _ => ?_⟩
  exact value_eq_simple (by decide) (by decide) _

/-- A truth value is read back. -/
theorem reads_bool (b : Bool) (depth : Nat) :
    Reads (value depth) (writeSimple (.bool b)) (.bool b) := by
  cases b with
  | true =>
    refine ⟨⟨'t', _, rfl, by decide⟩, fun rest _ => ?_⟩
    exact value_eq_simple (by decide) (by decide) _
  | false =>
    refine ⟨⟨'f', _, rfl, by decide⟩, fun rest _ => ?_⟩
    exact value_eq_simple (by decide) (by decide) _

/-- A natural number is read back, if what follows ends a number. -/
theorem reads_ofNat (n depth : Nat) : Reads (value depth) (writeSimple (.ofNat n)) (.ofNat n) := by
  rw [ofNat, writeSimple, toList_toString]
  obtain ⟨c, tail, hdigits⟩ :=
    List.exists_cons_of_ne_nil (Nat.toDigits_ne_nil (n := n) (b := 10))
  have hc : c.isDigit = true := isDigit_of_mem_toDigits (by rw [hdigits]; exact List.mem_cons_self)
  have hne : ∀ d : Char, d.isDigit = false → c ≠ d := by
    rintro d hd rfl
    exact absurd hc (by simp [hd])
  refine ⟨⟨c, tail, hdigits, ?_⟩, ?_⟩
  · simp [opensValue, isSpace, hne]
  · intro rest hrest
    -- No word starts with a digit, so that a number is all that is left.
    rw [hdigits, List.cons_append, value_eq_simple (hne '[' rfl) (hne '\x7b' rfl), simple]
    · rw [← List.cons_append, ← hdigits, number_toDigits n hrest]
      rfl
    all_goals
      intro _ heq
      exact absurd (List.cons.inj heq).1 (hne _ rfl)

/-- A text is read back, whatever its characters are. -/
theorem reads_str (text : String) (depth : Nat) :
    Reads (value depth) (writeSimple (.str text)) (.str text) := by
  refine ⟨⟨'"', _, rfl, by decide⟩, ?_⟩
  intro rest hrest
  obtain ⟨pieces, hpieces, htext⟩ := Quoted.pieces?_write text.toList rest
  rw [writeSimple, Quoted.write, List.cons_append, List.append_assoc,
    value_eq_simple (by decide) (by decide), simple, quoted]
  simp only [List.cons_append, List.nil_append, hpieces, Option.bind_eq_bind, Option.bind_some,
    htext, String.ofList_toList]
  rfl

/-! ## Groups -/

/-- Parts between two brackets, with commas between them and spaces in front of each and behind the
last. -/
def grouped (inner outer : Gap) (opening close : Char) (parts : List (List Char)) : List Char :=
  opening :: (List.intercalate [','] (parts.map (inner.chars ++ ·)) ++ outer.chars ++ [close])

section Groups

variable {α β : Type} {item : Reader α} {close : Char} {written : β → List Char} {read : β → α}

/-- What follows an item goes on with no number: it is a comma, a space or a bracket. -/
theorem continuesNumber_of_behind (written : β → List Char) (inner outer : Gap)
    (hclose : close = ']' ∨ close = '\x7d') (xs : List β) (rest : List Char) :
    ∀ c ∈ (xs.flatMap (fun x => [','] ++ (inner.chars ++ written x)) ++
      (outer.chars ++ close :: rest)).head?, continuesNumber c = false := by
  intro c hc
  cases xs with
  | cons x xs =>
    cases hc
    decide
  | nil =>
    obtain ⟨outer, houter⟩ := outer
    cases outer with
    | cons d outer =>
      obtain rfl : d = c := Option.some.inj hc
      exact continuesNumber_of_isSpace (houter d List.mem_cons_self)
    | nil =>
      obtain rfl : close = c := Option.some.inj hc
      rcases hclose with rfl | rfl <;> decide

/-- In front of a closing bracket only the gap is skipped. -/
theorem skip_close (hclose : close = ']' ∨ close = '\x7d') (outer : Gap) (rest : List Char) :
    skip (outer.chars ++ close :: rest) = close :: rest := by
  rw [skip_gap]
  rcases hclose with rfl | rfl <;> rfl

/-- Further items are read one after the other, each with the comma in front of it. -/
theorem furtherItems_of_reads (hclose : close = ']' ∨ close = '\x7d') (inner outer : Gap)
    (rest : List Char) {xs : List β} (hxs : ∀ x ∈ xs, Reads item (written x) (read x)) {fuel : Nat}
    (hfuel : xs.length < fuel) :
    furtherItems item close fuel (xs.flatMap (fun x => [','] ++ (inner.chars ++ written x)) ++
      (outer.chars ++ close :: rest)) = some (xs.map read, rest) := by
  induction xs generalizing fuel with
  | nil =>
    obtain ⟨fuel, rfl⟩ := Nat.exists_eq_add_of_lt hfuel
    rw [List.flatMap_nil, List.nil_append, furtherItems, skip_close hclose]
    simp
  | cons x xs ih =>
    obtain ⟨fuel, rfl⟩ := Nat.exists_eq_add_of_lt hfuel
    obtain ⟨hx, hxs⟩ := List.forall_mem_cons.mp hxs
    -- The comma is no space and does not close the group.
    have hcomma : ',' ≠ close := by rcases hclose with rfl | rfl <;> decide
    have hskip : ∀ text, skip (',' :: text) = ',' :: text := fun _ => rfl
    have hitem := hx.takes _ (continuesNumber_of_behind written inner outer hclose xs rest)
    have hmore := @ih hxs (xs.length + 1 + fuel) (by omega)
    simp only [List.flatMap_cons, List.append_assoc, List.cons_append, List.nil_append]
      at hitem hmore ⊢
    rw [furtherItems, hskip]
    simp only [hcomma, if_false, if_true, skip_gap, skip_of_opens hx.opens, hitem,
      Option.bind_eq_bind, Option.bind_some]
    rw [List.length_cons, hmore]
    rfl

/-- There are no more further items than characters. -/
theorem length_le_flatMap (written : β → List Char) (inner : Gap) (xs : List β) :
    xs.length ≤ (xs.flatMap fun x => [','] ++ (inner.chars ++ written x)).length := by
  induction xs with
  | nil => exact Nat.zero_le _
  | cons x xs ih =>
    rw [List.length_cons, List.flatMap_cons, List.length_append, List.length_append,
      List.length_singleton]
    omega

/-- Items between brackets are read. -/
theorem group_of_reads (hclose : close = ']' ∨ close = '\x7d') (inner outer : Gap)
    (rest : List Char) {xs : List β} (hxs : ∀ x ∈ xs, Reads item (written x) (read x)) :
    group item close (List.intercalate [','] (xs.map (inner.chars ++ written ·)) ++
      (outer.chars ++ close :: rest)) = some (xs.map read, rest) := by
  cases xs with
  | nil =>
    rw [List.map_nil, List.intercalate_nil, List.nil_append, group, skip_close hclose]
    simp
  | cons x xs =>
    obtain ⟨hx, hxs⟩ := List.forall_mem_cons.mp hxs
    have hitem := hx.takes _ (continuesNumber_of_behind written inner outer hclose xs rest)
    have hskip := skip_of_opens hx.opens
    obtain ⟨c, tail, hopen, hc⟩ := hx.opens
    have hne : c ≠ close := by
      rintro rfl
      rcases hclose with rfl | rfl <;> exact absurd hc (by decide)
    -- Each further item has a comma, so that the characters left are fuel enough.
    have hfuel : xs.length < (xs.flatMap (fun x => [','] ++ (inner.chars ++ written x)) ++
        (outer.chars ++ close :: rest)).length + 1 := by
      have := length_le_flatMap written inner xs
      rw [List.length_append]
      omega
    have hmore := furtherItems_of_reads hclose inner outer rest hxs hfuel
    rw [List.map_cons, intercalate_cons_map, group, List.append_assoc, List.append_assoc,
      skip_gap, hskip]
    rw [hopen] at hitem ⊢
    simp only [List.cons_append, hne, if_false] at hitem hmore ⊢
    simp only [hitem, hmore, Option.bind_eq_bind, Option.bind_some]
    rfl

end Groups

/-- A list is read if its items are. -/
theorem reads_array {written : Json → List Char} {items : List Json} {depth : Nat}
    (inner outer : Gap) (hitems : ∀ item ∈ items, Reads (value depth) (written item) item) :
    Reads (value (depth + 1)) (grouped inner outer '[' ']' (items.map written)) (.array items) := by
  refine ⟨⟨'[', _, rfl, by decide⟩, ?_⟩
  intro rest _
  have hgroup := group_of_reads (Or.inl rfl) inner outer rest hitems
  simp only [grouped, List.map_map, List.cons_append, List.append_assoc, List.nil_append, value]
  simp only [Function.comp_def, hgroup, List.map_id', Option.bind_eq_bind, Option.bind_some]
  rfl

/-- Members whose keys are whole form an object. -/
theorem ofMembers_map (members : List (String × Json)) :
    ofMembers (members.map fun m => (some m.1, m.2)) = .object members := by
  have hmapM : members.mapM some = some members :=
    List.mapM_pure.trans (congrArg some (List.map_id' members))
  simp only [ofMembers, List.mapM_map, Function.comp_def, Option.map_some]
  rw [hmapM]

/-- An object is read if its members are. -/
theorem reads_object {written : String × Json → List Char} {members : List (String × Json)}
    {depth : Nat} (inner outer : Gap)
    (hmembers : ∀ m ∈ members, Reads (member (value depth)) (written m) (some m.1, m.2)) :
    Reads (value (depth + 1)) (grouped inner outer '\x7b' '\x7d' (members.map written))
      (.object members) := by
  refine ⟨⟨'\x7b', _, rfl, by decide⟩, ?_⟩
  intro rest _
  have hgroup := group_of_reads (Or.inr rfl) inner outer rest hmembers
  simp only [grouped, List.map_map, List.cons_append, List.append_assoc, List.nil_append, value]
  simp only [Function.comp_def, hgroup, Option.bind_eq_bind, Option.bind_some, ofMembers_map]
  rfl

/-- A member is read if its value is. -/
theorem reads_member {v : Json} {part : List Char} {item : Reader Json} (key : String) (gap : Gap)
    (h : Reads item part v) :
    Reads (member item) (Quoted.write key.toList ++ (':' :: gap.chars) ++ part) (some key, v) := by
  refine ⟨⟨'"', _, rfl, by decide⟩, ?_⟩
  intro rest hrest
  obtain ⟨pieces, hpieces, htext⟩ :=
    Quoted.pieces?_write key.toList (':' :: (gap.chars ++ (part ++ rest)))
  have hcolon : ∀ text, skip (':' :: text) = ':' :: text := fun _ => rfl
  simp only [Quoted.write, List.cons_append, List.append_assoc, List.nil_append, member]
  simp only [hpieces, htext, hcolon, skip_gap, skip_of_opens h.opens, h.takes rest hrest,
    Option.bind_eq_bind, Option.bind_some, Option.map_some, String.ofList_toList]
  rfl

/-! ## Writers -/

/-- A writer of JSON: the depth it is given may decide on the spaces it writes, and on nothing
else. -/
structure IsWriter (write : Nat → Json → List Char) : Prop where
  /-- Values that hold no others have no spaces. -/
  simple : ∀ depth v, v.items? = none → v.members? = none → write depth v = writeSimple v
  /-- The items of a list. -/
  array : ∀ depth items, ∃ inner outer,
    write depth (.array items) = grouped inner outer '[' ']' (items.map (write (depth + 1)))
  /-- The members of an object. -/
  object : ∀ depth members, ∃ inner outer, ∃ gap : Gap, write depth (.object members) =
    grouped inner outer '\x7b' '\x7d' (members.map fun m =>
      Quoted.write m.1.toList ++ (':' :: gap.chars) ++ write (depth + 1) m.2)

/-- The fuel of a reader that is enough for a group is enough for its parts. -/
theorem length_lt_grouped {inner outer : Gap} {opening close : Char} {parts : List (List Char)}
    {part : List Char} (h : part ∈ parts) :
    part.length < (grouped inner outer opening close parts).length := by
  obtain ⟨first, rest, rfl⟩ := List.exists_cons_of_ne_nil (List.ne_nil_of_mem h)
  rw [grouped, List.map_cons, intercalate_cons_map]
  rcases List.mem_cons.mp h with rfl | h
  · simp only [List.length_cons, List.length_append]
    omega
  · obtain ⟨before, behind, rfl⟩ := List.append_of_mem h
    simp only [List.flatMap_append, List.flatMap_cons, List.length_cons, List.length_append]
    omega

/-- Plain values are read back from what a writer writes. The length of the text is fuel enough:
every part of a group is shorter than the group. -/
theorem IsWriter.reads {write : Nat → Json → List Char} (hwrite : IsWriter write) {v : Json}
    (h : Plain v) (depth : Nat) {fuel : Nat} (hfuel : (write depth v).length ≤ fuel) :
    Reads (value fuel) (write depth v) v := by
  -- By induction on the value; the parts of a group may be laid out at any depth.
  induction h generalizing depth fuel with
  | null =>
    rw [hwrite.simple _ _ rfl rfl]
    exact reads_null fuel
  | bool b =>
    rw [hwrite.simple _ _ rfl rfl]
    exact reads_bool b fuel
  | ofNat n =>
    rw [hwrite.simple _ _ rfl rfl]
    exact reads_ofNat n fuel
  | str text =>
    rw [hwrite.simple _ _ rfl rfl]
    exact reads_str text fuel
  | @array items _ ih =>
    obtain ⟨inner, outer, heq⟩ := hwrite.array depth items
    rw [heq] at hfuel ⊢
    cases fuel with
    | zero => exact absurd hfuel (Nat.not_succ_le_zero _)
    | succ fuel =>
      apply reads_array
      intro item hitem
      apply ih item hitem
      have hlt := Nat.lt_of_lt_of_le (length_lt_grouped (List.mem_map_of_mem hitem)) hfuel
      omega
  | @object members _ ih =>
    obtain ⟨inner, outer, gap, heq⟩ := hwrite.object depth members
    rw [heq] at hfuel ⊢
    cases fuel with
    | zero => exact absurd hfuel (Nat.not_succ_le_zero _)
    | succ fuel =>
      apply reads_object
      intro m hm
      apply reads_member
      apply ih m hm
      have hlt := Nat.lt_of_lt_of_le (length_lt_grouped (List.mem_map_of_mem hm)) hfuel
      rw [List.length_append] at hlt
      omega

/-- A text on which a plain value was written is read as that value. -/
theorem IsWriter.parse? {write : Nat → Json → List Char} (hwrite : IsWriter write) {v : Json}
    (h : Plain v) (depth : Nat) : Json.parse? (String.ofList (write depth v)) = some v := by
  have hreads := hwrite.reads h depth (Nat.le_refl _)
  have hskip := skip_of_opens hreads.opens []
  have htakes := hreads.takes [] (fun _ h => nomatch h)
  rw [List.append_nil] at hskip htakes
  simp only [Json.parse?, parseWithin?, String.length_ofList, String.toList_ofList, hskip, htakes,
    Option.bind_eq_bind, Option.bind_some]
  rfl

/-- On one line, items are written one by one. -/
theorem writeFlatItems_eq_map (items : List Json) : writeFlatItems items = items.map writeFlat := by
  induction items with
  | nil => rfl
  | cons item items ih => rw [writeFlatItems, ih, List.map_cons]

/-- On one line, members are written one by one, each behind its name and a colon. -/
theorem writeFlatMembers_eq_map (members : List (String × Json)) :
    writeFlatMembers members =
      members.map fun m => Quoted.write m.1.toList ++ [':'] ++ writeFlat m.2 := by
  induction members with
  | nil => rfl
  | cons m members ih => rw [writeFlatMembers, ih, List.map_cons]

/-- Writing on one line is a writer. -/
theorem isWriter_writeFlat : IsWriter fun _ => writeFlat where
  simple _ v hitems hmembers := by
    cases v with
    | array => cases hitems
    | object => cases hmembers
    | _ => rfl
  array _ items := by
    refine ⟨.none, .none, ?_⟩
    rw [writeFlat, writeFlatItems_eq_map, grouped]
    simp [Gap.none, Function.comp_def]
  object _ members := by
    refine ⟨.none, .none, .none, ?_⟩
    rw [writeFlat, writeFlatMembers_eq_map, grouped]
    simp [Gap.none, Function.comp_def]

/-- Over several lines, items are written one by one. -/
theorem writeItems_eq_map (depth : Nat) (items : List Json) :
    writeItems depth items = items.map (writeAt depth) := by
  induction items with
  | nil => rfl
  | cons item items ih => rw [writeItems, ih, List.map_cons]

/-- Over several lines, members are written one by one, each behind its name, a colon and a space.
-/
theorem writeMembers_eq_map (depth : Nat) (members : List (String × Json)) :
    writeMembers depth members =
      members.map fun m => Quoted.write m.1.toList ++ [':', ' '] ++ writeAt depth m.2 := by
  induction members with
  | nil => rfl
  | cons m members ih => rw [writeMembers, ih, List.map_cons]

/-- A line end and the spaces behind it. -/
def Gap.line (depth : Nat) : Gap where
  chars := lineBreak depth
  spaces c hc := by
    rcases List.mem_cons.mp hc with rfl | hc
    · rfl
    · rw [List.eq_of_mem_replicate hc]
      rfl

/-- Nothing is written between the brackets of an empty group, otherwise line ends. -/
theorem exists_enclose_eq_grouped (depth : Nat) (opening close : Char) (parts : List (List Char)) :
    ∃ inner outer, enclose depth opening close parts = grouped inner outer opening close parts := by
  cases parts with
  | nil => exact ⟨.none, .none, rfl⟩
  | cons part parts => exact ⟨.line (depth + 1), .line depth, rfl⟩

/-- Writing over several lines is a writer. -/
theorem isWriter_writeAt : IsWriter writeAt where
  simple _ v hitems hmembers := by
    cases v with
    | array => cases hitems
    | object => cases hmembers
    | _ => rfl
  array depth items := by
    rw [writeAt, writeItems_eq_map]
    exact exists_enclose_eq_grouped _ _ _ _
  object depth members := by
    rw [writeAt, writeMembers_eq_map]
    obtain ⟨inner, outer, heq⟩ := exists_enclose_eq_grouped depth '\x7b' '\x7d'
      (members.map fun m => Quoted.write m.1.toList ++ [':', ' '] ++ writeAt (depth + 1) m.2)
    exact ⟨inner, outer, ⟨[' '], by simp [isSpace]⟩, heq⟩

/-- A plain value is read back from its text on one line. -/
theorem parse?_compact {v : Json} (h : Plain v) : Json.parse? v.compact = some v :=
  isWriter_writeFlat.parse? h 0

/-- A plain value is read back from its text over several lines. -/
theorem parse?_pretty {v : Json} (h : Plain v) : Json.parse? v.pretty = some v :=
  isWriter_writeAt.parse? h 0

end Json
end EmbeddedGraphQL
