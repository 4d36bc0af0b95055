import EmbeddedGraphQL.Proofs.Document.Glyphs
import EmbeddedGraphQL.Proofs.Document.Reading

/-!
# Reading glyphs

A reader sees the tokens that are left, and of these only the lexemes and the commas in front of
them matter for what it reads. `Reader.Reads` says that a reader takes given glyphs from the front,
if what follows suits it, and what it gives; it composes along the readers.

* `Cursor.Shows`: the glyphs of the tokens that are left.
* `Reader.Reads`: a reader that takes given glyphs.
* `Reader.Fails`: a reader that fails on given glyphs.
* `Glyph.Row`: parts with commas anywhere between them.
-/

namespace EmbeddedGraphQL

namespace Glyph

/-- The first lexeme of some glyphs. -/
def next : List Glyph → Option Lexeme
  | [] => none
  | .comma :: gs => next gs
  | .lexeme l :: _ => some l

/-- The number of lexemes among some glyphs. -/
def lexemeCount : List Glyph → Nat
  | [] => 0
  | .comma :: gs => lexemeCount gs
  | .lexeme _ :: gs => lexemeCount gs + 1

@[simp] theorem next_comma (gs : List Glyph) : next (.comma :: gs) = next gs := rfl

@[simp] theorem next_lexeme (l : Lexeme) (gs : List Glyph) : next (.lexeme l :: gs) = some l := rfl

/-- There are as many keys as lexemes. -/
theorem length_keys (behind : Bool) (gs : List Glyph) :
    (keys behind gs).length = lexemeCount gs := by
  fun_induction keys behind gs with
  | case1 => rfl
  | case2 _ gs ih => exact ih
  | case3 behind l gs ih => rw [List.length_cons, ih, lexemeCount]

/-- The lexemes of two rows of glyphs are counted one row after the other. -/
theorem lexemeCount_append (gs hs : List Glyph) :
    lexemeCount (gs ++ hs) = lexemeCount gs + lexemeCount hs := by
  fun_induction lexemeCount gs with
  | case1 => simp
  | case2 gs ih => exact ih
  | case3 l gs ih =>
    rw [List.cons_append, lexemeCount, ih]
    omega

end Glyph

open Glyph (next)

/-! ## What a cursor shows -/

/-- Whether the tokens that are left are some glyphs. -/
def Cursor.Shows (c : Cursor) (gs : List Glyph) : Prop :=
  ∃ behind, c.tokens.map Token.key = Glyph.keys behind gs

namespace Cursor.Shows

variable {c : Cursor} {gs : List Glyph} {l : Lexeme}

/-- A comma at the front does not matter. -/
theorem of_comma (h : c.Shows (.comma :: gs)) : c.Shows gs := by
  obtain ⟨_, h⟩ := h
  exact ⟨true, h⟩

/-- The first token and what is left behind it. -/
theorem exists_cons (h : c.Shows (.lexeme l :: gs)) :
    ∃ t rest, c.tokens = t :: rest ∧ t.lexeme = l ∧
      rest.map Token.key = Glyph.keys false gs := by
  obtain ⟨behind, h⟩ := h
  rw [Glyph.keys] at h
  obtain ⟨t, rest, htokens, ht, hrest⟩ := List.map_eq_cons_iff.mp h
  exact ⟨t, rest, htokens, congrArg Prod.fst ht, hrest⟩

/-- The first lexeme that is left. -/
theorem head? (h : c.Shows gs) : c.tokens.head?.map (·.lexeme) = next gs := by
  obtain ⟨behind, h⟩ := h
  have hkeys : (Glyph.keys behind gs).head?.map (·.1) = next gs := by
    clear h
    fun_induction Glyph.keys behind gs with
    | case1 => rfl
    | case2 _ gs ih => exact ih
    | case3 behind l gs => rfl
  rw [← hkeys, ← h, List.head?_map, Option.map_map]
  rfl

/-- The token after the next one, if no comma stands in between. -/
theorem peekSecond {m : Lexeme} (h : c.Shows (.lexeme l :: .lexeme m :: gs)) :
    Reader.peekSecond c = some (some m, c) := by
  obtain ⟨t, tokens, htokens, -, hkeys⟩ := h.exists_cons
  have hkeys : tokens.map Token.key = (m, false) :: Glyph.keys false gs := hkeys
  obtain ⟨u, tail, rfl, hu, -⟩ := List.map_eq_cons_iff.mp hkeys
  obtain ⟨hlexeme, hcomma⟩ := Prod.mk.inj hu
  have hfilter : (some u).filter (!·.afterComma) = some u := by simp [Option.filter, hcomma]
  rw [Reader.peekSecond, htokens]
  show some (((some u).filter (!·.afterComma)).map (·.lexeme), c) = _
  rw [hfilter, Option.map_some, hlexeme]

/-- A place shows as many lexemes as there are tokens left. -/
theorem length (h : c.Shows gs) : c.tokens.length = Glyph.lexemeCount gs := by
  obtain ⟨behind, h⟩ := h
  rw [← Glyph.length_keys behind gs, ← h, List.length_map]

end Cursor.Shows

/-! ## Readers that take glyphs -/

namespace Reader

variable {α β : Type}

/-- Whether a reader takes given glyphs from the front if what follows suits it, and everything it
gives then has a property. -/
def Reads (r : Reader α) (gs : List Glyph) (follow : Option Lexeme → Prop) (Q : α → Prop) : Prop :=
  ∀ ⦃c : Cursor⦄ ⦃rest : List Glyph⦄, c.Shows (gs ++ rest) → follow (next rest) →
    ∃ x c', r c = some (x, c') ∧ c'.Shows rest ∧ Q x

/-- Whether a reader fails on given glyphs if what follows suits it. -/
def Fails (r : Reader α) (gs : List Glyph) (follow : Option Lexeme → Prop) : Prop :=
  ∀ ⦃c : Cursor⦄ ⦃rest : List Glyph⦄, c.Shows (gs ++ rest) → follow (next rest) → r c = none

/-- Nothing is asked of what follows. -/
def anyNext : Option Lexeme → Prop := fun _ => True

namespace Reads

variable {r : Reader α} {f : α → Reader β} {gs ks ls : List Glyph} {F G : Option Lexeme → Prop}
  {P P' : α → Prop} {Q : β → Prop}

/-- A weaker property of what is read. -/
theorem imp (hr : r.Reads gs F P) (h : ∀ x, P x → P' x) : r.Reads gs F P' := by
  intro c rest hc hrest
  obtain ⟨x, c', hx, hc', hP⟩ := hr hc hrest
  exact ⟨x, c', hx, hc', h x hP⟩

/-- More may be asked of what follows. -/
theorem before (hr : r.Reads gs F P) (h : ∀ next, G next → F next) : r.Reads gs G P :=
  fun _ _ hc hrest => hr hc (h _ hrest)

/-- A reader that gives a value at once takes nothing. -/
theorem pure {x : α} (h : P x) : (Pure.pure x : Reader α).Reads [] F P :=
  fun c _ hc _ => ⟨x, c, rfl, hc, h⟩

/-- One reader after another, if what the second one takes suits the first one. -/
theorem bind (hr : r.Reads ks F P) (hf : ∀ x, P x → (f x).Reads ls G Q)
    (hfollow : ∀ rest, G (next rest) → F (next (ls ++ rest))) :
    (r >>= f).Reads (ks ++ ls) G Q := by
  intro c rest hc hrest
  rw [List.append_assoc] at hc
  obtain ⟨x, d, hx, hd, hP⟩ := hr hc (hfollow rest hrest)
  obtain ⟨y, c', hy, hc', hQ⟩ := hf x hP hd hrest
  exact ⟨y, c', bind_eq_some.mpr ⟨x, d, hx, hy⟩, hc', hQ⟩

/-- A reader of one glyph to which it does not matter what follows, and then another reader. -/
theorem andThen {g : Glyph} (hr : r.Reads [g] anyNext P) (hf : ∀ x, P x → (f x).Reads ls G Q) :
    (r >>= f).Reads (g :: ls) G Q := hr.bind hf fun _ _ => trivial

/-- A reader that takes nothing, and then another reader. -/
theorem thenAll (hr : r.Reads [] F P) (hf : ∀ x, P x → (f x).Reads ls G Q)
    (hfollow : ∀ rest, G (next rest) → F (next (ls ++ rest))) : (r >>= f).Reads ls G Q :=
  hr.bind hf hfollow

/-- A reader that takes everything, and then another reader. -/
theorem last (hr : r.Reads gs F P) (hf : ∀ x, P x → (f x).Reads [] G Q)
    (hfollow : ∀ next, G next → F next) : (r >>= f).Reads gs G Q := by
  have hall := hr.bind hf fun rest hrest => hfollow _ hrest
  rwa [List.append_nil] at hall

/-- A reader that takes everything, whose result is changed. -/
theorem map {g : α → β} (hr : r.Reads gs F P) (h : ∀ x, P x → Q (g x)) :
    (g <$> r).Reads gs F Q := by
  intro c rest hc hrest
  obtain ⟨x, c', hx, hc', hP⟩ := hr hc hrest
  have hmap := bind_eq_some (f := fun x => (Pure.pure (g x) : Reader β)).mpr ⟨x, c', hx, rfl⟩
  exact ⟨g x, c', hmap, hc', h x hP⟩

/-- A reader that only looks, and then another reader. -/
theorem look (look : Cursor → α) (hf : ∀ x, (f x).Reads gs G Q) :
    ((fun c => some (look c, c) : Reader α) >>= f).Reads gs G Q := by
  intro c rest hc hrest
  obtain ⟨y, c', hy, hc', hQ⟩ := hf (look c) hc hrest
  exact ⟨y, c', bind_eq_some.mpr ⟨look c, c, rfl, hy⟩, hc', hQ⟩

/-- A reader may look at where the next token starts. -/
theorem start {f : Nat → Reader β} (hf : ∀ n, (f n).Reads gs G Q) :
    (Reader.start >>= f).Reads gs G Q := look _ hf

/-- A reader may look at where the last token stopped. -/
theorem stop {f : Nat → Reader β} (hf : ∀ n, (f n).Reads gs G Q) :
    (Reader.stop >>= f).Reads gs G Q := look _ hf

/-- A reader that looks at the next token, and then another reader. -/
theorem peek {f : Option Lexeme → Reader β}
    (hf : ∀ rest, G (next rest) → (f (next (gs ++ rest))).Reads gs G Q) :
    (Reader.peek >>= f).Reads gs G Q := by
  intro c rest hc hrest
  obtain ⟨y, c', hy, hc', hQ⟩ := hf rest hrest hc hrest
  exact ⟨y, c', bind_eq_some.mpr ⟨_, c, by rw [Reader.peek, hc.head?], hy⟩, hc', hQ⟩

/-- The token after the next one, if no comma stands in between. -/
theorem peekSecond {f : Option Lexeme → Reader β} {l m : Lexeme}
    (hf : (f (some m)).Reads (.lexeme l :: .lexeme m :: gs) G Q) :
    (Reader.peekSecond >>= f).Reads (.lexeme l :: .lexeme m :: gs) G Q := by
  intro c rest hc hrest
  obtain ⟨y, c', hy, hc', hQ⟩ := hf hc hrest
  exact ⟨y, c', bind_eq_some.mpr ⟨some m, c, hc.peekSecond, hy⟩, hc', hQ⟩

/-- The token after the next one is the first one of what follows or not to be seen. -/
theorem peekSecond_last {f : Option Lexeme → Reader β} {l : Lexeme}
    (hf : ∀ rest, G (next rest) → ∀ m, (m = none ∨ m = next (gs ++ rest)) →
      (f m).Reads (.lexeme l :: gs) G Q) :
    (Reader.peekSecond >>= f).Reads (.lexeme l :: gs) G Q := by
  intro c rest hc hrest
  obtain ⟨t, tokens, htokens, -, hkeys⟩ := hc.exists_cons
  have hnext : tokens.head?.map (·.lexeme) = next (gs ++ rest) :=
    Cursor.Shows.head? (c := ⟨tokens, 0⟩) ⟨false, hkeys⟩
  have hsecond : (tokens.head?.filter (!·.afterComma)).map (·.lexeme) = none ∨
      (tokens.head?.filter (!·.afterComma)).map (·.lexeme) = next (gs ++ rest) := by
    rw [← hnext]
    cases tokens.head? with
    | none => exact Or.inl rfl
    | some u => cases hcomma : u.afterComma <;> simp [Option.filter, hcomma]
  obtain ⟨y, c', hy, hc', hQ⟩ := hf rest hrest _ hsecond hc hrest
  refine ⟨y, c', bind_eq_some.mpr ⟨_, c, ?_, hy⟩, hc', hQ⟩
  rw [Reader.peekSecond, htokens]
  rfl

end Reads

namespace Fails

variable {r : Reader α} {f : α → Reader β} {gs ks ls : List Glyph} {F G : Option Lexeme → Prop}
  {P : α → Prop}

/-- The first of two readers fails. -/
theorem first (hr : r.Fails gs G) : (r >>= f).Fails gs G := by
  intro c rest hc hrest
  show (r c).bind _ = none
  rw [hr hc hrest, Option.bind_none]

/-- The second of two readers fails. -/
theorem bind (hr : r.Reads ks F P) (hf : ∀ x, P x → (f x).Fails ls G)
    (hfollow : ∀ rest, G (next rest) → F (next (ls ++ rest))) :
    (r >>= f).Fails (ks ++ ls) G := by
  intro c rest hc hrest
  rw [List.append_assoc] at hc
  obtain ⟨x, d, hx, hd, hP⟩ := hr hc (hfollow rest hrest)
  show (r c).bind _ = none
  rw [hx, Option.bind_some]
  exact hf x hP hd hrest

/-- A single glyph is read, and the next reader fails behind it. -/
theorem andThen {g : Glyph} (hr : r.Reads [g] anyNext P) (hf : ∀ x, P x → (f x).Fails ls G) :
    (r >>= f).Fails (g :: ls) G := bind hr hf fun _ _ => trivial

/-- A reader that takes nothing, and then one that fails. -/
theorem thenAll (hr : r.Reads [] F P) (hf : ∀ x, P x → (f x).Fails ls G)
    (hfollow : ∀ rest, G (next rest) → F (next (ls ++ rest))) : (r >>= f).Fails ls G :=
  bind hr hf hfollow

/-- A reader that takes everything, and then one that fails. -/
theorem last (hr : r.Reads gs F P) (hf : ∀ x, P x → (f x).Fails [] G)
    (hfollow : ∀ next, G next → F next) : (r >>= f).Fails gs G := by
  have hall := bind hr hf fun rest hrest => hfollow _ hrest
  rwa [List.append_nil] at hall

/-- A reader that only looks, and then one that fails. -/
theorem look (look : Cursor → α) (hf : ∀ x, (f x).Fails gs G) :
    ((fun c => some (look c, c) : Reader α) >>= f).Fails gs G := by
  intro c rest hc hrest
  exact hf (look c) hc hrest

/-- A reader may look at the next lexeme before it fails. -/
theorem peek {f : Option Lexeme → Reader β}
    (hf : ∀ rest, G (next rest) → (f (next (gs ++ rest))).Fails gs G) :
    (Reader.peek >>= f).Fails gs G := by
  intro c rest hc hrest
  have hfails := hf rest hrest hc hrest
  rw [← hc.head?] at hfails
  exact hfails

end Fails

/-! ## Single tokens -/

/-- Any lexeme can be taken. -/
theorem take_reads (l : Lexeme) : take.Reads [.lexeme l] anyNext (· = l) := by
  intro c rest hc _
  obtain ⟨t, tokens, htokens, hlexeme, hkeys⟩ := hc.exists_cons
  refine ⟨l, ⟨tokens, t.span.stop⟩, ?_, ⟨false, hkeys⟩, rfl⟩
  rw [take, htokens, ← hlexeme]

/-- A name is read. -/
theorem name_reads (text : String) : name.Reads [.lexeme (.name text)] anyNext (· = text) := by
  intro c rest hc _
  obtain ⟨t, tokens, htokens, hlexeme, hkeys⟩ := hc.exists_cons
  exact ⟨text, ⟨tokens, t.span.stop⟩, name_eq_some.mpr ⟨t, tokens, htokens, hlexeme, rfl⟩,
    ⟨false, hkeys⟩, rfl⟩

/-- The lexeme that is asked for is taken. -/
theorem accept_reads (l : Lexeme) : (accept l).Reads [.lexeme l] anyNext (· = true) := by
  refine .peek fun rest _ => ?_
  rw [List.singleton_append, Glyph.next_lexeme, if_pos rfl]
  exact (take_reads l).andThen fun _ _ => .pure rfl

/-- A token that does not come next is not taken. -/
theorem accept_reads_nil (l : Lexeme) : (accept l).Reads [] (· ≠ some l) (· = false) := by
  refine .peek fun rest hrest => ?_
  rw [List.nil_append, if_neg hrest]
  exact .pure rfl

/-- A token that comes next or not is taken if it does. -/
theorem accept_reads_if (l : Lexeme) (present : Bool) :
    (accept l).Reads (if present then [.lexeme l] else []) (· ≠ some l) (· = present) := by
  cases present with
  | true => exact (accept_reads l).before fun _ _ => trivial
  | false => exact accept_reads_nil l

/-- The lexeme that has to come is taken. -/
theorem expect_reads (l : Lexeme) : (expect l).Reads [.lexeme l] anyNext fun _ => True := by
  refine (accept_reads l).andThen fun accepted haccepted => ?_
  rw [haccepted, if_pos rfl]
  exact .pure trivial

/-- A mark that is expected is read from its glyph. -/
theorem expectMark_reads (c : Char) :
    (expectMark c).Reads [.lexeme (.mark c)] anyNext fun _ => True := expect_reads _

/-- A mark that stands there is accepted. -/
theorem acceptMark_reads (c : Char) :
    (acceptMark c).Reads [.lexeme (.mark c)] anyNext (· = true) := accept_reads _

/-- A mark that does not stand there is left out. -/
theorem acceptMark_reads_nil (c : Char) :
    (acceptMark c).Reads [] (· ≠ some (.mark c)) (· = false) := accept_reads_nil _

/-! ## Items in a row -/

/-- Whether two lists agree item by item. -/
def Agree (E : α → β → Prop) : List α → List β → Prop
  | [], [] => True
  | x :: xs, y :: ys => E x y ∧ Agree E xs ys
  | _, _ => False

end Reader

/-- Parts in a row, with commas anywhere between them. -/
inductive Glyph.Row : List (List Glyph) → List Glyph → Prop where
  /-- Nothing. -/
  | nil : Row [] []
  /-- A comma in front of a row. -/
  | comma {parts : List (List Glyph)} {gs : List Glyph} (h : Row parts gs) :
      Row parts (.comma :: gs)
  /-- A part in front of a row. -/
  | part {parts : List (List Glyph)} {gs : List Glyph} (p : List Glyph) (h : Row parts gs) :
      Row (p :: parts) (p ++ gs)

namespace Glyph.Row

/-- Parts side by side are a row. -/
theorem flatten (parts : List (List Glyph)) : Row parts parts.flatten := by
  induction parts with
  | nil => exact .nil
  | cons p parts ih => exact .part p ih

/-- Parts with a comma behind each are a row. -/
theorem flatMap (parts : List (List Glyph)) : Row parts (parts.flatMap (· ++ [.comma])) := by
  induction parts with
  | nil => exact .nil
  | cons p parts ih =>
    rw [List.flatMap_cons, List.append_assoc]
    exact .part p (.comma ih)

/-- Parts with commas between them are a row. -/
theorem intercalate (parts : List (List Glyph)) : Row parts (List.intercalate [.comma] parts) := by
  induction parts with
  | nil => exact .nil
  | cons p parts ih =>
    by_cases hparts : parts = []
    · subst hparts
      simpa using Row.part p .nil
    · rw [List.intercalate_cons_of_ne_nil hparts, List.append_assoc]
      exact .part p (.comma ih)

end Glyph.Row

namespace Reader

variable {α β γ : Type}

section Items

variable {item : Reader β} {g : α → List Glyph} {F : Option Lexeme → Prop} {E : α → β → Prop}
  {close : Char}

/-- What is asked of items in front of a closing mark: each is read, starts with something else
than the mark, and suits what comes before it. -/
structure ReadsItems (item : Reader β) (g : α → List Glyph) (F : Option Lexeme → Prop)
    (E : α → β → Prop) (close : Char) (xs : List α) : Prop where
  reads : ∀ x ∈ xs, item.Reads (g x) F (E x)
  starts : ∀ x ∈ xs, ∃ l gs, g x = .lexeme l :: gs ∧ l ≠ .mark close ∧ F (some l)
  follows : F (some (.mark close))

/-- If some items can be read one by one, so can all but the first. -/
theorem ReadsItems.of_cons {x : α} {xs : List α} (h : ReadsItems item g F E close (x :: xs)) :
    ReadsItems item g F E close xs :=
  ⟨fun y hy => h.reads y (List.mem_cons_of_mem x hy),
    fun y hy => h.starts y (List.mem_cons_of_mem x hy), h.follows⟩

/-- What follows an item in a row is the start of the next one or the closing mark. -/
theorem ReadsItems.next_row {xs : List α} {gs : List Glyph}
    (h : ReadsItems item g F E close xs) (hrow : Glyph.Row (xs.map g) gs) (rest : List Glyph) :
    F (next (gs ++ .lexeme (.mark close) :: rest)) := by
  generalize hparts : xs.map g = parts at hrow
  induction hrow generalizing xs with
  | nil => exact h.follows
  | comma _ ih => exact ih h hparts
  | part p _ ih =>
    obtain ⟨x, xs, rfl, rfl, -⟩ := List.map_eq_cons_iff.mp hparts
    obtain ⟨l, gs', hl, -, hF⟩ := h.starts x List.mem_cons_self
    rw [hl]
    exact hF

/-- Items in a row are read up to the closing mark, by the fuel. -/
theorem untilMarkUpTo_reads {fuel : Nat} {xs : List α} {gs : List Glyph}
    (h : ReadsItems item g F E close xs) (hrow : Glyph.Row (xs.map g) gs)
    (hfuel : xs.length < fuel) :
    (untilMarkUpTo close item fuel).Reads (gs ++ [.lexeme (.mark close)]) anyNext
      (Agree E xs) := by
  -- By induction over the row: its commas are skipped, and every part takes one unit of fuel.
  generalize hparts : xs.map g = parts at hrow
  induction hrow generalizing xs fuel with
  | nil =>
    obtain rfl := List.map_eq_nil_iff.mp hparts
    obtain ⟨fuel, rfl⟩ := Nat.exists_eq_add_of_lt hfuel
    refine (acceptMark_reads close).andThen fun accepted haccepted => ?_
    rw [haccepted, if_pos rfl]
    exact .pure trivial
  | comma _ ih =>
    intro c rest hc hrest
    exact ih h hfuel hparts hc.of_comma hrest
  | part p hrow ih =>
    obtain ⟨x, xs, rfl, rfl, rfl⟩ := List.map_eq_cons_iff.mp hparts
    rw [List.length_cons] at hfuel
    obtain ⟨fuel, rfl⟩ := Nat.exists_eq_add_of_lt (Nat.lt_of_le_of_lt (Nat.zero_le _) hfuel)
    rw [Nat.zero_add] at hfuel ⊢
    -- The part is not taken for the closing mark.
    obtain ⟨l, tail, hl, hclose, -⟩ := h.starts x List.mem_cons_self
    have hitems := ih h.of_cons (Nat.lt_of_succ_lt_succ hfuel) rfl
    refine (acceptMark_reads_nil close).thenAll (fun accepted haccepted => ?_) fun rest _ => ?_
    · rw [haccepted, if_neg Bool.false_ne_true, List.append_assoc]
      refine (h.reads x List.mem_cons_self).bind (fun y hy => ?_) fun rest _ => ?_
      · exact hitems.last (fun ys hys => .pure ⟨hy, hys⟩) fun _ _ => trivial
      · rw [List.append_assoc]
        exact h.of_cons.next_row hrow rest
    · rw [hl]
      simpa using hclose

/-- There are as many lexemes as items, if each item has one. -/
theorem ReadsItems.length_le {xs : List α} {gs : List Glyph}
    (h : ReadsItems item g F E close xs) (hrow : Glyph.Row (xs.map g) gs) :
    xs.length ≤ Glyph.lexemeCount gs := by
  generalize hparts : xs.map g = parts at hrow
  induction hrow generalizing xs with
  | nil => simp [List.map_eq_nil_iff.mp hparts]
  | comma _ ih => exact ih h hparts
  | part p _ ih =>
    obtain ⟨x, xs, rfl, rfl, rfl⟩ := List.map_eq_cons_iff.mp hparts
    obtain ⟨l, gs', hl, -, -⟩ := h.starts x List.mem_cons_self
    have hrest := ih h.of_cons rfl
    rw [Glyph.lexemeCount_append, hl, Glyph.lexemeCount, List.length_cons]
    omega

/-- Items in a row are read up to the closing mark. -/
theorem untilMark_reads {xs : List α} {gs : List Glyph} (h : ReadsItems item g F E close xs)
    (hrow : Glyph.Row (xs.map g) gs) :
    (untilMark close item).Reads (gs ++ [.lexeme (.mark close)]) anyNext (Agree E xs) := by
  intro c rest hc hrest
  -- The fuel is the number of tokens, of which every item takes one at least.
  have hfuel : xs.length < c.tokens.length := by
    have hle := h.length_le hrow
    rw [hc.length, Glyph.lexemeCount_append, Glyph.lexemeCount_append]
    simp only [Glyph.lexemeCount]
    omega
  obtain ⟨ys, c', hys, hc', hagree⟩ := untilMarkUpTo_reads h hrow hfuel hc hrest
  exact ⟨ys, c', bind_eq_some.mpr ⟨_, c, rfl, hys⟩, hc', hagree⟩

/-- The first item and the others, whose opening mark was read. -/
theorem itemsUntilMark_reads {x : α} {xs : List α} {gs : List Glyph}
    (h : ReadsItems item g F E close (x :: xs)) (hrow : Glyph.Row ((x :: xs).map g) gs) :
    Reads (do
      let first ← item
      let rest ← untilMark close item
      return first :: rest) (gs ++ [.lexeme (.mark close)]) anyNext (Agree E (x :: xs)) := by
  generalize hparts : (x :: xs).map g = parts at hrow
  induction hrow with
  | nil => cases hparts
  | comma _ ih =>
    intro c rest hc hrest
    exact ih hparts hc.of_comma hrest
  | part p hrow _ =>
    cases hparts
    rw [List.append_assoc]
    refine (h.reads x List.mem_cons_self).bind (fun y hy => ?_) fun rest _ => ?_
    · exact (untilMark_reads h.of_cons hrow).last (fun ys hys => .pure ⟨hy, hys⟩) fun _ _ => trivial
    · rw [List.append_assoc]
      exact h.of_cons.next_row hrow rest

/-- Items between two marks are read, if there is one at least. -/
theorem between_reads (opening : Char) {xs : List α} {gs : List Glyph} (hne : xs ≠ [])
    (h : ReadsItems item g F E close xs) (hrow : Glyph.Row (xs.map g) gs) :
    (between opening close item).Reads
      (.lexeme (.mark opening) :: (gs ++ [.lexeme (.mark close)])) anyNext (Agree E xs) := by
  obtain ⟨x, xs, rfl⟩ := List.exists_cons_of_ne_nil hne
  exact (expectMark_reads opening).andThen fun _ _ => itemsUntilMark_reads h hrow

/-- Items between two marks are read, or that there are none. -/
theorem betweenIfAny_reads (opening : Char) {xs : List α} {gs : List Glyph}
    (h : ReadsItems item g F E close xs) (hrow : Glyph.Row (xs.map g) gs) :
    (betweenIfAny opening close item).Reads
      (if xs.isEmpty then [] else .lexeme (.mark opening) :: (gs ++ [.lexeme (.mark close)]))
      (· ≠ some (.mark opening)) (Agree E xs) := by
  refine .peek fun rest hrest => ?_
  cases xs with
  | nil =>
    rw [List.isEmpty_nil, if_pos rfl, List.nil_append, if_neg hrest]
    exact .pure trivial
  | cons x xs =>
    rw [List.isEmpty_cons, if_neg Bool.false_ne_true, List.cons_append, Glyph.next_lexeme,
      if_pos rfl]
    exact (between_reads opening (List.cons_ne_nil x xs) h hrow).before fun _ _ => trivial

end Items

/-! ## Items behind a token or between marks -/

section Heads

variable {item : Reader β} {g : α → List Glyph} {F : Option Lexeme → Prop} {E : α → β → Prop}
  {head : Lexeme}

/-- Items behind their marks are read as long as such a mark comes next, by the fuel. -/
theorem whileNextUpTo_reads {fuel : Nat} {xs : List α} (hhead : F (some head))
    (hreads : ∀ x ∈ xs, item.Reads (.lexeme head :: g x) F (E x)) (hfuel : xs.length ≤ fuel) :
    (whileNextUpTo head item fuel).Reads (xs.flatMap fun x => .lexeme head :: g x)
      (fun next => next ≠ some head ∧ F next) (Agree E xs) := by
  induction xs generalizing fuel with
  | nil =>
    cases fuel with
    | zero => exact .pure trivial
    | succ fuel =>
      refine .peek fun rest hrest => ?_
      rw [List.flatMap_nil, List.nil_append, if_neg hrest.1]
      exact .pure trivial
  | cons x xs ih =>
    rw [List.length_cons] at hfuel
    obtain ⟨fuel, rfl⟩ := Nat.exists_eq_add_of_lt (Nat.lt_of_lt_of_le (Nat.zero_lt_succ _) hfuel)
    rw [Nat.zero_add] at hfuel ⊢
    obtain ⟨hx, hxs⟩ := List.forall_mem_cons.mp hreads
    have hrest := ih hxs (Nat.le_of_succ_le_succ hfuel)
    refine .peek fun rest _ => ?_
    rw [List.flatMap_cons, List.cons_append, List.cons_append, Glyph.next_lexeme, if_pos rfl,
      ← List.cons_append]
    -- An item is followed by the mark of the next one or by what follows them all.
    refine hx.bind (fun y hy => ?_) fun rest hnext => ?_
    · exact hrest.last (fun ys hys => .pure ⟨hy, hys⟩) fun _ hnext => hnext
    · cases xs with
      | nil => exact hnext.2
      | cons x' xs => exact hhead

/-- Items behind their marks are read as long as such a mark comes next. -/
theorem whileNext_reads {xs : List α} (hhead : F (some head))
    (hreads : ∀ x ∈ xs, item.Reads (.lexeme head :: g x) F (E x)) :
    (whileNext head item).Reads (xs.flatMap fun x => .lexeme head :: g x)
      (fun next => next ≠ some head ∧ F next) (Agree E xs) := by
  intro c rest hc hrest
  have hcount : xs.length ≤ Glyph.lexemeCount (xs.flatMap fun x => .lexeme head :: g x) := by
    clear hc hreads
    induction xs with
    | nil => exact Nat.zero_le _
    | cons x xs ih =>
      rw [List.flatMap_cons, Glyph.lexemeCount_append, Glyph.lexemeCount, List.length_cons]
      omega
  have hfuel : xs.length ≤ c.tokens.length := by
    rw [hc.length, Glyph.lexemeCount_append]
    omega
  obtain ⟨ys, c', hys, hc', hagree⟩ := whileNextUpTo_reads hhead hreads hfuel hc hrest
  exact ⟨ys, c', bind_eq_some.mpr ⟨_, c, rfl, hys⟩, hc', hagree⟩

end Heads

/-- Items that are read as they were make up the list that was written. -/
theorem Agree.eq {xs ys : List α} (h : Agree (fun x y => y = x) xs ys) : ys = xs := by
  fun_induction Agree (fun x y : α => y = x) xs ys with
  | case1 => rfl
  | case2 x xs y ys ih =>
    obtain ⟨rfl, hrest⟩ := h
    rw [ih hrest]
  | case3 => exact h.elim

/-- Names between marks. -/
theorem separated_reads (mark : Char) {item : Reader String} {names : List String}
    (hne : names ≠ [])
    (hreads : ∀ n ∈ names, item.Reads [.lexeme (.name n)] anyNext (· = n)) :
    (separated mark item).Reads
      (List.intercalate [.lexeme (.mark mark)] (names.map fun n => [.lexeme (.name n)]))
      (· ≠ some (.mark mark)) (· = names) := by
  obtain ⟨first, rest, rfl⟩ := List.exists_cons_of_ne_nil hne
  obtain ⟨hfirst, hrest⟩ := List.forall_mem_cons.mp hreads
  have hothers : (whileNext (.mark mark) (do expectMark mark; item)).Reads
      (rest.flatMap fun n => [.lexeme (.mark mark), .lexeme (.name n)])
      (fun next => next ≠ some (.mark mark) ∧ anyNext next) (Agree (fun x y => y = x) rest) :=
    whileNext_reads trivial fun n hn => (expectMark_reads mark).andThen fun _ _ => hrest n hn
  rw [List.map_cons, intercalate_cons_map]
  refine (acceptMark_reads_nil mark).thenAll (fun _ _ => ?_) fun _ _ => by simp
  refine hfirst.andThen fun x hx => ?_
  exact hothers.last (fun ys hys => .pure (by rw [hx, hys.eq])) fun _ hnext => ⟨hnext, trivial⟩

end Reader
end EmbeddedGraphQL
