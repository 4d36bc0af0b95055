import EmbeddedGraphQL.Proofs.RecordPath.Joined
import EmbeddedGraphQL.Proofs.Record.Lookup

/-!
# Which node a record path leads back to

If siblings never share a name, different nodes have different record paths. The lookups compare
joined paths, though, and joining may lose where one name ends and the next one starts: the field
`a_b` and the field `b` under `a` both have the joined path `fragment_a_b`. The first node of a
joined path is found, the others are hidden by it.

* `RecordPath.joined_injective`: joining loses nothing if names have underscores in front only.
* `Document.SiblingsApart.eq_of_path_eq`: different nodes have different paths.
* `Record.foundAgain_iff`: which nodes are found by their joined path.
-/

namespace EmbeddedGraphQL

/-! ## Names that stay apart -/

namespace RecordPath

/-- Whether a name has underscores in front only, and something behind them. -/
def isPlain (segment : String) : Bool :=
  let name := segment.toList.dropWhile (· == '_')
  !name.isEmpty && name.all (· != '_')

/-- A name with underscores in front only cannot go on behind another one with an underscore. -/
theorem isPlain_eq_false_of_append {s t : String} {rest : List Char} (hs : isPlain s = true)
    (ht : t.toList = s.toList ++ '_' :: rest) : isPlain t = false := by
  simp only [isPlain, Bool.and_eq_true, Bool.not_eq_true'] at hs
  simp [isPlain, ht, List.dropWhile_append, hs.1]

/-- Behind a name, more segments start with an underscore. -/
theorem eq_cons_of_joined_eq {segments : List String} {c : Char} {mid rest : List Char}
    (h : joined segments = c :: mid ++ rest) : c = '_' := by
  cases segments with
  | nil => cases h
  | cons segment segments =>
    rw [joined_cons, List.cons_append, List.cons.injEq] at h
    exact h.1.symm

/-- Of two joined paths that are the same, the first names are: the longer one would have an
underscore where the shorter one ends. -/
theorem eq_of_append_joined_eq {s t : String} {p q : List String} (hs : isPlain s = true)
    (ht : isPlain t = true) (h : s.toList ++ joined p = t.toList ++ joined q) :
    s = t ∧ joined p = joined q := by
  -- If one name is longer than the other, what it is longer by starts with an underscore.
  have hlonger : ∀ {s t : String} {mid rest : List Char} {p : List String}, isPlain s = true →
      isPlain t = true → t.toList = s.toList ++ mid → joined p = mid ++ rest → mid = [] := by
    intro s t mid rest p hs ht htext hjoined
    cases mid with
    | nil => rfl
    | cons c mid =>
      obtain rfl := eq_cons_of_joined_eq hjoined
      rw [isPlain_eq_false_of_append hs htext] at ht
      cases ht
  rcases List.append_eq_append_iff.mp h with ⟨mid, htext, hjoined⟩ | ⟨mid, htext, hjoined⟩
  · obtain rfl := hlonger hs ht htext hjoined
    rw [List.append_nil] at htext
    exact ⟨(String.toList_inj.mp htext).symm, hjoined⟩
  · obtain rfl := hlonger ht hs htext hjoined
    rw [List.append_nil] at htext
    exact ⟨String.toList_inj.mp htext, hjoined.symm⟩

/-- Joining loses nothing if all names have underscores in front only. -/
theorem joined_injective {p q : List String} (hp : ∀ segment ∈ p, isPlain segment = true)
    (hq : ∀ segment ∈ q, isPlain segment = true) (h : joined p = joined q) : p = q := by
  induction p generalizing q with
  | nil =>
    cases q with
    | nil => rfl
    | cons t q =>
      rw [joined_nil, joined_cons] at h
      cases h
  | cons s p ih =>
    cases q with
    | nil =>
      rw [joined_nil, joined_cons] at h
      cases h
    | cons t q =>
      rw [joined_cons, joined_cons, List.cons.injEq] at h
      obtain ⟨hs, hprest⟩ := List.forall_mem_cons.mp hp
      obtain ⟨ht, hqrest⟩ := List.forall_mem_cons.mp hq
      -- Plain segments hold no underscore, so that the first one ends where the next underscore
      -- stands.
      obtain ⟨rfl, hrest⟩ := eq_of_append_joined_eq hs ht h.2
      rw [ih hprest hqrest hrest]

/-- Paths with a segment more are the same if the paths and the segments are. -/
theorem push_inj {p q : RecordPath} {s t : String} (h : p.push s = q.push t) : p = q ∧ s = t := by
  obtain ⟨segments⟩ := p
  obtain ⟨segments'⟩ := q
  have hsegments := congrArg RecordPath.segments h
  simpa [push] using hsegments

/-- A path with a segment is not the root. -/
theorem push_ne_root (p : RecordPath) (segment : String) : p.push segment ≠ .root := by
  intro h
  have hsegments := congrArg RecordPath.segments h
  simp [push, root] at hsegments

end RecordPath

/-! ## Siblings -/

/-- The node that is entered, if it is no spread. -/
def Entry.node? : Entry → Option Node
  | .node n => some n
  | .spread _ => none

/-- The segment that a selection adds to record paths. -/
def Selection.segment? (s : Selection) : Option String := (Node.ofSelection? s).bind Node.segment?

/-- Whether a document is one definition in which siblings have different names. -/
structure Document.SiblingsApart (d : Document) : Prop where
  /-- There is one definition. -/
  single : d.definitions.length = 1
  /-- Every node is a record, as no inline fragment is without a type condition. -/
  typed : ∀ s ∈ d.standings, s.entry.node?.isSome = true → s.isRecord = true
  /-- Of the selections of a node, no two add the same segment to the record path. -/
  apart : ∀ s ∈ d.standings, ∀ n ∈ s.entry.node?,
    (n.selections.filterMap Selection.segment?).Nodup

namespace Standing

variable {d : Document}

/-- The path of a definition is the root. -/
theorem path_definition {index : Nat} {n : Node} (h : d.root? index = some n) :
    path ⟨.ofDefinition index, [], .node n⟩ = .root := by
  obtain ⟨definition, -, hn⟩ := Option.bind_eq_some_iff.mp h
  cases definition <;> cases hn <;> rfl

/-- The path of a record in a set is that of the node around it and its own segment. -/
theorem exists_path_selection (owner : Address) {address : Address} {n : Node}
    {ancestors : List Node} {s : Selection}
    (h : isRecord ⟨address, n :: ancestors, .ofSelection s⟩ = true) :
    ∃ segment, s.segment? = some segment ∧
      path ⟨address, n :: ancestors, .ofSelection s⟩ =
        (path ⟨owner, ancestors, .node n⟩).push segment := by
  cases s with
  | field f set => exact ⟨f.name, rfl, TypeInfo.Knows.ofLine_cons _ _⟩
  | inline f set =>
    obtain ⟨condition, hcondition⟩ := Option.isSome_iff_exists.mp h
    refine ⟨condition, hcondition, ?_⟩
    have hline := TypeInfo.Knows.ofLine_cons (.inline f set) (n :: ancestors)
    simp only [Node.segment?, hcondition] at hline
    exact hline
  | spread s => cases h

end Standing

namespace Document.SiblingsApart

variable {d : Document}

/-- Selections of one set with the same segment are the same one. -/
theorem eq_of_segment? {set : List Selection} (h : (set.filterMap Selection.segment?).Nodup)
    {i j : Nat} {s t : Selection} {segment : String} (hi : set[i]? = some s)
    (hj : set[j]? = some t) (hs : s.segment? = some segment) (ht : t.segment? = some segment) :
    i = j := by
  have hpairs := List.pairwise_filterMap.mp h
  obtain ⟨hilt, rfl⟩ := List.getElem?_eq_some_iff.mp hi
  obtain ⟨hjlt, rfl⟩ := List.getElem?_eq_some_iff.mp hj
  have hne : ∀ a b (ha : a < set.length) (hb : b < set.length), a < b →
      set[a].segment? = some segment → set[b].segment? = some segment → False :=
    fun a b ha hb hlt h₁ h₂ =>
      List.pairwise_iff_getElem.mp hpairs a b ha hb hlt segment h₁ segment h₂ rfl
  rcases Nat.lt_trichotomy i j with hlt | heq | hlt
  · exact (hne i j hilt hjlt hlt hs ht).elim
  · exact heq
  · exact (hne j i hjlt hilt hlt ht hs).elim

/-- Records of the same path are the same one. The induction goes down from the definition: two
records of one path stand in nodes of one path, hence in the same node, under the same name. -/
theorem eq_of_path_eq (h : d.SiblingsApart) {s t : Standing} (hs : s.In d) (ht : t.In d)
    (hsrecord : s.isRecord = true) (htrecord : t.isRecord = true) (hpath : s.path = t.path) :
    s = t := by
  induction hs generalizing t with
  | @definition index n hn =>
    rw [Standing.path_definition hn] at hpath
    cases ht with
    | @definition index' n' hn' =>
      -- There is one definition only.
      have hzero : ∀ {i : Nat} {m : Node}, d.root? i = some m → i = 0 := by
        intro i m hm
        obtain ⟨definition, hdefinition, -⟩ := Option.bind_eq_some_iff.mp hm
        have hlt := (List.getElem?_eq_some_iff.mp hdefinition).1
        rw [h.single] at hlt
        omega
      obtain rfl := hzero hn
      obtain rfl := hzero hn'
      rw [hn, Option.some.injEq] at hn'
      rw [hn']
    | @selection address' ancestors' n' index' t' hn' ht' =>
      obtain ⟨segment, -, hpush⟩ := Standing.exists_path_selection address' htrecord
      rw [hpush] at hpath
      exact absurd hpath.symm (RecordPath.push_ne_root _ _)
  | @selection address ancestors n index s hn hs ih =>
    obtain ⟨segment, hsegment, hpush⟩ := Standing.exists_path_selection address hsrecord
    rw [hpush] at hpath
    cases ht with
    | @definition index' n' hn' =>
      rw [Standing.path_definition hn'] at hpath
      exact absurd hpath (RecordPath.push_ne_root _ _)
    | @selection address' ancestors' n' index' t' hn' ht' =>
      obtain ⟨segment', hsegment', hpush'⟩ := Standing.exists_path_selection address' htrecord
      rw [hpush'] at hpath
      -- The paths of the nodes around are the same, so that these are one node; in its set the
      -- segment belongs to one selection only.
      obtain ⟨hparent, rfl⟩ := RecordPath.push_inj hpath
      have hnmem := Document.mem_standings_iff.mpr hn
      have hnmem' := Document.mem_standings_iff.mpr hn'
      have hsame := ih hn' (h.typed _ hnmem rfl) (h.typed _ hnmem' rfl) hparent
      cases hsame
      obtain rfl := eq_of_segment? (h.apart _ hnmem n rfl) hs ht' hsegment hsegment'
      rw [hs, Option.some.injEq] at ht'
      rw [ht']

end Document.SiblingsApart

/-! ## Lookups -/

namespace Record

/-- Whether both lookups of the joined path of a record lead back to it. -/
def FoundAgain (schema : Schema) (d : Document) (s : Standing) : Prop :=
  locate? schema d s.path.display = some s.address ∧
    (find? schema d s.path.display).map (fun r => (r.address, r.span)) = some (s.address, s.span)

variable {schema : Schema} {d : Document} {s : Standing}

/-- The records of a path are the standings that are records with that path. -/
theorem mem_records_iff {path : String} {t : Standing} :
    t ∈ d.records path ↔ t ∈ d.standings ∧ t.isRecord = true ∧ t.path.display = path := by
  rw [Document.records, List.mem_filter, Standing.isRecordOf, Bool.and_eq_true,
    RecordPath.agreesWith_iff]

/-- The lookups lead back to the first record of a joined path. -/
theorem foundAgain_iff_head? (hs : s ∈ d.standings) (hrecord : s.isRecord = true)
    (htype : (s.recordType? schema).isSome = true) :
    FoundAgain schema d s ↔ (d.records s.path.display).head? = some s := by
  constructor
  · rintro ⟨hlocate, -⟩
    rw [locate?_eq, Option.map_eq_some_iff] at hlocate
    obtain ⟨first, hfirst, haddress⟩ := hlocate
    obtain ⟨rest, hrecords⟩ := List.head?_eq_some_iff.mp hfirst
    have hmem : s ∈ first :: rest := hrecords ▸ mem_records_iff.mpr ⟨hs, hrecord, rfl⟩
    rcases List.mem_cons.mp hmem with rfl | hmem
    · exact hfirst
    · -- Behind the first record, the address would be another one.
      have hordered := d.records_pairwise s.path.display
      rw [hrecords] at hordered
      have hbefore := (List.pairwise_cons.mp hordered).1 s hmem
      rw [haddress] at hbefore
      exact absurd hbefore s.address.not_before_self
  · intro hfirst
    obtain ⟨rest, hrecords⟩ := List.head?_eq_some_iff.mp hfirst
    obtain ⟨type, htype⟩ := Option.isSome_iff_exists.mp htype
    refine ⟨by rw [locate?_eq, hfirst]; rfl, ?_⟩
    -- The type of the first record is known, so that finding goes no further than locating.
    have htrace := find?_trace schema d s.path.display
    rw [hrecords, List.findSome?_cons, trace?, key?, htype] at htrace
    obtain ⟨r, hr, hrtrace⟩ := Option.map_eq_some_iff.mp htrace
    simp only [trace, key, Prod.mk.injEq] at hrtrace
    rw [hr, Option.map_some, hrtrace.1.1, hrtrace.2]

/-- A record is the first one of its joined path exactly if none comes before it. -/
theorem head?_records_iff (hs : s ∈ d.standings) (hrecord : s.isRecord = true) :
    (d.records s.path.display).head? = some s ↔
      ∀ t ∈ d.standings, t.isRecord = true → t.address.Before s.address →
        t.path.display ≠ s.path.display := by
  have hordered := d.records_pairwise s.path.display
  have hmem : s ∈ d.records s.path.display := mem_records_iff.mpr ⟨hs, hrecord, rfl⟩
  obtain ⟨first, rest, hrecords⟩ := List.exists_cons_of_ne_nil (List.ne_nil_of_mem hmem)
  rw [hrecords] at hordered hmem
  -- The records of a path come in the order of their addresses; the first one is before all others.
  have hbehind := (List.pairwise_cons.mp hordered).1
  rw [hrecords, List.head?_cons, Option.some.injEq]
  constructor
  · rintro rfl t ht htrecord hbefore hdisplay
    have htmem : t ∈ first :: rest := hrecords ▸ mem_records_iff.mpr ⟨ht, htrecord, hdisplay⟩
    rcases List.mem_cons.mp htmem with rfl | htmem
    · exact t.address.not_before_self hbefore
    · exact List.lt_asymm hbefore (hbehind t htmem)
  · intro hnone
    have hfirst : first ∈ d.records s.path.display := hrecords ▸ List.mem_cons_self
    obtain ⟨hstanding, hfirstrecord, hdisplay⟩ := mem_records_iff.mp hfirst
    rcases List.mem_cons.mp hmem with heq | hmem
    · exact heq.symm
    · exact absurd hdisplay (hnone first hstanding hfirstrecord (hbehind s hmem))

/-- In a document of one definition in which siblings have different names and all types are known,
different records have different paths. The lookups of a joined path lead back to the record exactly
if none before it has another path that is joined to the same text. They lead back to all records
if names have underscores in front only. -/
theorem foundAgain_iff (h : d.SiblingsApart)
    (hknown : ∀ s ∈ d.standings, s.isRecord = true → (s.recordType? schema).isSome = true) :
    (∀ s ∈ d.standings, ∀ t ∈ d.standings, s.isRecord = true → t.isRecord = true →
        s.path = t.path → s = t) ∧
      (∀ s ∈ d.standings, s.isRecord = true →
        (FoundAgain schema d s ↔ ∀ t ∈ d.standings, t.isRecord = true →
          t.address.Before s.address → t.path.display = s.path.display → t.path = s.path)) ∧
      ((∀ s ∈ d.standings, s.isRecord = true →
          ∀ segment ∈ s.path.segments, RecordPath.isPlain segment = true) →
        ∀ s ∈ d.standings, s.isRecord = true → FoundAgain schema d s) := by
  have hunique : ∀ s ∈ d.standings, ∀ t ∈ d.standings, s.isRecord = true → t.isRecord = true →
      s.path = t.path → s = t := fun s hs t ht hsrecord htrecord hpath =>
    h.eq_of_path_eq (Document.mem_standings_iff.mp hs) (Document.mem_standings_iff.mp ht)
      hsrecord htrecord hpath
  have hfound : ∀ s ∈ d.standings, s.isRecord = true →
      (FoundAgain schema d s ↔ ∀ t ∈ d.standings, t.isRecord = true →
        t.address.Before s.address → t.path.display = s.path.display → t.path = s.path) := by
    intro s hs hrecord
    rw [foundAgain_iff_head? hs hrecord (hknown s hs hrecord), head?_records_iff hs hrecord]
    constructor
    · intro hnone t ht htrecord hbefore hdisplay
      exact absurd hdisplay (hnone t ht htrecord hbefore)
    · intro hsame t ht htrecord hbefore hdisplay
      -- A record before with the same joined path has the same path, hence is the record itself.
      have heq := hunique t ht s hs htrecord hrecord (hsame t ht htrecord hbefore hdisplay)
      rw [heq] at hbefore
      exact s.address.not_before_self hbefore
  refine ⟨hunique, hfound, ?_⟩
  intro hplain s hs hrecord
  apply (hfound s hs hrecord).mpr
  intro t ht htrecord _ hdisplay
  have hsegments := RecordPath.joined_injective (hplain t ht htrecord) (hplain s hs hrecord)
    (RecordPath.display_eq_iff.mp hdisplay)
  exact congrArg RecordPath.mk hsegments

/-- A schema with a query type, whose fields are `a`, `a_b` and `c`. -/
def nestedFields : Schema :=
  ⟨[⟨"Query", none, .object []
      [⟨none, "a", [], .named "A" false, []⟩, ⟨none, "a_b", [], .named "A" false, []⟩,
        ⟨none, "c", [], .named "A" false, []⟩]⟩,
    ⟨"A", none, .object [] [⟨none, "b", [], .named "A" false, []⟩]⟩], [], [(.query, "Query")]⟩

/-- A field that stands between two offsets. -/
def spannedField (name : String) (start stop : Nat) (set : List Selection) : Selection :=
  .field ⟨none, name, [], [], some ⟨start, stop⟩⟩ set

/-- The document `{ a { b } c { b } }`. -/
def plainSiblings : Document :=
  ⟨[.operation ⟨.query, none, [], [],
    [spannedField "a" 2 9 [spannedField "b" 6 7 []],
      spannedField "c" 10 17 [spannedField "b" 14 15 []]], some ⟨0, 19⟩⟩]⟩

/-- The field `b` under `c` is found by its joined path. -/
theorem foundAgain_iff_plainSiblings :
    ∃ s ∈ plainSiblings.standings, s.path.display = "fragment_c_b" ∧ s.span = some ⟨14, 15⟩ ∧
      FoundAgain nestedFields plainSiblings s := by
  have hapart : plainSiblings.SiblingsApart := ⟨rfl, by decide, by decide⟩
  have hknown : ∀ s ∈ plainSiblings.standings, s.isRecord = true →
      (s.recordType? nestedFields).isSome = true := by decide
  obtain ⟨-, -, hall⟩ := foundAgain_iff hapart hknown
  have hmem : plainSiblings.standings.get ⟨4, by decide⟩ ∈ plainSiblings.standings :=
    List.get_mem _ _
  exact ⟨_, hmem, rfl, rfl, hall (by decide) _ hmem rfl⟩

/-- The document `{ a { b } a_b }`. -/
def hiddenSibling : Document :=
  ⟨[.operation ⟨.query, none, [], [],
    [spannedField "a" 2 9 [spannedField "b" 6 7 []], spannedField "a_b" 10 13 []],
    some ⟨0, 15⟩⟩]⟩

/-- Not every record is found by its joined path: that of the second field leads to the field under
the first one. -/
theorem not_foundAgain :
    ¬ ∀ (schema : Schema) (d : Document), d.SiblingsApart →
      (∀ s ∈ d.standings, s.isRecord = true → (s.recordType? schema).isSome = true) →
      ∀ s ∈ d.standings, s.isRecord = true → FoundAgain schema d s := by
  intro h
  have hapart : hiddenSibling.SiblingsApart := ⟨rfl, by decide, by decide⟩
  have hmem : hiddenSibling.standings.get ⟨3, by decide⟩ ∈ hiddenSibling.standings :=
    List.get_mem _ _
  -- The second field is looked for, and the field under the first one is located.
  obtain ⟨hlocate, -⟩ := h nestedFields hiddenSibling hapart (by decide) _ hmem rfl
  have hfirst : locate? nestedFields hiddenSibling "fragment_a_b" = some ⟨0, [0, 0]⟩ := rfl
  have hsecond : locate? nestedFields hiddenSibling "fragment_a_b" = some ⟨0, [1]⟩ := hlocate
  rw [hfirst] at hsecond
  exact absurd hsecond (by decide)

end Record
end EmbeddedGraphQL
