import EmbeddedGraphQL.Region.Defining
import EmbeddedGraphQL.Region.File

/-!
# Source cache

A `SourceCache` remembers the regions of the texts looked up last. It holds a bounded number of
texts, most recent one first, and forgets the one that was not looked up for the longest time.

* `SourceCache.lookup`: the regions of a text, extracted only if it is not remembered.
* `SourceCache.extract`: the same, where the caller may bypass the cache.
* `SourceCache.select`: the region at a position of a text.
-/

namespace EmbeddedGraphQL

/-- How many texts are remembered unless told otherwise. -/
def defaultCacheCapacity : Nat := 5

/-- The regions of the texts looked up last. -/
structure SourceCache where
  /-- Finds the regions of a text that is not remembered. -/
  extractor : Extractor
  /-- How many texts are remembered. -/
  capacity : Nat
  /-- At least one text is remembered. -/
  capacity_pos : 0 < capacity
  /-- The texts with their regions, most recent one first. -/
  entries : List (String × List Region)
  /-- How many lookups found their text. -/
  hits : Nat
  /-- How many lookups had to extract. -/
  misses : Nat

namespace SourceCache

/-- A cache that remembers nothing yet. -/
def empty (extractor : Extractor) (capacity : Nat) (h : 0 < capacity) : SourceCache :=
  ⟨extractor, capacity, h, [], 0, 0⟩

/-- How many texts are remembered now. -/
def size (cache : SourceCache) : Nat := cache.entries.length

/-- Whether a text is remembered. -/
def contains (cache : SourceCache) (text : String) : Bool := cache.entries.any (·.1 = text)

/-- The regions of a text, which becomes the most recent one. -/
def lookup (cache : SourceCache) (text : String) : List Region × SourceCache :=
  match cache.entries.find? (·.1 = text) with
  | some entry =>
    (entry.2,
      { cache with
        entries := entry :: cache.entries.filter (·.1 ≠ text)
        hits := cache.hits + 1 })
  | none =>
    let regions := cache.extractor.extract text
    (regions,
      { cache with
        -- the entry at the end is the one not looked up for the longest time
        entries := ((text, regions) :: cache.entries).take cache.capacity
        misses := cache.misses + 1 })

/-- The regions of a text. Without `useCache` they are extracted again and nothing is remembered. -/
def extract (cache : SourceCache) (text : String) (useCache : Bool) : List Region × SourceCache :=
  if useCache then cache.lookup text
  else (cache.extractor.extract text, { cache with misses := cache.misses + 1 })

/-- The region at a position of a text. -/
def select (cache : SourceCache) (text : String) (p : Position) : Option Region × SourceCache :=
  let (regions, next) := cache.lookup text
  (Region.selectAt regions text p, next)

/-- A cache that forgets all texts and keeps its counters. -/
def clear (cache : SourceCache) : SourceCache := { cache with entries := [] }

end SourceCache
end EmbeddedGraphQL
