import NativeHeaders.ClassSummary

/-! # Summaries kept during a run

The summaries of the classes seen so far, each under a name. The first summary stored under a name stays; a
load that fails stores nothing. -/

namespace NativeHeaders

/-- Summaries by name. -/
structure SummaryCache where
  /-- The entries, the latest first, with distinct names. -/
  entries : List (String × ClassSummary) := []
deriving Repr

namespace SummaryCache

/-- The cache without entries. -/
def empty : SummaryCache := {}

/-- The summary stored under a name. -/
def get? (cache : SummaryCache) (name : String) : Option ClassSummary := cache.entries.lookup name

/-- The number of entries. -/
def size (cache : SummaryCache) : Nat := cache.entries.length

/-- Whether there are no entries. -/
def isEmpty (cache : SummaryCache) : Bool := cache.entries.isEmpty

/-- The summary stored under a name, which is the given one if there was none. -/
def insert (cache : SummaryCache) (name : String) (summary : ClassSummary) :
    ClassSummary × SummaryCache :=
  match cache.get? name with
  | some stored => (stored, cache)
  | none => (summary, { entries := (name, summary) :: cache.entries })

/-- The summary stored under a name; if there is none, the loaded one, which is stored unless loading
fails. -/
def getOrLoad {ε : Type} (cache : SummaryCache) (name : String)
    (load : Unit → Except ε ClassSummary) : Except ε ClassSummary × SummaryCache :=
  match cache.get? name with
  | some stored => (.ok stored, cache)
  | none =>
    match load () with
    | .error error => (.error error, cache)
    | .ok summary =>
      let (stored, cache) := cache.insert name summary
      (.ok stored, cache)

/-- The empty cache holds nothing. -/
@[simp] theorem get?_empty (name : String) : empty.get? name = none := rfl

/-- After an insertion the cache holds under the name what `insert` answered: the summary that was
there before, or else the new one. -/
theorem get?_insert_self (cache : SummaryCache) (name : String) (summary : ClassSummary) :
    (cache.insert name summary).2.get? name = some (cache.insert name summary).1 := by
  unfold insert
  split
  · assumption
  · simp [get?]

/-- An insertion leaves the other names as they were. -/
theorem get?_insert_of_ne (cache : SummaryCache) {name other : String} (summary : ClassSummary)
    (h : other ≠ name) : (cache.insert name summary).2.get? other = cache.get? other := by
  unfold insert
  split
  · rfl
  · simp [get?, List.lookup_cons, beq_false_of_ne h]

end SummaryCache

end NativeHeaders
