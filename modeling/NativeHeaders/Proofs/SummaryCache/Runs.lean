import Mathlib.Data.Finset.Card
import NativeHeaders.SummaryCache

/-! # Runs of a cache

A run is a list of operations on a cache that is empty at first. What is kept after it is seen from
the operations alone: under each name the first summary that was inserted or loaded without a
failure (`get?_after`). An operation on a name with a summary gives this summary, asks no loader and
changes nothing (`perform_of_get?`), so that nothing that was once answered is ever taken back. -/

namespace NativeHeaders.SummaryCache

/-- What can be done with a cache whose loaders fail with the given errors. -/
inductive Operation (ε : Type) where
  /-- To look a name up. -/
  | get (name : String)
  /-- To insert a summary under a name. -/
  | insert (name : String) (summary : ClassSummary)
  /-- To look a name up and, if there is nothing, run a loader with the given outcome. -/
  | load (name : String) (outcome : Except ε ClassSummary)

variable {ε : Type}

namespace Operation

/-- The name that the operation is about. -/
def name : Operation ε → String
  | .get name | .insert name _ | .load name _ => name

/-- What the operation gives, and the cache it leaves behind. -/
def perform (cache : SummaryCache) : Operation ε → Except ε (Option ClassSummary) × SummaryCache
  | .get name => (.ok (cache.get? name), cache)
  | .insert name summary => (cache.insert name summary).map (.ok ∘ some) id
  | .load name outcome => (cache.getOrLoad name fun _ => outcome).map (Except.map some) id

/-- Whether the operation runs a loader: one that does nothing but fail would be heard of. -/
def runsLoader (cache : SummaryCache) : Operation ε → Bool
  | .get _ | .insert _ _ => false
  | .load name _ => !(cache.getOrLoad name fun _ => Except.error ()).1.isOk

/-- The entry that the operation makes if there is none under its name: that of an insertion, or of
a loader that succeeds. -/
def stored? : Operation ε → Option (String × ClassSummary)
  | .get _ => none
  | .insert name summary => some (name, summary)
  | .load name (.ok summary) => some (name, summary)
  | .load _ (.error _) => none

/-- What the operation gives if there is no summary under its name. -/
def unaided : Operation ε → Except ε (Option ClassSummary)
  | .get _ => .ok none
  | .insert _ summary => .ok (some summary)
  | .load _ outcome => outcome.map some

end Operation

/-- The cache after operations on the empty one. -/
def after (operations : List (Operation ε)) : SummaryCache :=
  operations.foldl (fun cache operation => (operation.perform cache).2) empty

/-- The names inserted or loaded without a failure, in order and with repetitions. -/
def storedNames (operations : List (Operation ε)) : List String :=
  (operations.filterMap Operation.stored?).map Prod.fst

/-! ### One operation -/

/-- With a summary under the name, every operation gives it and changes nothing. -/
theorem perform_of_get? {cache : SummaryCache} {operation : Operation ε} {summary : ClassSummary}
    (h : cache.get? operation.name = some summary) :
    operation.perform cache = (.ok (some summary), cache) := by
  cases operation with
  | get name => rw [Operation.perform, show cache.get? name = some summary from h]
  | insert name other =>
    rw [Operation.perform, SummaryCache.insert, show cache.get? name = some summary from h]
    rfl
  | load name outcome =>
    rw [Operation.perform, getOrLoad, show cache.get? name = some summary from h]
    rfl

/-- Without a summary under the name, the operation adds the entry that it makes. -/
theorem perform_of_get?_eq_none {cache : SummaryCache} {operation : Operation ε}
    (h : cache.get? operation.name = none) :
    operation.perform cache =
      (operation.unaided, { entries := operation.stored?.toList ++ cache.entries }) := by
  cases operation with
  | get name =>
    rw [Operation.perform, show cache.get? name = none from h]
    rfl
  | insert name summary =>
    rw [Operation.perform, SummaryCache.insert, show cache.get? name = none from h]
    rfl
  | load name outcome =>
    rw [Operation.perform, getOrLoad, show cache.get? name = none from h]
    cases outcome with
    | error error => rfl
    | ok summary =>
      simp only [SummaryCache.insert, show cache.get? name = none from h]
      rfl

/-- The loader runs exactly if the cache does not have the name. -/
theorem runsLoader_load (cache : SummaryCache) (name : String) (outcome : Except ε ClassSummary) :
    (Operation.load name outcome).runsLoader cache = true ↔ cache.get? name = none := by
  rw [Operation.runsLoader, getOrLoad]
  cases cache.get? name <;> simp [Except.isOk, Except.toBool]

/-- No operation runs a loader for a name that the cache has. -/
theorem runsLoader_of_get? {cache : SummaryCache} {operation : Operation ε}
    {summary : ClassSummary} (h : cache.get? operation.name = some summary) :
    operation.runsLoader cache = false := by
  cases operation with
  | get name => rfl
  | insert name other => rfl
  | load name outcome =>
    rw [← Bool.not_eq_true, runsLoader_load, show cache.get? name = some summary from h]
    exact Option.some_ne_none summary

/-- What an operation gives, and whether it runs a loader, is seen from what stands under its name.
-/
theorem perform_congr {cache other : SummaryCache} {operation : Operation ε}
    (h : cache.get? operation.name = other.get? operation.name) :
    (operation.perform cache).1 = (operation.perform other).1 ∧
      operation.runsLoader cache = operation.runsLoader other := by
  cases hother : other.get? operation.name with
  | some summary =>
    rw [hother] at h
    rw [perform_of_get? h, perform_of_get? hother, runsLoader_of_get? h, runsLoader_of_get? hother]
    exact ⟨rfl, rfl⟩
  | none =>
    rw [hother] at h
    rw [perform_of_get?_eq_none h, perform_of_get?_eq_none hother]
    refine ⟨rfl, ?_⟩
    cases operation with
    | get name => rfl
    | insert name summary => rfl
    | load name outcome =>
      rw [Bool.eq_iff_iff, runsLoader_load, runsLoader_load]
      exact iff_of_true h hother

/-- What an operation stores, it stores under its name. -/
theorem fst_of_stored? {operation : Operation ε} {entry : String × ClassSummary}
    (h : operation.stored? = some entry) : entry.1 = operation.name := by
  cases operation with
  | get name => cases h
  | insert name summary =>
    cases h
    rfl
  | load name outcome =>
    cases outcome with
    | error error => cases h
    | ok summary =>
      cases h
      rfl

/-- What an operation gives without a cache, it stores. -/
theorem stored?_of_unaided {operation : Operation ε} {summary : ClassSummary}
    (h : operation.unaided = .ok (some summary)) :
    operation.stored? = some (operation.name, summary) := by
  cases operation with
  | get name => cases h
  | insert name other =>
    cases h
    rfl
  | load name outcome =>
    cases outcome with
    | error error => cases h
    | ok other =>
      cases h
      rfl

/-- A lookup finds nothing exactly if the name is not among the names. -/
theorem lookup_eq_none_iff_notMem {entries : List (String × ClassSummary)} {name : String} :
    entries.lookup name = none ↔ name ∉ entries.map Prod.fst := by
  rw [List.lookup_eq_none_iff, List.mem_map]
  constructor
  · rintro h ⟨entry, hentry, rfl⟩
    simpa using h entry hentry
  · intro h entry hentry
    rw [bne_iff_ne]
    rintro rfl
    exact h ⟨entry, hentry, rfl⟩

/-- An operation stores nothing under other names. -/
theorem lookup_stored?_of_ne {operation : Operation ε} {name : String} (h : name ≠ operation.name) :
    operation.stored?.toList.lookup name = none := by
  rw [lookup_eq_none_iff_notMem]
  cases hentry : operation.stored? with
  | none => exact List.not_mem_nil
  | some entry => simpa [fst_of_stored? hentry] using h

/-- An operation makes at most its own entry, and only if there is none under the name. -/
theorem get?_perform (cache : SummaryCache) (operation : Operation ε) (name : String) :
    (operation.perform cache).2.get? name =
      (cache.get? name).or (operation.stored?.toList.lookup name) := by
  by_cases hname : name = operation.name
  · subst hname
    cases hget : cache.get? operation.name with
    | some summary => rw [perform_of_get? hget, hget, Option.some_or]
    | none =>
      have hentries : cache.entries.lookup operation.name = none := hget
      rw [perform_of_get?_eq_none hget, get?, List.lookup_append, hentries, Option.or_none,
        Option.none_or]
  · -- The entry of another name is not met.
    rw [lookup_stored?_of_ne hname, Option.or_none]
    cases hget : cache.get? operation.name with
    | some summary => rw [perform_of_get? hget]
    | none =>
      rw [perform_of_get?_eq_none hget, get?, List.lookup_append, lookup_stored?_of_ne hname,
        Option.none_or]
      rfl

/-! ### A run -/

variable (operations : List (Operation ε))

/-- Further operations go on with the cache that the first ones left. -/
theorem after_append (more : List (Operation ε)) :
    after (operations ++ more) =
      more.foldl (fun cache operation => (operation.perform cache).2) (after operations) :=
  List.foldl_append ..

/-- What the first operation stores comes first. -/
theorem filterMap_stored?_cons (operation : Operation ε) :
    (operation :: operations).filterMap Operation.stored? =
      operation.stored?.toList ++ operations.filterMap Operation.stored? := by
  cases h : operation.stored? <;> simp [h]

/-- Under each name stands the first summary that was inserted or loaded without a failure. -/
theorem get?_after (name : String) :
    (after operations).get? name = (operations.filterMap Operation.stored?).lookup name := by
  induction operations using List.reverseRecOn with
  | nil => rfl
  | append_singleton operations operation ih =>
    rw [after_append, List.foldl_cons, List.foldl_nil, get?_perform, ih, List.filterMap_append,
      List.lookup_append, filterMap_stored?_cons, List.filterMap_nil, List.append_nil]

/-- There is a summary under exactly the names that were stored. -/
theorem get?_after_eq_none_iff (name : String) :
    (after operations).get? name = none ↔ name ∉ storedNames operations := by
  rw [get?_after, lookup_eq_none_iff_notMem, storedNames]

/-- The names of the entries are distinct. -/
theorem nodup_names_after : ((after operations).entries.map Prod.fst).Nodup := by
  induction operations using List.reverseRecOn with
  | nil => exact List.nodup_nil
  | append_singleton operations operation ih =>
    rw [after_append, List.foldl_cons, List.foldl_nil]
    cases hget : (after operations).get? operation.name with
    | some summary => rwa [perform_of_get? hget]
    | none =>
      -- A new entry has the name of the operation, under which there is none.
      have hname := lookup_eq_none_iff_notMem.1 hget
      rw [perform_of_get?_eq_none hget]
      cases hentry : operation.stored? with
      | none => exact ih
      | some entry =>
        rw [← fst_of_stored? hentry] at hname
        exact List.nodup_cons.2 ⟨hname, ih⟩

/-- There are as many entries as different names were stored. -/
theorem size_after : (after operations).size = (storedNames operations).toFinset.card := by
  have hnames : ((after operations).entries.map Prod.fst).toFinset =
      (storedNames operations).toFinset := by
    ext name
    rw [List.mem_toFinset, List.mem_toFinset, ← not_iff_not, ← lookup_eq_none_iff_notMem,
      ← get?_after_eq_none_iff]
    rfl
  rw [← hnames, List.toFinset_card_of_nodup (nodup_names_after operations), List.length_map, size]

/-- A summary stays under its name. -/
theorem get?_after_append {name : String} {summary : ClassSummary}
    (h : (after operations).get? name = some summary) (more : List (Operation ε)) :
    (after (operations ++ more)).get? name = some summary := by
  rw [get?_after] at h
  rw [get?_after, List.filterMap_append, List.lookup_append, h, Option.some_or]

/-- What an operation gives stands under its name afterwards. -/
theorem get?_of_perform_eq_ok {cache : SummaryCache} {operation : Operation ε}
    {summary : ClassSummary} (h : (operation.perform cache).1 = .ok (some summary)) :
    (operation.perform cache).2.get? operation.name = some summary := by
  cases hget : cache.get? operation.name with
  | some stored =>
    rw [perform_of_get? hget] at h ⊢
    obtain rfl : stored = summary := by simpa using h
    exact hget
  | none =>
    rw [perform_of_get?_eq_none hget] at h ⊢
    rw [get?, stored?_of_unaided h]
    exact List.lookup_cons_self

/-- The operations on other names do not matter for what stands under a name. -/
theorem get?_after_filter (name : String) :
    (after (operations.filter (·.name = name))).get? name = (after operations).get? name := by
  rw [get?_after, get?_after]
  induction operations with
  | nil => rfl
  | cons operation operations ih =>
    rw [filterMap_stored?_cons, List.lookup_append]
    by_cases hname : operation.name = name
    · rw [List.filter_cons_of_pos (by simpa using hname), filterMap_stored?_cons,
        List.lookup_append, ih]
    · rw [List.filter_cons_of_neg (by simpa using hname), ih,
        lookup_stored?_of_ne (Ne.symm hname), Option.none_or]

/-- What a cache does behind operations, with what is stored under their names: nothing that was
answered is taken back, and a failure is not remembered. -/
structure FirstStays (before : List (Operation ε)) : Prop where
  /-- What an operation gave for a name is given by all later ones, which run no loader. -/
  later (earlier operation : Operation ε) (between : List (Operation ε)) (summary : ClassSummary) :
    operation.name = earlier.name →
    (earlier.perform (after before)).1 = .ok (some summary) →
    (operation.perform (after (before ++ earlier :: between))).1 = .ok (some summary) ∧
      operation.runsLoader (after (before ++ earlier :: between)) = false
  /-- Nothing is found under exactly the names that were not stored. -/
  get_eq_none_iff (name : String) :
    ((Operation.get name : Operation ε).perform (after before)).1 = .ok none ↔
      name ∉ storedNames before
  /-- A loader runs for exactly the names that were not stored. -/
  runsLoader_iff (name : String) (outcome : Except ε ClassSummary) :
    (Operation.load name outcome).runsLoader (after before) = true ↔ name ∉ storedNames before
  /-- What a loader that runs comes to is what the operation gives. -/
  running_load (name : String) (outcome : Except ε ClassSummary) :
    (Operation.load name outcome).runsLoader (after before) = true →
    ((Operation.load name outcome).perform (after before)).1 = outcome.map some
  /-- A loader that runs and fails gives its failure and leaves the cache as it was. -/
  failing_load (name : String) (error : ε) :
    (Operation.load name (.error error)).runsLoader (after before) = true →
    (Operation.load name (.error error)).perform (after before) = (.error error, after before)
  /-- Operations on other names change neither what an operation gives nor whether a loader runs. -/
  others (operation : Operation ε) :
    let own := before.filter (·.name = operation.name)
    (operation.perform (after before)).1 = (operation.perform (after own)).1 ∧
      operation.runsLoader (after before) = operation.runsLoader (after own)
  /-- There are as many entries as different names were stored. -/
  size_eq : (after before).size = (storedNames before).toFinset.card

/-- The laws hold behind every run. -/
theorem firstStays (before : List (Operation ε)) : FirstStays before where
  later earlier operation between summary hname hgiven := by
    -- What was given is stored right behind the earlier operation, and stays.
    have hstored : (after (before ++ [earlier])).get? earlier.name = some summary := by
      rw [after_append]
      exact get?_of_perform_eq_ok hgiven
    have hkept : (after (before ++ earlier :: between)).get? operation.name = some summary := by
      rw [List.append_cons, hname]
      exact get?_after_append _ hstored between
    rw [perform_of_get? hkept]
    exact ⟨rfl, runsLoader_of_get? hkept⟩
  get_eq_none_iff name := by
    rw [← get?_after_eq_none_iff, Operation.perform]
    simp
  runsLoader_iff name outcome := by
    rw [← get?_after_eq_none_iff, runsLoader_load]
  running_load name outcome h := by
    rw [runsLoader_load] at h
    rw [perform_of_get?_eq_none h]
    rfl
  failing_load name error h := by
    rw [runsLoader_load] at h
    exact perform_of_get?_eq_none h
  others operation := perform_congr (get?_after_filter before operation.name).symm
  size_eq := size_after before

example (error : ε) (first second : ClassSummary) :
    let before := [.load "A" (.error error), .load "A" (.ok first), .insert "A" second]
    ((Operation.get "A" : Operation ε).perform (after before)).1 = .ok (some first) ∧
      (after before).size = 1 := ⟨rfl, rfl⟩

end NativeHeaders.SummaryCache
