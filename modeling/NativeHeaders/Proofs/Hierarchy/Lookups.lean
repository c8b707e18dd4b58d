import Mathlib.Data.List.Nodup
import NativeHeaders.Proofs.Hierarchy.Reachability

/-! # What a walk asks for

Over a table from class to superclass the classes that a walk comes to are a chain (`onChain`). The
walk asks for them one after the other, as long as they are new (`IsTrail`), until the chain comes to
the root of the throwable classes, back to a class, or to its end (`Stops`). So it ends for every
table, it asks for no class twice, and never for the root (`isThrowable_ofTable`). -/

namespace NativeHeaders.Hierarchy

/-- The class at which the given number of superclass links leads, as long as there are links. -/
def onChain (table : List (String × String)) (start : String) : Nat → Option String
  | 0 => some start
  | steps + 1 => (onChain table start steps).bind (table.lookup ·)

variable {table : List (String × String)} {start current : String} {trail : List String}

/-! ### Links of a table -/

/-- A class is linked to its superclass. -/
def Links (table : List (String × String)) (className superName : String) : Prop :=
  table.lookup className = some superName

/-- A table answers with its links, whatever was asked before. -/
theorem follows_ofTable (table : List (String × String)) :
    (ofTable table).Follows (Links table) fun _ => True where
  answers := fun _ _ _ _ => Iff.rfl
  keeps := fun _ _ _ => trivial

/-- A table has no more classes with a superclass than rows. -/
theorem atMost_links (table : List (String × String)) :
    AtMost table.length fun name => ∃ superName, Links table name superName := by
  refine ⟨table.map Prod.fst, Nat.le_of_eq (List.length_map _), ?_⟩
  rintro name ⟨superName, hlink⟩
  obtain ⟨before, after, rfl, -⟩ := List.lookup_eq_some_iff.mp hlink
  simp

/-- The walk over a table ends by itself. -/
theorem walks_ofTable (table : List (String × String)) (start : String) :
    (ofTable table).Walks [] start [] ((ofTable table).isThrowable start []) :=
  walks_walk (follows_ofTable table) (atMost_links table) trivial List.nodup_nil (by simp)
    (Nat.le_succ _)

/-- There are classes on the chain in front of each one. -/
theorem exists_onChain_of_le {position earlier : Nat} {name : String}
    (h : onChain table start position = some name) (hle : earlier ≤ position) :
    ∃ other, onChain table start earlier = some other := by
  induction position generalizing name with
  | zero =>
    rw [Nat.le_zero.mp hle]
    exact ⟨start, rfl⟩
  | succ position ih =>
    obtain ⟨before, hbefore, -⟩ := Option.bind_eq_some_iff.mp h
    obtain hlt | rfl := Nat.lt_or_eq_of_le hle
    · exact ih hbefore (Nat.le_of_lt_succ hlt)
    · exact ⟨name, h⟩

/-- The links lead to the classes on the chain, and to no others. -/
theorem reaches_iff_onChain {name : String} :
    Relation.ReflTransGen (Links table) start name ↔
      ∃ steps, onChain table start steps = some name := by
  constructor
  · intro h
    induction h with
    | refl => exact ⟨0, rfl⟩
    | tail _ hlink ih =>
      obtain ⟨steps, hsteps⟩ := ih
      refine ⟨steps + 1, ?_⟩
      rw [onChain, hsteps]
      exact hlink
  · rintro ⟨steps, hsteps⟩
    induction steps generalizing name with
    | zero =>
      cases hsteps
      exact .refl
    | succ steps ih =>
      obtain ⟨before, hbefore, hlink⟩ := Option.bind_eq_some_iff.mp hsteps
      exact .tail (ih hbefore) hlink

/-! ### Trails -/

/-- The classes are the first ones on the chain, no two of them are equal, and none is the root. -/
structure IsTrail (table : List (String × String)) (start : String) (trail : List String) :
    Prop where
  /-- They are the first ones on the chain. -/
  follows : ∀ position < trail.length, trail[position]? = onChain table start position
  /-- They differ. -/
  nodup : trail.Nodup
  /-- The root is not among them. -/
  root_notMem : throwableRoot ∉ trail

/-- The chain goes on behind the classes with the root, with one of them, or not at all. -/
def Stops (table : List (String × String)) (start : String) (trail : List String) : Prop :=
  ∀ name, onChain table start trail.length = some name → name = throwableRoot ∨ name ∈ trail

/-- No lookups are a trail from anywhere. -/
theorem isTrail_nil : IsTrail table start [] where
  follows := by simp
  nodup := List.nodup_nil
  root_notMem := by simp

/-- The next class on the chain belongs to the trail, if it is new and not the root. -/
theorem IsTrail.concat (h : IsTrail table start trail)
    (hcurrent : onChain table start trail.length = some current) (hroot : current ≠ throwableRoot)
    (hnew : current ∉ trail) : IsTrail table start (trail ++ [current]) where
  follows := by
    intro position hposition
    rw [List.length_append, List.length_singleton] at hposition
    by_cases hlast : position = trail.length
    · rw [hlast, List.getElem?_concat_length, hcurrent]
    · have hlt : position < trail.length := by omega
      rw [List.getElem?_append_left hlt, h.follows position hlt]
  nodup := by
    rw [List.nodup_append]
    refine ⟨h.nodup, by simp, ?_⟩
    intro name hname other hother heq
    rw [List.mem_singleton.mp hother] at heq
    exact hnew (heq ▸ hname)
  root_notMem := by
    rw [List.mem_append, List.mem_singleton]
    rintro (hmem | heq)
    · exact h.root_notMem hmem
    · exact hroot heq.symm

/-- What a walk asks for is a trail behind which the chain stops. What was seen is what was asked
for, the latest first. -/
theorem Walks.isTrail {seen asked : List String} {outcome : Bool × List String}
    (h : (ofTable table).Walks seen current asked outcome) (hasked : asked = seen)
    (htrail : IsTrail table start asked.reverse)
    (hcurrent : onChain table start asked.reverse.length = some current) :
    IsTrail table start outcome.2.reverse ∧ Stops table start outcome.2.reverse := by
  induction h with
  | root =>
    refine ⟨htrail, fun name hname => .inl ?_⟩
    exact Option.some.inj (hname.symm.trans hcurrent)
  | cycle _ hseen =>
    subst hasked
    refine ⟨htrail, fun name hname => .inr ?_⟩
    rw [Option.some.inj (hname.symm.trans hcurrent), List.mem_reverse]
    exact hseen
  | @stop seen current asked after hroot hnew hanswer =>
    subst hasked
    obtain ⟨hlink, rfl⟩ := Prod.mk.injEq .. ▸ hanswer
    rw [List.reverse_cons]
    refine ⟨htrail.concat hcurrent hroot (mt List.mem_reverse.mp hnew), fun name hname => ?_⟩
    rw [List.length_append, List.length_singleton, onChain, hcurrent] at hname
    cases hlink.symm.trans hname
  | @step seen current parent asked after outcome hroot hnew hanswer _ ih =>
    subst hasked
    obtain ⟨hlink, rfl⟩ := Prod.mk.injEq .. ▸ hanswer
    apply ih rfl
    · rw [List.reverse_cons]
      exact htrail.concat hcurrent hroot (mt List.mem_reverse.mp hnew)
    · rw [List.reverse_cons, List.length_append, List.length_singleton, onChain, hcurrent]
      exact hlink

/-- The chain has come neither to the root nor back to a class up to a position. -/
structure IsFresh (table : List (String × String)) (start : String) (position : Nat) : Prop where
  /-- It has not come to the root. -/
  ne_root : ∀ earlier ≤ position, onChain table start earlier ≠ some throwableRoot
  /-- It has not come back. -/
  ne_earlier : ∀ earlier later, earlier < later → later ≤ position →
    onChain table start earlier ≠ onChain table start later

/-- A trail behind which the chain stops holds the class at a position exactly if the chain has come
neither to the root nor back to a class. -/
theorem IsTrail.getElem?_eq_some_iff (h : IsTrail table start trail)
    (hstops : Stops table start trail) {position : Nat} {name : String} :
    trail[position]? = some name ↔
      onChain table start position = some name ∧ IsFresh table start position := by
  constructor
  · intro hname
    obtain ⟨hposition, -⟩ := List.getElem?_eq_some_iff.mp hname
    refine ⟨h.follows position hposition ▸ hname, ?_, ?_⟩
    · intro earlier hearlier hroot
      rw [← h.follows earlier (by omega)] at hroot
      exact h.root_notMem (List.mem_of_getElem? hroot)
    · intro earlier later hlt hlater heq
      rw [← h.follows earlier (by omega), ← h.follows later (by omega)] at heq
      have hsame : earlier = later := (List.getElem?_inj (by omega) h.nodup).mp heq
      omega
  · rintro ⟨hname, hfresh⟩
    by_cases hposition : position < trail.length
    · rw [h.follows position hposition, hname]
    · -- The chain goes on behind the trail, where it stops to be fresh.
      have hbehind : trail.length ≤ position := Nat.not_lt.mp hposition
      obtain ⟨next, hnext⟩ := exists_onChain_of_le hname hbehind
      obtain rfl | hmem := hstops next hnext
      · exact absurd hnext (hfresh.ne_root trail.length hbehind)
      · obtain ⟨earlier, hearlier, hget⟩ := List.mem_iff_getElem.mp hmem
        have hsame : onChain table start earlier = onChain table start trail.length := by
          rw [← h.follows earlier hearlier, hnext, List.getElem?_eq_getElem hearlier, hget]
        exact absurd hsame (hfresh.ne_earlier earlier trail.length hearlier hbehind)

/-- **A walk asks for nothing twice, and for nothing in vain.** For every table from class to
superclass the walk from a class ends by itself. It finds that the class is throwable exactly if
some number of links leads to the root of the throwable classes. The classes that it asks for are,
in order and without repetition, those on the chain up to which the chain has come neither to the
root nor back to a class; so it never asks for the root. -/
theorem isThrowable_ofTable (table : List (String × String)) (start : String) :
    (ofTable table).Walks [] start [] ((ofTable table).isThrowable start []) ∧
      (((ofTable table).isThrowable start []).1 = true ↔
        ∃ steps, onChain table start steps = some throwableRoot) ∧
      ((ofTable table).isThrowable start []).2.Nodup ∧
      throwableRoot ∉ ((ofTable table).isThrowable start []).2 ∧
      ∀ position name, ((ofTable table).isThrowable start []).2.reverse[position]? = some name ↔
        onChain table start position = some name ∧ IsFresh table start position := by
  have hwalks := walks_ofTable table start
  obtain ⟨htrail, hstops⟩ := hwalks.isTrail rfl isTrail_nil rfl
  refine ⟨hwalks, ?_, List.nodup_reverse.mp htrail.nodup,
    fun hmem => htrail.root_notMem (List.mem_reverse.mpr hmem),
    fun position name => htrail.getElem?_eq_some_iff hstops⟩
  rw [hwalks.reaches (follows_ofTable table) trivial ⟨by simp, by simp⟩, reaches_iff_onChain]

end NativeHeaders.Hierarchy
