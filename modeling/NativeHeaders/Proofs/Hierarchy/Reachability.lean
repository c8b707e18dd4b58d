import Mathlib.Data.List.Perm.Subperm
import Mathlib.Logic.Relation
import NativeHeaders.Hierarchy

/-! # Walks and reachability

The walk to the root of the throwable classes takes a bounded number of steps. `Walks` is the walk
without bound, as a relation that holds if it ends; `walks_walk` says that the bound is never what
ends the walk, if it is as large as the number of classes with a superclass. A walk that asks a
hierarchy which gives the links of one relation, however its state changes, reaches the root exactly
if the links lead there (`Walks.reaches`). -/

namespace NativeHeaders

/-- No more names than the count have the property. -/
def AtMost (count : Nat) (holds : String → Prop) : Prop :=
  ∃ names : List String, names.length ≤ count ∧ ∀ name, holds name → name ∈ names

/-- Distinct names with the property are no more than the count. -/
theorem AtMost.length_le {count : Nat} {holds : String → Prop} (h : AtMost count holds)
    {names : List String} (hnodup : names.Nodup) (hnames : ∀ name ∈ names, holds name) :
    names.length ≤ count := by
  obtain ⟨all, hlength, hall⟩ := h
  have hsubset : names ⊆ all := fun name hname => hall name (hnames name hname)
  exact Nat.le_trans (hnodup.subperm hsubset).length_le hlength

namespace Hierarchy

variable {σ : Type} {hierarchy : Hierarchy σ} {seen : List String} {current : String}
  {state : σ} {outcome : Bool × σ}

/-- The walk that goes on until it reaches the root, a class that was seen, or one without
superclass, with what it gives. -/
inductive Walks (hierarchy : Hierarchy σ) : List String → String → σ → Bool × σ → Prop where
  /-- The walk is at the root. -/
  | root {seen : List String} {state : σ} : Walks hierarchy seen throwableRoot state (true, state)
  /-- The walk has come back to a class. -/
  | cycle {seen : List String} {current : String} {state : σ} (hroot : current ≠ throwableRoot)
      (hseen : current ∈ seen) : Walks hierarchy seen current state (false, state)
  /-- The class has no superclass. -/
  | stop {seen : List String} {current : String} {state after : σ}
      (hroot : current ≠ throwableRoot) (hnew : current ∉ seen)
      (hanswer : hierarchy.superclassOf current state = (none, after)) :
      Walks hierarchy seen current state (false, after)
  /-- The walk goes on with the superclass. -/
  | step {seen : List String} {current parent : String} {state after : σ} {outcome : Bool × σ}
      (hroot : current ≠ throwableRoot) (hnew : current ∉ seen)
      (hanswer : hierarchy.superclassOf current state = (some parent, after))
      (hrest : Walks hierarchy (current :: seen) parent after outcome) :
      Walks hierarchy seen current state outcome

/-- In all states that are valid, the hierarchy gives the links of one relation, and asking it keeps
its state valid. -/
structure Follows (hierarchy : Hierarchy σ) (link : String → String → Prop) (isValid : σ → Prop) :
    Prop where
  /-- An answer is a link. -/
  answers : ∀ state, isValid state → ∀ name parent,
    (hierarchy.superclassOf name state).1 = some parent ↔ link name parent
  /-- Asking keeps the state valid. -/
  keeps : ∀ state, isValid state → ∀ name, isValid (hierarchy.superclassOf name state).2

variable {link : String → String → Prop} {isValid : σ → Prop} {answer : Option String} {after : σ}

/-- After a lookup the state is still a valid one. -/
theorem Follows.valid_after (h : hierarchy.Follows link isValid) (hvalid : isValid state)
    (hanswer : hierarchy.superclassOf current state = (answer, after)) : isValid after := by
  have hafter := h.keeps state hvalid current
  rwa [hanswer] at hafter

/-- In a valid state a lookup finds exactly the class to which the link leads. -/
theorem Follows.link_iff (h : hierarchy.Follows link isValid) (hvalid : isValid state)
    (hanswer : hierarchy.superclassOf current state = (answer, after)) {parent : String} :
    link current parent ↔ answer = some parent := by
  rw [← h.answers state hvalid, hanswer]

/-- A walk keeps the state valid. -/
theorem Walks.valid_after (h : hierarchy.Walks seen current state outcome)
    (hfollows : hierarchy.Follows link isValid) (hvalid : isValid state) : isValid outcome.2 := by
  induction h with
  | root => exact hvalid
  | cycle => exact hvalid
  | stop _ _ hanswer => exact hfollows.valid_after hvalid hanswer
  | step _ _ hanswer _ ih => exact ih (hfollows.valid_after hvalid hanswer)

/-- From a class in a set that is closed under links, only classes of the set are reached. -/
theorem mem_of_reaches {target : String} (hclosed : ∀ name ∈ seen, ∀ parent, link name parent →
    parent ∈ seen) (hcurrent : current ∈ seen) (h : Relation.ReflTransGen link current target) :
    target ∈ seen := by
  induction h with
  | refl => exact hcurrent
  | tail _ hlink ih => exact hclosed _ ih _ hlink

/-- The links of the classes that were seen lead to classes that were seen, or to the class at which
the walk is, and none of them is the root. -/
structure Closes (link : String → String → Prop) (seen : List String) (current : String) :
    Prop where
  /-- None is the root. -/
  ne_root : ∀ name ∈ seen, name ≠ throwableRoot
  /-- Links lead back or on. -/
  closed : ∀ name ∈ seen, ∀ parent, link name parent → parent = current ∨ parent ∈ seen

/-- A class whose links lead only to the next one may be added to what was seen. -/
theorem Closes.cons (h : Closes link seen current) (hroot : current ≠ throwableRoot)
    {parent : String} (hlinks : ∀ next, link current next → next = parent) :
    Closes link (current :: seen) parent where
  ne_root := List.forall_mem_cons.mpr ⟨hroot, h.ne_root⟩
  closed := by
    rw [List.forall_mem_cons]
    refine ⟨fun next hnext => .inl (hlinks next hnext), fun name hname next hnext => .inr ?_⟩
    exact List.mem_cons.mpr (h.closed name hname next hnext)

/-- From a class that was seen, the links do not lead to the root. -/
theorem Closes.not_reaches (h : Closes link seen current) (hseen : current ∈ seen) :
    ¬Relation.ReflTransGen link current throwableRoot := by
  intro hreaches
  have hclosed : ∀ name ∈ seen, ∀ parent, link name parent → parent ∈ seen := by
    intro name hname parent hlink
    obtain rfl | hparent := h.closed name hname parent hlink
    · exact hseen
    · exact hparent
  exact h.ne_root _ (mem_of_reaches hclosed hseen hreaches) rfl

/-- A walk reaches the root exactly if the links lead there. -/
theorem Walks.reaches (h : hierarchy.Walks seen current state outcome)
    (hfollows : hierarchy.Follows link isValid) (hvalid : isValid state)
    (hcloses : Closes link seen current) :
    outcome.1 = true ↔ Relation.ReflTransGen link current throwableRoot := by
  -- By induction on the walk; what was seen stays closed.
  induction h with
  | root => simp [Relation.ReflTransGen.refl]
  | cycle _ hseen => simpa using hcloses.not_reaches hseen
  | stop hroot _ hanswer =>
    simp only [Bool.false_eq_true, false_iff]
    intro hreaches
    obtain heq | ⟨parent, hlink, -⟩ := hreaches.cases_head
    · exact hroot heq
    · cases (hfollows.link_iff hvalid hanswer).mp hlink
  | @step seen current parent _ _ _ hroot _ hanswer _ ih =>
    have hlinks : ∀ next, link current next ↔ parent = next := by
      intro next
      rw [hfollows.link_iff hvalid hanswer, Option.some.injEq]
    rw [ih (hfollows.valid_after hvalid hanswer)
      (hcloses.cons hroot fun next hnext => ((hlinks next).mp hnext).symm)]
    constructor
    · intro hreaches
      exact .head ((hlinks parent).mpr rfl) hreaches
    · intro hreaches
      obtain heq | ⟨next, hlink, hrest⟩ := hreaches.cases_head
      · exact absurd heq hroot
      · rwa [(hlinks next).mp hlink]

/-- A walk with as many steps as there may be classes with a superclass goes on until it ends. -/
theorem walks_walk (hfollows : hierarchy.Follows link isValid) {count steps : Nat}
    (hcount : AtMost count fun name => ∃ parent, link name parent) (hvalid : isValid state)
    (hnodup : seen.Nodup) (hseen : ∀ name ∈ seen, ∃ parent, link name parent)
    (hsteps : count + 1 ≤ steps + seen.length) :
    hierarchy.Walks seen current state (hierarchy.walk steps seen current state) := by
  induction steps generalizing seen current state with
  | zero =>
    -- More classes would have been seen than have a superclass.
    have hlength := hcount.length_le hnodup hseen
    omega
  | succ steps ih =>
    rw [walk]
    split
    · next hroot =>
      rw [hroot]
      exact .root
    · next hroot =>
      split
      · next hmem => exact .cycle hroot hmem
      · next hnew =>
        split
        · next after hanswer => exact .stop hroot hnew hanswer
        · next parent after hanswer =>
          have hlink : link current parent := (hfollows.link_iff hvalid hanswer).mpr rfl
          refine .step hroot hnew hanswer (ih (hfollows.valid_after hvalid hanswer)
            (List.nodup_cons.mpr ⟨hnew, hnodup⟩)
            (List.forall_mem_cons.mpr ⟨⟨parent, hlink⟩, hseen⟩) ?_)
          rw [List.length_cons]
          omega

end Hierarchy

end NativeHeaders
