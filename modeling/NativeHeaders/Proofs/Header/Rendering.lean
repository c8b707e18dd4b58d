import Mathlib.Logic.Basic
import NativeHeaders.Header

/-! # Rendering by hierarchies that answer alike

A header depends on a hierarchy only through the answers to which classes are throwable. Two
hierarchies that answer alike in related states (`Hierarchy.AnswersLike`) therefore render the same
text, and their states stay related, from the type of one value (`sameOutcome_ofFieldType`) up to
the header for many classes (`sameOutcome_renderMany`). -/

namespace NativeHeaders

variable {σ τ : Type}

/-- Two runs give the same and leave related states behind. -/
structure SameOutcome {α : Type} (related : σ → τ → Prop) (first : α × σ) (second : α × τ) :
    Prop where
  /-- They give the same. -/
  eq : first.1 = second.1
  /-- The states afterwards are related. -/
  after : related first.2 second.2

/-- In related states the hierarchies take the same classes for throwable, and their states stay
related. -/
def Hierarchy.AnswersLike (hierarchy : Hierarchy σ) (other : Hierarchy τ)
    (related : σ → τ → Prop) : Prop :=
  ∀ className state state', related state state' →
    SameOutcome related (hierarchy.isThrowable className state)
      (other.isThrowable className state')

variable {hierarchy : Hierarchy σ} {other : Hierarchy τ} {related : σ → τ → Prop} {state : σ}
  {state' : τ}

/-! ### Types -/

namespace NativeType

/-- Hierarchies that answer alike (`Hierarchy.AnswersLike`) give a field type the same native type.
-/
theorem sameOutcome_ofFieldType (h : hierarchy.AnswersLike other related)
    (hstate : related state state') (type : FieldType) :
    SameOutcome related (ofFieldType hierarchy type state) (ofFieldType other type state') := by
  cases type with
  | primitive type => exact ⟨rfl, hstate⟩
  | array element => cases element <;> exact ⟨rfl, hstate⟩
  | object className =>
    rw [ofFieldType, ofFieldType]
    split
    · exact ⟨rfl, hstate⟩
    · split
      · exact ⟨rfl, hstate⟩
      · -- Any other class is asked for.
        obtain ⟨hanswer, hafter⟩ := h className state state' hstate
        revert hanswer hafter
        rcases hierarchy.isThrowable className state with ⟨_ | _, after⟩ <;>
          rcases other.isThrowable className state' with ⟨_ | _, after'⟩ <;>
          intro hanswer hafter
        · exact ⟨rfl, hafter⟩
        · cases hanswer
        · cases hanswer
        · exact ⟨rfl, hafter⟩

/-- They give a result the same native type. -/
theorem sameOutcome_ofReturnType (h : hierarchy.AnswersLike other related)
    (hstate : related state state') (type : ReturnType) :
    SameOutcome related (ofReturnType hierarchy type state) (ofReturnType other type state') := by
  cases type with
  | void => exact ⟨rfl, hstate⟩
  | value type => exact sameOutcome_ofFieldType h hstate type

/-- They give parameters the same native types. -/
theorem sameOutcome_ofParameters (h : hierarchy.AnswersLike other related)
    (hstate : related state state') (types : List FieldType) :
    SameOutcome related (ofParameters hierarchy types state) (ofParameters other types state') := by
  induction types generalizing state state' with
  | nil => exact ⟨rfl, hstate⟩
  | cons type types ih =>
    obtain ⟨hfirst, hafter⟩ := sameOutcome_ofFieldType h hstate type
    obtain ⟨hrest, hlast⟩ := ih hafter
    exact ⟨congrArg₂ List.cons hfirst hrest, hlast⟩

end NativeType

/-! ### Prototypes -/

namespace Prototype

/-- They give a method the same prototype. -/
theorem sameOutcome_ofMethod (h : hierarchy.AnswersLike other related)
    (hstate : related state state') (entry : NativeMethod × Bool) :
    SameOutcome related (ofMethod hierarchy entry state) (ofMethod other entry state') := by
  obtain ⟨method, isOverloaded⟩ := entry
  obtain ⟨hresult, hafter⟩ :=
    NativeType.sameOutcome_ofReturnType h hstate method.types.returnType
  obtain ⟨hparameters, hlast⟩ :=
    NativeType.sameOutcome_ofParameters h hafter method.types.parameters
  exact ⟨congrArg₂ (Prototype.mk method isOverloaded) hresult hparameters, hlast⟩

/-- They give methods the same prototypes. -/
theorem sameOutcome_ofMethods (h : hierarchy.AnswersLike other related)
    (hstate : related state state') (entries : List (NativeMethod × Bool)) :
    SameOutcome related (ofMethods hierarchy entries state) (ofMethods other entries state') := by
  induction entries generalizing state state' with
  | nil => exact ⟨rfl, hstate⟩
  | cons entry entries ih =>
    obtain ⟨hfirst, hafter⟩ := sameOutcome_ofMethod h hstate entry
    obtain ⟨hrest, hlast⟩ := ih hafter
    exact ⟨congrArg₂ List.cons hfirst hrest, hlast⟩

end Prototype

/-! ### Headers -/

namespace Header

/-- A class has no header exactly if it declares nothing. -/
theorem renderOne_eq_none {summary : ClassSummary} :
    (renderOne hierarchy summary state).1 = none ↔ summary.isEmpty = true := by
  rw [renderOne]
  split
  · next hempty => simp [hempty]
  · next hsome => simp [hsome]

/-- A class for which something is rendered declares something. -/
theorem isEmpty_of_renderOne_some {summary : ClassSummary} {text : String} {after : σ}
    (h : renderOne hierarchy summary state = (some text, after)) : summary.isEmpty = false := by
  rw [← Bool.not_eq_true, ← renderOne_eq_none, h]
  simp

/-- There is no header for many classes exactly if none of them declares anything. -/
theorem renderMany_eq_none {summaries : List ClassSummary} :
    (renderMany hierarchy summaries state).1 = none ↔ summaries.all (·.isEmpty) = true := by
  rw [renderMany]
  cases hfilter : summaries.filter (!·.isEmpty) with
  | nil => simpa [List.filter_eq_nil_iff] using hfilter
  | cons first rest =>
    have hfirst : first ∈ summaries.filter (!·.isEmpty) := by simp [hfilter]
    rw [List.mem_filter] at hfirst
    simp only [reduceCtorEq, List.all_eq_true, false_iff]
    intro hall
    simp [hall first hfirst.1] at hfirst

/-- Hierarchies that answer alike render the same block for a class. -/
theorem sameOutcome_renderBlock (h : hierarchy.AnswersLike other related)
    (hstate : related state state') (summary : ClassSummary) :
    SameOutcome related (renderBlock hierarchy summary state)
      (renderBlock other summary state') := by
  obtain ⟨hprototypes, hafter⟩ := Prototype.sameOutcome_ofMethods h hstate summary.methods
  exact ⟨congrArg (block summary) hprototypes, hafter⟩

/-- They render the same blocks for classes, one after the other. -/
theorem sameOutcome_renderBlocks (h : hierarchy.AnswersLike other related)
    (hstate : related state state') (summaries : List ClassSummary) :
    SameOutcome related (renderBlocks hierarchy summaries state)
      (renderBlocks other summaries state') := by
  induction summaries generalizing state state' with
  | nil => exact ⟨rfl, hstate⟩
  | cons summary summaries ih =>
    obtain ⟨hfirst, hafter⟩ := sameOutcome_renderBlock h hstate summary
    obtain ⟨hrest, hlast⟩ := ih hafter
    exact ⟨congrArg₂ List.cons hfirst hrest, hlast⟩

/-- **Hierarchies that answer alike render the same header for a class.** -/
theorem sameOutcome_renderOne (h : hierarchy.AnswersLike other related)
    (hstate : related state state') (summary : ClassSummary) :
    SameOutcome related (renderOne hierarchy summary state) (renderOne other summary state') := by
  rw [renderOne, renderOne]
  split
  · exact ⟨rfl, hstate⟩
  · obtain ⟨htext, hafter⟩ := sameOutcome_renderBlock h hstate summary
    exact ⟨congrArg (some <| banner ++ ·) htext, hafter⟩

/-- **Hierarchies that answer alike render the same header for many classes.** -/
theorem sameOutcome_renderMany (h : hierarchy.AnswersLike other related)
    (hstate : related state state') (summaries : List ClassSummary) :
    SameOutcome related (renderMany hierarchy summaries state)
      (renderMany other summaries state') := by
  rw [renderMany, renderMany]
  cases summaries.filter (!·.isEmpty) with
  | nil => exact ⟨rfl, hstate⟩
  | cons first rest =>
    obtain ⟨hblocks, hafter⟩ := sameOutcome_renderBlocks h hstate (first :: rest)
    exact ⟨congrArg (some <| banner ++ String.join ·) hblocks, hafter⟩

end Header

end NativeHeaders
