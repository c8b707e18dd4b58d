import Mathlib.Data.List.Nodup
import NativeHeaders.ClassSummary

/-! # Groups of native methods

Adding methods keeps the groups of a summary in order (`Grouped`): there is one group for each name,
a group holds methods of its name only, and no two of them have the same types. Two listed methods
of one name are then in one group, so they are overloaded or not together
(`exists_group_of_name_eq`), and a method that is not overloaded is the only one of its name
(`eq_of_not_overloaded`). -/

namespace NativeHeaders

namespace MethodGroup

/-- A group holds methods of its own name, at least one, and no two with the same types. -/
structure Coherent (group : MethodGroup) : Prop where
  /-- There is a method. -/
  nonempty : group.methods ≠ []
  /-- The methods have the name of the group. -/
  name_eq : ∀ method ∈ group.methods, method.name = group.name
  /-- The methods differ in their types. -/
  types_nodup : (group.methods.map NativeMethod.types).Nodup

/-- Coherent groups with a name of its own each. -/
structure Grouped (groups : List MethodGroup) : Prop where
  /-- The names differ. -/
  names_nodup : (groups.map MethodGroup.name).Nodup
  /-- Every group is coherent. -/
  coherent : ∀ group ∈ groups, group.Coherent

/-- No groups are grouped. -/
theorem grouped_nil : Grouped [] where
  names_nodup := List.nodup_nil
  coherent := by simp

/-- A group of one method is coherent. -/
theorem coherent_singleton (method : NativeMethod) :
    Coherent { name := method.name, methods := [method] } where
  nonempty := by simp
  name_eq := by simp
  types_nodup := by simp

/-- A method with new types can join the group of its name. -/
theorem Coherent.append {group : MethodGroup} (h : group.Coherent) {method : NativeMethod}
    (hname : group.name = method.name) (htypes : group.hasTypes method.types = false) :
    Coherent { group with methods := group.methods ++ [method] } where
  nonempty := by simp
  name_eq := by
    intro other hother
    rcases List.mem_append.1 hother with hother | hother
    · exact h.name_eq other hother
    · rw [List.mem_singleton.1 hother, hname]
  types_nodup := by
    have hnew : method.types ∉ group.methods.map NativeMethod.types := by
      intro hmem
      obtain ⟨other, hother, heq⟩ := List.mem_map.1 hmem
      simp only [hasTypes, List.any_eq_false, decide_eq_true_eq] at htypes
      exact htypes other hother heq
    rw [List.map_append, List.nodup_append]
    refine ⟨h.types_nodup, List.nodup_singleton _, ?_⟩
    rintro types htypes _ hmem rfl
    rw [List.map_singleton, List.mem_singleton] at hmem
    exact hnew (hmem ▸ htypes)

/-! ### Adding a method -/

/-- Adding a method adds no name but its own. -/
theorem mem_names_insert {method : NativeMethod} {groups : List MethodGroup} {name : String} :
    name ∈ (insert method groups).1.map MethodGroup.name ↔
      name = method.name ∨ name ∈ groups.map MethodGroup.name := by
  induction groups with
  | nil => simp [insert]
  | cons group groups ih =>
    unfold insert
    split
    · next hname =>
      split <;> simp [hname]
    · simp only [List.map_cons, List.mem_cons, ih]
      tauto

/-- The groups stay in order when a method is added. -/
theorem Grouped.insert {groups : List MethodGroup} (h : Grouped groups) (method : NativeMethod) :
    Grouped (MethodGroup.insert method groups).1 := by
  induction groups with
  | nil =>
    refine ⟨by simp [MethodGroup.insert], fun group hgroup => ?_⟩
    rw [List.mem_singleton.1 hgroup]
    exact coherent_singleton method
  | cons group groups ih =>
    obtain ⟨hgroup, hgroups⟩ := List.forall_mem_cons.1 h.coherent
    obtain ⟨hnew, hnodup⟩ := List.nodup_cons.1 h.names_nodup
    unfold MethodGroup.insert
    split
    · next hname =>
      split
      · exact h
      · next htypes =>
        refine ⟨h.names_nodup, List.forall_mem_cons.2 ⟨?_, hgroups⟩⟩
        exact hgroup.append hname (Bool.eq_false_iff.2 htypes)
    · next hname =>
      -- The method went to the groups behind the first one, whose name is another.
      have hrest := ih ⟨hnodup, hgroups⟩
      refine ⟨List.nodup_cons.2 ⟨?_, hrest.names_nodup⟩,
        List.forall_mem_cons.2 ⟨hgroup, hrest.coherent⟩⟩
      rw [mem_names_insert]
      rintro (heq | hmem)
      · exact hname heq
      · exact hnew hmem

/-- The methods of the groups after a method was added are the old ones and perhaps the new one. -/
theorem mem_methods_insert {method other : NativeMethod} {groups : List MethodGroup}
    {group : MethodGroup} (hgroup : group ∈ (insert method groups).1)
    (hother : other ∈ group.methods) :
    other = method ∨ ∃ old ∈ groups, other ∈ old.methods := by
  induction groups with
  | nil =>
    rw [List.mem_singleton.1 hgroup, List.mem_singleton] at hother
    exact Or.inl hother
  | cons first groups ih =>
    unfold insert at hgroup
    split at hgroup
    · split at hgroup
      · exact Or.inr ⟨group, hgroup, hother⟩
      · rcases List.mem_cons.1 hgroup with rfl | hgroup
        · rcases List.mem_append.1 hother with hother | hother
          · exact Or.inr ⟨first, List.mem_cons_self, hother⟩
          · exact Or.inl (List.mem_singleton.1 hother)
        · exact Or.inr ⟨group, List.mem_cons_of_mem _ hgroup, hother⟩
    · rcases List.mem_cons.1 hgroup with rfl | hgroup
      · exact Or.inr ⟨group, List.mem_cons_self, hother⟩
      · rcases ih hgroup with h | ⟨old, hold, hmem⟩
        · exact Or.inl h
        · exact Or.inr ⟨old, List.mem_cons_of_mem _ hold, hmem⟩

end MethodGroup

namespace ClassSummary

open MethodGroup

/-- A method is listed as overloaded exactly if its group holds another one. -/
theorem mem_methods {summary : ClassSummary} {method : NativeMethod} {isOverloaded : Bool} :
    (method, isOverloaded) ∈ summary.methods ↔
      ∃ group ∈ summary.groups, method ∈ group.methods ∧
        isOverloaded = decide (group.methods.length > 1) := by
  simp only [methods, flagged, List.mem_flatMap, List.mem_map, Prod.mk.injEq]
  constructor
  · rintro ⟨group, hgroup, _, hmem, rfl, rfl⟩
    exact ⟨group, hgroup, hmem, rfl⟩
  · rintro ⟨group, hgroup, hmem, rfl⟩
    exact ⟨group, hgroup, method, hmem, rfl, rfl⟩

variable {summary : ClassSummary} {method other : NativeMethod}
variable {isOverloaded otherOverloaded : Bool}

/-- Methods of one name stand in one group. -/
theorem exists_group_of_name_eq (h : Grouped summary.groups)
    (hmethod : (method, isOverloaded) ∈ summary.methods)
    (hother : (other, otherOverloaded) ∈ summary.methods) (hname : method.name = other.name) :
    ∃ group ∈ summary.groups, method ∈ group.methods ∧ other ∈ group.methods ∧
      isOverloaded = decide (group.methods.length > 1) ∧ otherOverloaded = isOverloaded := by
  obtain ⟨group, hgroup, hmem, hflag⟩ := mem_methods.1 hmethod
  obtain ⟨otherGroup, hotherGroup, hotherMem, hotherFlag⟩ := mem_methods.1 hother
  -- A group has the name of its methods, and no other group has it.
  have hgroups : group.name = otherGroup.name := by
    rw [← (h.coherent group hgroup).name_eq method hmem, hname,
      (h.coherent otherGroup hotherGroup).name_eq other hotherMem]
  obtain rfl := List.inj_on_of_nodup_map h.names_nodup hgroup hotherGroup hgroups
  exact ⟨group, hgroup, hmem, hotherMem, hflag, hotherFlag.trans hflag.symm⟩

/-- A method that is not overloaded is the only one of its name. -/
theorem eq_of_not_overloaded (h : Grouped summary.groups)
    (hmethod : (method, false) ∈ summary.methods)
    (hother : (other, otherOverloaded) ∈ summary.methods) (hname : method.name = other.name) :
    method = other := by
  obtain ⟨group, -, hmem, hotherMem, hflag, -⟩ := exists_group_of_name_eq h hmethod hother hname
  have hlength : group.methods.length ≤ 1 := by simpa using hflag
  -- Both stand in a group that has no room for two.
  match hmethods : group.methods with
  | [] => simp [hmethods] at hmem
  | [only] => rw [hmethods, List.mem_singleton] at hmem hotherMem; rw [hmem, hotherMem]
  | _ :: _ :: _ => simp [hmethods] at hlength

/-- Methods of one name with the same types are one method. -/
theorem eq_of_types_eq (h : Grouped summary.groups)
    (hmethod : (method, isOverloaded) ∈ summary.methods)
    (hother : (other, otherOverloaded) ∈ summary.methods) (hname : method.name = other.name)
    (htypes : method.types = other.types) : method = other := by
  obtain ⟨group, hgroup, hmem, hotherMem, -, -⟩ := exists_group_of_name_eq h hmethod hother hname
  exact List.inj_on_of_nodup_map (h.coherent group hgroup).types_nodup hmem hotherMem htypes

/-- The methods of the groups after methods were added are the old ones and the added ones. -/
theorem mem_methods_addMethods {added : List NativeMethod} {group : MethodGroup}
    (hgroup : group ∈
      (added.foldl (fun summary method => (summary.addMethod method).1) summary).groups)
    (hmethod : method ∈ group.methods) :
    method ∈ added ∨ ∃ old ∈ summary.groups, method ∈ old.methods := by
  induction added generalizing summary with
  | nil => exact .inr ⟨group, hgroup, hmethod⟩
  | cons first added ih =>
    rcases ih hgroup with hlater | ⟨old, hold, hmem⟩
    · exact .inl (List.mem_cons_of_mem _ hlater)
    · rcases mem_methods_insert hold hmem with rfl | hbefore
      · exact .inl List.mem_cons_self
      · exact .inr hbefore

/-- A class that had no methods lists those that were added. -/
theorem mem_of_mem_methods_withMembers {constants : List ConstantField}
    {added : List NativeMethod} (hgroups : summary.groups = [])
    (h : (method, isOverloaded) ∈ (summary.withMembers constants added).methods) :
    method ∈ added := by
  obtain ⟨group, hgroup, hmethod, -⟩ := mem_methods.1 h
  rcases mem_methods_addMethods hgroup hmethod with hmem | ⟨old, hold, -⟩
  · exact hmem
  · have hnone : old ∈ summary.groups := hold
    rw [hgroups] at hnone
    cases hnone

end ClassSummary

end NativeHeaders
