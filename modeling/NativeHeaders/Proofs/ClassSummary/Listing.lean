import Mathlib.Data.List.Induction
import NativeHeaders.Proofs.ClassSummary.Groups

/-! # Which methods are listed

A summary is made by adding methods and constants one after the other, in any order, to a class
without members (`Construction`). Its groups are then a function of the methods that were to be
added (`groupsOf`): a group for each name, in the order in which the names came up first, with the
first method of each type that came up under the name. So the list of methods is a stable grouping
of those that were added (`methods_construct`). -/

namespace NativeHeaders

/-! ### First items -/

section FirstsBy

variable {α κ : Type} [DecidableEq κ]

/-- The items that are the first with their key, in order. -/
def firstsBy (key : α → κ) : List α → List α
  | [] => []
  | item :: items => item :: (firstsBy key items).filter (key · ≠ key item)

variable {key : α → κ} {items : List α} {item : α}

/-- The keys of the first items are the keys of all. -/
theorem mem_map_firstsBy {value : κ} :
    value ∈ (firstsBy key items).map key ↔ value ∈ items.map key := by
  induction items with
  | nil => rfl
  | cons first items ih =>
    rw [firstsBy, List.map_cons, List.map_cons, List.mem_cons, List.mem_cons, ← ih]
    by_cases hfirst : value = key first
    · simp [hfirst]
    · simp only [hfirst, false_or, List.mem_map, List.mem_filter, decide_eq_true_eq]
      constructor
      · rintro ⟨other, ⟨hother, -⟩, rfl⟩
        exact ⟨other, hother, rfl⟩
      · rintro ⟨other, hother, rfl⟩
        exact ⟨other, ⟨hother, hfirst⟩, rfl⟩

/-- No two of the first items have one key. -/
theorem nodup_map_firstsBy (key : α → κ) (items : List α) :
    ((firstsBy key items).map key).Nodup := by
  induction items with
  | nil => exact List.nodup_nil
  | cons first items ih =>
    rw [firstsBy, List.map_cons, List.nodup_cons]
    constructor
    · intro hmem
      obtain ⟨other, hother, heq⟩ := List.mem_map.mp hmem
      have hne : key other ≠ key first := of_decide_eq_true (List.mem_filter.mp hother).2
      exact hne heq
    · exact ih.sublist (List.filter_sublist.map key)

/-- An item at the end is a first one if its key is new. -/
theorem firstsBy_concat :
    firstsBy key (items ++ [item]) =
      if key item ∈ items.map key then firstsBy key items else firstsBy key items ++ [item] := by
  induction items with
  | nil => simp [firstsBy]
  | cons first items ih =>
    rw [List.cons_append, firstsBy, firstsBy, ih, List.map_cons]
    by_cases hfirst : key item = key first
    · -- The key of the first item is not looked for any more.
      split <;> simp [hfirst, List.filter_append]
    · by_cases hmem : key item ∈ items.map key
      · simp [hmem]
      · rw [if_neg hmem, if_neg (by simpa [hfirst] using hmem)]
        simp [hfirst, List.filter_append]

end FirstsBy

namespace MethodGroup

variable {method : NativeMethod} {groups : List MethodGroup} {calls : List NativeMethod}

/-! ### Groups as a function of the methods -/

/-- The name and the types of a method, by which it is told from others. -/
def signature (method : NativeMethod) : String × MethodDescriptor := (method.name, method.types)

/-- The group of a name. -/
def groupOf (calls : List NativeMethod) (name : String) : MethodGroup where
  name := name
  methods := (firstsBy signature calls).filter (·.name = name)

/-- The groups that methods make. -/
def groupsOf (calls : List NativeMethod) : List MethodGroup :=
  (firstsBy NativeMethod.name calls).map fun first => groupOf calls first.name

/-- The groups of `groupsOf` have the names of the methods, in the order in which these came up. -/
theorem map_name_groupsOf (calls : List NativeMethod) :
    (groupsOf calls).map MethodGroup.name =
      (firstsBy NativeMethod.name calls).map NativeMethod.name := by
  rw [groupsOf, List.map_map]
  rfl

/-- A method of a new name gets a group of its own behind the others. -/
theorem insert_of_name_notMem (h : method.name ∉ groups.map MethodGroup.name) :
    insert method groups = (groups ++ [{ name := method.name, methods := [method] }], true) := by
  induction groups with
  | nil => rfl
  | cons group groups ih =>
    rw [List.map_cons, List.mem_cons, not_or] at h
    rw [insert, if_neg (Ne.symm h.1), ih h.2]
    rfl

variable {names : List String} {change changed : String → MethodGroup}

/-- A method is not added if the group of its name has one of its types. -/
theorem insert_of_hasTypes (hname : ∀ name, (change name).name = name)
    (hmem : method.name ∈ names) (htypes : (change method.name).hasTypes method.types = true) :
    insert method (names.map change) = (names.map change, false) := by
  induction names with
  | nil => cases hmem
  | cons name names ih =>
    rw [List.map_cons, insert, hname]
    by_cases heq : name = method.name
    · rw [if_pos heq, heq, if_pos htypes]
    · have hrest : method.name ∈ names := by simpa [Ne.symm heq] using hmem
      rw [if_neg heq, ih hrest]

/-- A method of new types goes to the end of the group of its name, and no other group changes. -/
theorem insert_of_not_hasTypes (hname : ∀ name, (change name).name = name)
    (hnodup : names.Nodup) (hmem : method.name ∈ names)
    (htypes : (change method.name).hasTypes method.types = false)
    (hchanged : changed method.name =
      { name := method.name, methods := (change method.name).methods ++ [method] })
    (hkept : ∀ name, name ≠ method.name → changed name = change name) :
    insert method (names.map change) = (names.map changed, true) := by
  induction names with
  | nil => cases hmem
  | cons name names ih =>
    obtain ⟨hnew, hnodup⟩ := List.nodup_cons.mp hnodup
    rw [List.map_cons, List.map_cons, insert, hname]
    by_cases heq : name = method.name
    · have hlater : names.map changed = names.map change := by
        apply List.map_congr_left
        intro other hother
        exact hkept other fun hsame => hnew (heq ▸ hsame ▸ hother)
      rw [if_pos heq, heq, if_neg (by simp [htypes]), hchanged, hlater]
    · have hrest : method.name ∈ names := by simpa [Ne.symm heq] using hmem
      rw [if_neg heq, ih hnodup hrest, hkept name heq]

/-- No group changes if a method with the signature of another one comes up. -/
theorem groupOf_concat_of_mem {name : String} (h : signature method ∈ calls.map signature) :
    groupOf (calls ++ [method]) name = groupOf calls name := by
  rw [groupOf, firstsBy_concat, if_pos h, groupOf]

/-- Only the group of its name changes when a method comes up. -/
theorem groupOf_concat_of_ne {name : String} (h : method.name ≠ name) :
    groupOf (calls ++ [method]) name = groupOf calls name := by
  rw [groupOf, firstsBy_concat]
  split
  · rfl
  · simp [groupOf, h]

/-- A method with a new signature stands at the end of the group of its name. -/
theorem groupOf_concat_self (h : signature method ∉ calls.map signature) :
    groupOf (calls ++ [method]) method.name =
      { name := method.name, methods := (groupOf calls method.name).methods ++ [method] } := by
  rw [groupOf, firstsBy_concat, if_neg h]
  simp [groupOf]

/-- The group of a name has a method of some types if one with both was to be added. -/
theorem hasTypes_groupOf :
    (groupOf calls method.name).hasTypes method.types = true ↔
      signature method ∈ calls.map signature := by
  have hfirst : signature method ∈ calls.map signature ↔
      signature method ∈ (firstsBy signature calls).map signature := mem_map_firstsBy.symm
  rw [hfirst, hasTypes, List.any_eq_true]
  simp only [groupOf, List.mem_filter, List.mem_map, signature, decide_eq_true_eq, Prod.mk.injEq]
  constructor
  · rintro ⟨other, ⟨hother, hname⟩, htypes⟩
    exact ⟨other, hother, hname, htypes⟩
  · rintro ⟨other, hother, hname, htypes⟩
    exact ⟨other, ⟨hother, hname⟩, htypes⟩

/-! ### One more method -/

/-- The groups are those of the names, in the order in which these came up. -/
theorem groupsOf_eq_map (calls : List NativeMethod) :
    groupsOf calls =
      ((firstsBy NativeMethod.name calls).map NativeMethod.name).map (groupOf calls) := by
  rw [List.map_map]
  rfl

/-- A method of a known name is added to its group in `groupsOf`, if none before had its types too. -/
theorem insert_groupsOf_of_mem (hname : method.name ∈ calls.map NativeMethod.name) :
    insert method (groupsOf calls) =
      (groupsOf (calls ++ [method]), decide (signature method ∉ calls.map signature)) := by
  have hfirst := mem_map_firstsBy.mpr hname
  rw [groupsOf_eq_map, groupsOf_eq_map, firstsBy_concat, if_pos hname]
  by_cases hsignature : signature method ∈ calls.map signature
  · rw [insert_of_hasTypes (fun _ => rfl) hfirst (hasTypes_groupOf.mpr hsignature)]
    simp [groupOf_concat_of_mem hsignature, hsignature]
  · have hnodup := nodup_map_firstsBy NativeMethod.name calls
    have htypes := Bool.eq_false_iff.mpr (mt hasTypes_groupOf.mp hsignature)
    have hkept : ∀ name, name ≠ method.name →
        groupOf (calls ++ [method]) name = groupOf calls name :=
      fun name hne => groupOf_concat_of_ne (Ne.symm hne)
    rw [insert_of_not_hasTypes (fun _ => rfl) hnodup hfirst htypes (groupOf_concat_self hsignature)
      hkept, decide_eq_true hsignature]

/-- Where no method has the name of a method, none has its signature. -/
theorem signature_notMem (hname : method.name ∉ calls.map NativeMethod.name) :
    signature method ∉ calls.map signature := by
  intro hmem
  obtain ⟨other, hother, heq⟩ := List.mem_map.mp hmem
  exact hname (List.mem_map.mpr ⟨other, hother, congrArg Prod.fst heq⟩)

/-- Where no method has a name, the group of the name is empty. -/
theorem methods_groupOf_eq_nil {name : String} (hname : name ∉ calls.map NativeMethod.name) :
    (groupOf calls name).methods = [] := by
  rw [groupOf, List.filter_eq_nil_iff]
  intro other hother hsame
  have hsignature : signature other ∈ calls.map signature :=
    mem_map_firstsBy.mp (List.mem_map_of_mem hother)
  obtain ⟨call, hcall, heq⟩ := List.mem_map.mp hsignature
  have hcallName : call.name = name := (congrArg Prod.fst heq).trans (of_decide_eq_true hsame)
  exact hname (List.mem_map.mpr ⟨call, hcall, hcallName⟩)

/-- A method of a new name makes a group of its own behind those of `groupsOf`. -/
theorem groupsOf_concat_of_notMem (hname : method.name ∉ calls.map NativeMethod.name) :
    groupsOf (calls ++ [method]) =
      groupsOf calls ++ [{ name := method.name, methods := [method] }] := by
  have hothers : ∀ first ∈ firstsBy NativeMethod.name calls,
      groupOf (calls ++ [method]) first.name = groupOf calls first.name := by
    intro first hfirst
    have hne : method.name ≠ first.name := by
      intro heq
      exact hname (heq ▸ mem_map_firstsBy.mp (List.mem_map_of_mem hfirst))
    exact groupOf_concat_of_ne hne
  have hown : groupOf (calls ++ [method]) method.name =
      { name := method.name, methods := [method] } := by
    rw [groupOf_concat_self (signature_notMem hname), methods_groupOf_eq_nil hname,
      List.nil_append]
  rw [groupsOf, firstsBy_concat, if_neg hname, List.map_append, List.map_congr_left hothers,
    List.map_singleton, hown, groupsOf]

/-- **Adding a method makes the groups of one more method**, and it is added if none before had its
name and its types. -/
theorem insert_groupsOf (method : NativeMethod) (calls : List NativeMethod) :
    insert method (groupsOf calls) =
      (groupsOf (calls ++ [method]), decide (signature method ∉ calls.map signature)) := by
  by_cases hname : method.name ∈ calls.map NativeMethod.name
  · exact insert_groupsOf_of_mem hname
  · have hnew : method.name ∉ (groupsOf calls).map MethodGroup.name := by
      rwa [map_name_groupsOf, mem_map_firstsBy]
    rw [insert_of_name_notMem hnew, groupsOf_concat_of_notMem hname,
      decide_eq_true (signature_notMem hname)]

end MethodGroup

namespace ClassSummary

open MethodGroup

/-! ### Constructions -/

/-- A method or a constant that is to be added to a summary. -/
inductive Member where
  /-- A method. -/
  | method (method : NativeMethod)
  /-- A constant. -/
  | constant (field : ConstantField)

/-- The method, if the member is one. -/
def Member.method? : Member → Option NativeMethod
  | .method single => some single
  | .constant _ => none

/-- The methods of members. -/
def methodsOf (members : List Member) : List NativeMethod := members.filterMap Member.method?

/-- A summary to which members are being added. -/
structure Construction where
  /-- The summary. -/
  summary : ClassSummary
  /-- The methods that were added, in order, as adding them told. -/
  added : List NativeMethod

/-- The construction after one more member. -/
def Construction.add (construction : Construction) : Member → Construction
  | .method method =>
    let (summary, isAdded) := construction.summary.addMethod method
    { summary, added := construction.added ++ if isAdded then [method] else [] }
  | .constant field => { construction with summary := construction.summary.addConstant field }

/-- The construction of a class by adding members one after the other. -/
def construct (name : String) (superName : Option String) (members : List Member) : Construction :=
  members.foldl Construction.add { summary := { name, superName }, added := [] }

variable {name : String} {superName : Option String} {members : List Member}

/-- The last member is added last. -/
theorem construct_concat (member : Member) :
    construct name superName (members ++ [member]) =
      (construct name superName members).add member := by
  rw [construct, List.foldl_append, List.foldl_cons, List.foldl_nil, construct]

/-- The last member stands at the end of `methodsOf`, if it is a method. -/
theorem methodsOf_concat (member : Member) :
    methodsOf (members ++ [member]) = methodsOf members ++ member.method?.toList := by
  rw [methodsOf, List.filterMap_append, ← methodsOf]
  cases member <;> rfl

/-- The groups are those that the methods make, whatever constants came in between. -/
theorem groups_construct (name : String) (superName : Option String) (members : List Member) :
    (construct name superName members).summary.groups = groupsOf (methodsOf members) := by
  induction members using List.reverseRecOn with
  | nil => rfl
  | append_singleton members member ih =>
    rw [construct_concat, methodsOf_concat]
    cases member with
    | method method =>
      show (insert method (construct name superName members).summary.groups).1 = _
      rw [ih, insert_groupsOf]
      rfl
    | constant field => simpa [Construction.add, addConstant, Member.method?] using ih

/-- A method is added if none before had its name and its types. -/
theorem isAdded_construct (method : NativeMethod) :
    ((construct name superName members).summary.addMethod method).2 =
      decide (signature method ∉ (methodsOf members).map signature) := by
  show (insert method (construct name superName members).summary.groups).2 = _
  rw [groups_construct, insert_groupsOf]

/-- The methods that were added are the first ones with their name and types. -/
theorem added_construct (name : String) (superName : Option String) (members : List Member) :
    (construct name superName members).added = firstsBy signature (methodsOf members) := by
  induction members using List.reverseRecOn with
  | nil => rfl
  | append_singleton members member ih =>
    rw [construct_concat, methodsOf_concat]
    cases member with
    | method method =>
      show (construct name superName members).added ++
        (if ((construct name superName members).summary.addMethod method).2 then [method] else []) = _
      rw [ih, isAdded_construct]
      show _ = firstsBy signature (methodsOf members ++ [method])
      rw [firstsBy_concat]
      by_cases h : signature method ∈ (methodsOf members).map signature <;> simp [h]
    | constant field => simpa [Construction.add, Member.method?] using ih

/-- The groups of a class that is constructed are `Grouped`. -/
theorem grouped_construct (name : String) (superName : Option String) (members : List Member) :
    Grouped (construct name superName members).summary.groups := by
  induction members using List.reverseRecOn with
  | nil => exact grouped_nil
  | append_singleton members member ih =>
    rw [construct_concat]
    cases member with
    | method method => exact ih.insert method
    | constant field => exact ih

/-- A summary to which the methods of a list are added is the construction with them. -/
theorem summary_construct_methods (construction : Construction) (methods : List NativeMethod) :
    ((methods.map Member.method).foldl Construction.add construction).summary =
      methods.foldl (fun summary method => (summary.addMethod method).1) construction.summary := by
  induction methods generalizing construction with
  | nil => rfl
  | cons method methods ih =>
    rw [List.map_cons, List.foldl_cons, ih, List.foldl_cons]
    rfl

/-- A summary to which the constants of a list are added has them behind its own. -/
theorem summary_construct_constants (construction : Construction) (constants : List ConstantField) :
    ((constants.map Member.constant).foldl Construction.add construction).summary =
      { construction.summary with constants := construction.summary.constants ++ constants } := by
  induction constants generalizing construction with
  | nil => simp
  | cons field constants ih =>
    rw [List.map_cons, List.foldl_cons, ih]
    simp [Construction.add, addConstant]

/-- **`withMembers` is a construction**: the constants are added one after the other, and then the
methods. -/
theorem withMembers_eq_construct (name : String) (superName : Option String)
    (constants : List ConstantField) (methods : List NativeMethod) :
    ({ name, superName } : ClassSummary).withMembers constants methods =
      (construct name superName
        (constants.map Member.constant ++ methods.map Member.method)).summary := by
  rw [construct, List.foldl_append, summary_construct_methods, summary_construct_constants,
    withMembers]

/-- Adding methods to the groups of some makes the groups of all, and changes nothing else. -/
theorem foldl_addMethod (summary : ClassSummary) (calls methods : List NativeMethod)
    (h : summary.groups = groupsOf calls) :
    methods.foldl (fun summary method => (summary.addMethod method).1) summary =
      { summary with groups := groupsOf (calls ++ methods) } := by
  induction methods generalizing summary calls with
  | nil => rw [List.append_nil, ← h, List.foldl_nil]
  | cons method methods ih =>
    have hgroups : (summary.addMethod method).1 =
        { summary with groups := groupsOf (calls ++ [method]) } := by
      rw [addMethod, h, insert_groupsOf]
    rw [List.foldl_cons, hgroups, ih _ (calls ++ [method]) rfl, List.append_assoc,
      List.singleton_append]

/-- **What `withMembers` makes**: a class with the given constants and the groups that the methods
make, and nothing else. -/
theorem withMembers_eq (name : String) (superName : Option String)
    (constants : List ConstantField) (methods : List NativeMethod) :
    ({ name, superName } : ClassSummary).withMembers constants methods =
      { name, superName, constants, groups := groupsOf methods } := by
  rw [withMembers, foldl_addMethod _ [] methods rfl]
  rfl

/-! ### The list of methods -/

/-- The listed methods, without their marks, are those of the groups. -/
theorem map_fst_methods (summary : ClassSummary) :
    summary.methods.map Prod.fst = summary.groups.flatMap MethodGroup.methods := by
  rw [methods, List.map_flatMap]
  congr 1
  funext group
  rw [flagged, List.map_map]
  exact List.map_id _

/-- A listed method is overloaded if another one is listed with its name and other types. -/
theorem isOverloaded_iff {summary : ClassSummary} (h : Grouped summary.groups)
    {method : NativeMethod} {isOverloaded : Bool}
    (hmethod : (method, isOverloaded) ∈ summary.methods) :
    isOverloaded = true ↔ ∃ other ∈ summary.methods,
      other.1.name = method.name ∧ other.1.types ≠ method.types := by
  constructor
  · rintro rfl
    obtain ⟨group, hgroup, hmem, hflag⟩ := mem_methods.mp hmethod
    have hlength : group.methods.length > 1 := of_decide_eq_true hflag.symm
    -- The types in the group differ, so they cannot all be those of the method.
    by_contra hnone
    have hsame : ∀ types ∈ group.methods.map NativeMethod.types, types = method.types := by
      intro types htypes
      obtain ⟨other, hother, rfl⟩ := List.mem_map.mp htypes
      by_contra hne
      refine hnone ⟨(other, true), mem_methods.mpr ⟨group, hgroup, hother, hflag⟩, ?_, hne⟩
      rw [(h.coherent group hgroup).name_eq other hother,
        (h.coherent group hgroup).name_eq method hmem]
    have hnodup := (h.coherent group hgroup).types_nodup
    rw [List.eq_replicate_of_mem hsame, List.nodup_replicate, List.length_map] at hnodup
    omega
  · rintro ⟨⟨other, otherOverloaded⟩, hother, hname, htypes⟩
    by_contra hflag
    rw [Bool.not_eq_true] at hflag
    subst hflag
    exact htypes (congrArg NativeMethod.types
      (eq_of_not_overloaded h hmethod hother hname.symm)).symm

/-- **The methods are listed in stable groups without duplicates.** However methods and constants
are added to a class without members, adding a method says that it was added exactly if no method
with its name and its types came before. The methods that were added so are listed, each as it was
added, name by name: the names in the order in which they came up first, and under each name the
methods in the order in which they were added. A listed method is marked as overloaded exactly if
another one is listed with its name and other types. No group is empty, so the summary is empty
exactly if no method was added and it has no constants. -/
theorem methods_construct (name : String) (superName : Option String) (members : List Member) :
    (∀ before method after, members = before ++ .method method :: after →
      (((construct name superName before).summary.addMethod method).2 = true ↔
        ∀ earlier ∈ methodsOf before,
          ¬(earlier.name = method.name ∧ earlier.types = method.types))) ∧
      (construct name superName members).summary.methods.map Prod.fst =
        (firstsBy NativeMethod.name (methodsOf members)).flatMap (fun first =>
          (construct name superName members).added.filter (·.name = first.name)) ∧
      (∀ listed ∈ (construct name superName members).summary.methods,
        listed.2 = true ↔ ∃ other ∈ (construct name superName members).summary.methods,
          other.1.name = listed.1.name ∧ other.1.types ≠ listed.1.types) ∧
      (∀ group ∈ (construct name superName members).summary.groups, group.methods ≠ []) ∧
      ((construct name superName members).summary.isEmpty = true ↔
        (construct name superName members).added = [] ∧
          (construct name superName members).summary.constants = []) := by
  have hgrouped := grouped_construct name superName members
  have hgroups := groups_construct name superName members
  have hadded := added_construct name superName members
  refine ⟨?_, ?_, fun listed hlisted => isOverloaded_iff hgrouped hlisted,
    fun group hgroup => (hgrouped.coherent group hgroup).nonempty, ?_⟩
  · rintro before method after -
    rw [isAdded_construct, decide_eq_true_iff]
    simp [signature]
  · rw [map_fst_methods, hgroups, hadded, groupsOf, List.flatMap_map]
    rfl
  · -- There is a group for each name, so there is none exactly if no method came up.
    have hnone (calls : List NativeMethod) : groupsOf calls = [] ↔ firstsBy signature calls = [] := by
      cases calls <;> simp [groupsOf, firstsBy]
    rw [isEmpty, Bool.and_eq_true, List.isEmpty_iff, List.isEmpty_iff, hgroups, hadded, hnone]

end ClassSummary

end NativeHeaders
