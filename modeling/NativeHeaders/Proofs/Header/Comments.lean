import NativeHeaders.Proofs.ClassFile.Acceptance
import NativeHeaders.Proofs.Header.Guards
import NativeHeaders.Proofs.Symbol.Uniqueness

/-! # Comments of a block

The block of a class holds a comment with its guard, and one for each native method with the names
of the class and of the method and with the descriptor. Guards and names hold no slash, so that a
comment can end too early only where the descriptor has an asterisk in front of a slash, or of a
dollar sign, which is shown as a slash (`renderBlock_comments_iff`). -/

namespace NativeHeaders

/-! ### Methods of a class file -/

namespace ClassFile

/-- A native method of a class file is one that may be declared. -/
theorem Format.NativeEntry.declarable {entries : List Format.Entry} {member : Format.Member}
    {method : NativeMethod} (h : Format.NativeEntry entries member (some method)) :
    method.Declarable := by
  cases h with
  | native _ _ hmethod hhead _ htypes => exact ⟨hmethod, hhead, _, htypes⟩

/-- The native methods of a class that is read are methods that may be declared. -/
theorem declarable_of_read {bytes : List UInt8} {summary : ClassSummary} {method : NativeMethod}
    {isOverloaded : Bool} (h : read bytes = .ok summary)
    (hmem : (method, isOverloaded) ∈ summary.methods) : method.Declarable := by
  obtain ⟨file, -, -, -, hextracts⟩ := exists_file_of_read h
  obtain @⟨name, superName, constants, methods, -, -, -, hnatives⟩ := hextracts
  have hdeclarable : ∀ result ∈ methods, ∀ method, result = some method → method.Declarable := by
    refine Fallible.forall_mem_right hnatives ?_
    rintro member _ hnative method rfl
    exact hnative.declarable
  -- Every listed method was added, and what was added are the native methods of the file.
  have hadded := ClassSummary.mem_of_mem_methods_withMembers rfl hmem
  obtain ⟨result, hresult, hsome⟩ := List.mem_filterMap.1 hadded
  exact hdeclarable result hresult method hsome

end ClassFile

namespace Header

/-! ### The end of a comment -/

/-- No asterisk stands directly before a slash. -/
def NoEnd (chars : List Char) : Prop :=
  List.IsChain (fun before after => before = '*' → after ≠ '/') chars

/-- The text ends with the end of a comment, which stands nowhere else in it. -/
def ClosesOnce (comment : String) : Prop :=
  ∃ front, comment.toList = front ++ ['*', '/'] ∧ ¬['*', '/'] <:+: front ++ ['*']

variable {chars front back : List Char}

/-- No comment ends within the characters exactly if the two characters of an end do not follow each
other. -/
theorem noEnd_iff : NoEnd chars ↔ ¬['*', '/'] <:+: chars := by
  rw [NoEnd, List.isChain_iff_forall_rel_of_append_cons_cons]
  constructor
  · rintro h ⟨before, after, hchars⟩
    have hsplit : chars = before ++ '*' :: '/' :: after := by simp [← hchars]
    exact h hsplit rfl rfl
  · rintro h star slash before after hsplit rfl rfl
    exact h ⟨before, after, by simp [hsplit]⟩

/-- Without slashes no comment ends. -/
theorem noEnd_of_notMem (h : '/' ∉ chars) : NoEnd chars := by
  rw [noEnd_iff]
  exact fun hend => h (hend.subset (by simp))

/-- Texts are put together without an end of a comment if none comes about at the seam. -/
theorem noEnd_append (h : front.getLast? ≠ some '*' ∨ back.head? ≠ some '/') :
    NoEnd (front ++ back) ↔ NoEnd front ∧ NoEnd back := by
  rw [NoEnd, List.isChain_append, ← and_assoc]
  refine and_iff_left fun before hbefore after hafter hstar hslash => ?_
  rw [hstar] at hbefore
  rw [hslash] at hafter
  exact h.elim (· hbefore) (· hafter)

/-- A comment that ends in the two characters ends only there, if nothing in front of them ends it.
-/
theorem closesOnce_append_iff {text : String} (h : text.toList = front ++ ['*', '/']) :
    ClosesOnce text ↔ NoEnd (front ++ ['*']) := by
  rw [noEnd_iff]
  constructor
  · rintro ⟨other, hother, hend⟩
    obtain ⟨rfl, -⟩ := List.append_inj' (h.symm.trans hother) rfl
    exact hend
  · exact fun hend => ⟨front, h, hend⟩

/-! ### Names in comments -/

/-- The name of a guard has no slash. -/
theorem slash_notMem_guardName (className : String) : '/' ∉ (guardName className).toList := by
  rw [guardName_eq, String.toList_ofList]
  intro hmem
  exact absurd (Symbol.isAlphanum_or_eq_of_mem_escapeChars hmem) (by decide)

/-- The readable name of a class has no slash. -/
theorem slash_notMem_readableName (className : String) :
    '/' ∉ (readableName className).toList := by
  rw [readableName, String.toList_ofList, List.mem_map]
  rintro ⟨c, -, hc⟩
  split at hc
  · cases hc
  · next hkept =>
    rw [hc] at hkept
    exact absurd hkept (by decide)

/-- In the descriptor no asterisk stands directly before a slash or a dollar sign. -/
def SignatureSafe (types : MethodDescriptor) : Prop :=
  List.IsChain (fun before after => before = '*' → after ≠ '/' ∧ after ≠ '$')
    types.descriptor.toList

/-- A descriptor is shown without an end of a comment exactly if none comes about with slashes for
its dollar signs. -/
theorem noEnd_shown_iff {types : MethodDescriptor} :
    NoEnd (Text.substituted '$' '/' types.descriptor).toList ↔ SignatureSafe types := by
  rw [Text.substituted, String.toList_ofList, NoEnd, List.isChain_map, SignatureSafe]
  have hseam (before after : Char) :
      ((if before = '$' then '/' else before) = '*' → (if after = '$' then '/' else after) ≠ '/') ↔
        (before = '*' → after ≠ '/' ∧ after ≠ '$') := by
    split_ifs <;> simp_all
  exact List.IsChain.iff hseam

/-! ### The comments -/

/-- A label that joins texts without an end of a comment at either side. -/
structure IsLabel (label : List Char) : Prop where
  /-- The label does not start with a slash. -/
  head_ne : label.head? ≠ some '/'
  /-- The label does not end with an asterisk. -/
  getLast_ne : label.getLast? ≠ some '*'
  /-- The label has characters. -/
  ne_nil : label ≠ []
  /-- The label holds no end of a comment. -/
  noEnd : ¬['*', '/'] <:+: label

/-- No end of a comment stands in a label or reaches over its ends. -/
theorem noEnd_append_label {label : List Char} (h : IsLabel label) (front back : List Char) :
    NoEnd (front ++ (label ++ back)) ↔ NoEnd front ∧ NoEnd back := by
  have hhead : (label ++ back).head? ≠ some '/' := by
    rw [List.head?_append_of_ne_nil _ h.ne_nil]
    exact h.head_ne
  rw [noEnd_append (.inr hhead), noEnd_append (.inl h.getLast_ne)]
  simp [noEnd_iff.2 h.noEnd]

/-- The comment in front of the block of a class. -/
def blockComment (className : String) : String :=
  "/* Header for class " ++ guardName className ++ " */"

/-- The comment above a prototype. -/
def signatureComment (className : String) (method : NativeMethod) : String :=
  "/*\n" ++
    " * Class:     " ++ readableName className ++ "\n" ++
    " * Method:    " ++ method.name ++ "\n" ++
    " * Signature: " ++ Text.substituted '$' '/' method.types.descriptor ++ "\n" ++
    " */"

/-- The comments of the block of a class in order. -/
def comments (summary : ClassSummary) : List String :=
  blockComment summary.name ::
    summary.methods.map fun entry => signatureComment summary.name entry.1

/-- The comment in front of a block ends where it should, whatever the class is called. -/
theorem closesOnce_blockComment (className : String) : ClosesOnce (blockComment className) := by
  have htext : (blockComment className).toList =
      ("/* Header for class ".toList ++ ((guardName className).toList ++ [' '])) ++
        ['*', '/'] := by
    unfold blockComment
    simp
  have hopen : NoEnd "/* Header for class ".toList := noEnd_iff.2 (by decide +kernel)
  have hseam : "/* Header for class ".toList.getLast? ≠ some '*' := by decide +kernel
  have hguard : NoEnd ((guardName className).toList ++ [' ', '*']) :=
    (noEnd_append (.inr (by simp))).2
      ⟨noEnd_of_notMem (slash_notMem_guardName className), noEnd_of_notMem (by simp)⟩
  rw [closesOnce_append_iff htext, List.append_assoc, List.append_assoc]
  exact (noEnd_append (.inl hseam)).2 ⟨hopen, hguard⟩

/-- The comment above a prototype ends where it should exactly if the descriptor lets it. -/
theorem closesOnce_signatureComment {className : String} {method : NativeMethod}
    (hname : '/' ∉ method.name.toList) :
    ClosesOnce (signatureComment className method) ↔ SignatureSafe method.types := by
  have htext : (signatureComment className method).toList =
      ("/*\n * Class:     ".toList ++ ((readableName className).toList ++
        ("\n * Method:    ".toList ++ (method.name.toList ++ ("\n * Signature: ".toList ++
          ((Text.substituted '$' '/' method.types.descriptor).toList ++ ['\n', ' '])))))) ++
        ['*', '/'] := by
    unfold signatureComment
    simp
  have hmethod : IsLabel "\n * Method:    ".toList := by constructor <;> decide +kernel
  have hsignature : IsLabel "\n * Signature: ".toList := by constructor <;> decide +kernel
  have hopen : NoEnd "/*\n * Class:     ".toList := noEnd_iff.2 (by decide +kernel)
  have hseam : "/*\n * Class:     ".toList.getLast? ≠ some '*' := by decide +kernel
  have hclose (shown : List Char) : NoEnd (shown ++ ['\n', ' ', '*']) ↔ NoEnd shown := by
    rw [noEnd_append (.inr (by simp))]
    exact and_iff_left (noEnd_of_notMem (by simp))
  have hclass := noEnd_of_notMem (slash_notMem_readableName className)
  rw [closesOnce_append_iff htext, ← noEnd_shown_iff]
  simp only [List.append_assoc, List.cons_append, List.nil_append]
  rw [noEnd_append (.inl hseam), noEnd_append_label hmethod, noEnd_append_label hsignature, hclose]
  simp only [hopen, hclass, noEnd_of_notMem hname, true_and]

/-! ### The text of a block -/

/-- A block opens with its comment. -/
theorem exists_opening_eq (className : String) :
    ∃ code, opening className = blockComment className ++ code := by
  have hend : " */\n\n" = " */" ++ "\n\n" := by decide +kernel
  unfold opening blockComment
  simp only [hend, String.append_assoc, -String.reduceAppend]
  exact ⟨_, rfl⟩

/-- The lines of a prototype begin with the comment on its signature. -/
theorem exists_prototypeLines_eq (className : String) :
    ∃ code : Prototype → String, ∀ prototype,
      prototypeLines className prototype =
        signatureComment className prototype.method ++ code prototype := by
  have hend : " */\n" = " */" ++ "\n" := by decide +kernel
  unfold prototypeLines methodComment signatureComment
  simp only [hend, String.append_assoc, -String.reduceAppend]
  exact ⟨_, fun _ => rfl⟩

variable {σ : Type}

/-- There is a prototype for each method, in their order. -/
theorem map_method_ofMethods (hierarchy : Hierarchy σ) (entries : List (NativeMethod × Bool))
    (state : σ) :
    (Prototype.ofMethods hierarchy entries state).1.map (·.method) = entries.map (·.1) := by
  induction entries generalizing state with
  | nil => rfl
  | cons entry entries ih =>
    unfold Prototype.ofMethods
    exact congrArg (entry.1 :: ·) (ih _)

/-- A block consists of its comments, code behind each of them, and the closing. -/
theorem renderBlock_eq (hierarchy : Hierarchy σ) (summary : ClassSummary) (state : σ) :
    ∃ code : List String, code.length = (comments summary).length ∧
      (renderBlock hierarchy summary state).1 =
        String.join (List.zipWith (· ++ ·) (comments summary) code) ++ closing := by
  obtain ⟨first, hfirst⟩ := exists_opening_eq summary.name
  obtain ⟨behind, hbehind⟩ := exists_prototypeLines_eq summary.name
  have hmethods := map_method_ofMethods hierarchy summary.methods state
  unfold renderBlock block
  dsimp only
  generalize (Prototype.ofMethods hierarchy summary.methods state).1 = prototypes at hmethods ⊢
  have hcomments : comments summary = blockComment summary.name ::
      prototypes.map fun prototype => signatureComment summary.name prototype.method := by
    have hmap := congrArg (List.map (signatureComment summary.name)) hmethods
    rw [List.map_map, List.map_map] at hmap
    exact congrArg (blockComment summary.name :: ·) hmap.symm
  refine ⟨(first ++ String.join (summary.constants.map (constantLines summary.name))) ::
    prototypes.map behind, by simp [hcomments], ?_⟩
  rw [hcomments, List.zipWith_cons_cons, List.zipWith_map, List.zipWith_self, String.join_cons,
    hfirst, funext hbehind]
  simp only [String.append_assoc]

/-- **Comments of a class.** Let a class file be read and its block be rendered for any hierarchy.
All comments of the block end where they should, and nowhere before, exactly if the descriptors of
the native methods have no asterisk directly before a slash or a dollar sign. -/
theorem renderBlock_comments_iff {bytes : List UInt8} {summary : ClassSummary}
    (h : ClassFile.read bytes = .ok summary) (hierarchy : Hierarchy σ) (state : σ) :
    (∃ code : List String, code.length = (comments summary).length ∧
      (renderBlock hierarchy summary state).1 =
        String.join (List.zipWith (· ++ ·) (comments summary) code) ++ closing) ∧
    ((∀ comment ∈ comments summary, ClosesOnce comment) ↔
      ∀ entry ∈ summary.methods, SignatureSafe entry.1.types) := by
  refine ⟨renderBlock_eq hierarchy summary state, ?_⟩
  have hmethod (entry : NativeMethod × Bool) (hentry : entry ∈ summary.methods) :
      ClosesOnce (signatureComment summary.name entry.1) ↔ SignatureSafe entry.1.types :=
    closesOnce_signatureComment
      (Symbol.slash_notMem_of_declarable (ClassFile.declarable_of_read h hentry)).2
  rw [comments, List.forall_mem_cons, List.forall_mem_map,
    and_iff_right (closesOnce_blockComment summary.name)]
  exact forall₂_congr hmethod

/-- A class with a native method of the given descriptor. -/
def nativeFile (descriptor : String) : ClassFile.Format.File where
  minor := 0
  major := 52
  poolCount := 5
  entries := [.utf8 "A".toUTF8.data.toList, .classRef 1, .utf8 "m".toUTF8.data.toList,
    .utf8 descriptor.toUTF8.data.toList]
  flags := 0
  thisIndex := 2
  superIndex := 0
  interfaces := []
  fields := []
  methods := [⟨0x100, 3, 4, []⟩]
  attributes := []

/-- What a header needs of it, where the only parameter is an object of the given class. -/
def nativeSummary (parameter : String) : ClassSummary :=
  ({ name := "A", superName := none } : ClassSummary).withMembers []
    [{ name := "m", types := ⟨[.object parameter], .void⟩, isStatic := false }]

/-- A lone asterisk ends no comment. -/
theorem comments_nativeFile :
    ClassFile.read (nativeFile "(Lx*;)V").encode = .ok (nativeSummary "x*") ∧
      ∀ comment ∈ comments (nativeSummary "x*"), ClosesOnce comment := by
  have hread : ClassFile.read (nativeFile "(Lx*;)V").encode = .ok (nativeSummary "x*") := by
    decide +kernel
  refine ⟨hread, (renderBlock_comments_iff hread Hierarchy.unresolved ()).2.2 ?_⟩
  intro entry hentry
  obtain rfl : entry =
      ({ name := "m", types := ⟨[.object "x*"], .void⟩, isStatic := false }, false) :=
    List.mem_singleton.1 hentry
  rw [SignatureSafe]
  decide +kernel

/-- A parameter whose class has the end of a comment in its name puts the rest of the descriptor
behind the comment. -/
theorem exists_comment_ends_early :
    ClassFile.read (nativeFile "(Lx*/y;)V").encode = .ok (nativeSummary "x*/y") ∧
      (renderBlock Hierarchy.unresolved (nativeSummary "x*/y") ()).1 =
        "/* Header for class A */\n\n#ifndef _Included_A\n#define _Included_A\n" ++
          "#ifdef __cplusplus\nextern \"C\" \x7b\n#endif\n" ++
          "/*\n * Class:     A\n * Method:    m\n * Signature: (Lx*/y;)V\n */\n" ++
          "JNIEXPORT void JNICALL Java_A_m (JNIEnv *, jobject, jobject);\n\n" ++
          "#ifdef __cplusplus\n\x7d\n#endif\n#endif\n" ∧
      ∃ comment ∈ comments (nativeSummary "x*/y"), ¬ClosesOnce comment := by
  refine ⟨by decide +kernel, by decide +kernel, _, List.mem_cons_of_mem _ List.mem_cons_self, ?_⟩
  rw [closesOnce_signatureComment (by decide +kernel), SignatureSafe]
  decide +kernel

end Header

end NativeHeaders
