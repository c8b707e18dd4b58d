import NativeHeaders.Proofs.Generator.Throwables

/-! # Throwable classes on longer search paths

A root behind all others is asked only for classes that no other root holds (`resolve_append`). So
the superclasses found without it are found with it, and throwable classes stay throwable. The first
root of all is different: without roots some classes are taken for throwable without a look at their
superclasses, and they stay throwable exactly if the class files of this root say so
(`isThrowable_append_iff`). -/

namespace NativeHeaders

namespace SearchPath

/-- Roots behind others are asked only for what these do not hold. -/
theorem resolve_append (roots more : List Root) (files : FileSystem) (name : ClassName) :
    resolve { roots := roots ++ more } files name =
      match resolve { roots } files name with
      | .ok none => resolve { roots := more } files name
      | found => found := by
  induction roots with
  | nil => rfl
  | cons root roots ih =>
    rw [List.cons_append, resolve_cons, resolve_cons, ih]
    cases root.find files name with
    | error cause => rfl
    | ok found => cases found <;> rfl

/-- A superclass that is found stays the superclass when roots are added behind the others. -/
theorem Extends.append {roots : List Root} {files : FileSystem} {className superName : String}
    (h : SearchPath.Extends { roots } files className superName) (more : List Root) :
    SearchPath.Extends { roots := roots ++ more } files className superName := by
  obtain ⟨name, source, summary, hname, hresolve, hread, hsuper⟩ := h
  refine ⟨name, source, summary, hname, ?_, hread, hsuper⟩
  rw [resolve_append, hresolve]

end SearchPath

namespace Generator

/-- With a root, a fresh generator goes by the superclasses. -/
theorem isThrowable_ofSearchPath_iff {path : SearchPath} (hroots : path.roots ≠ [])
    (files : FileSystem) (className : String) :
    ((ofSearchPath path).isThrowable files className).1 = true ↔
      Relation.ReflTransGen (path.Extends files) className Hierarchy.throwableRoot :=
  (knowsPlain_ofSearchPath path files).isThrowable_iff hroots className

/-- **Throwable classes on a longer search path.** A class that is throwable for a fresh generator
stays throwable for one with a further root behind the others. Only if there was no root is this not
certain: then it stays throwable exactly if its superclasses, as the further root has them, lead to
the root of the throwable classes. -/
theorem isThrowable_append_iff (files : FileSystem) (roots : List Root) (root : Root)
    (className : String) (h : ((ofSearchPath { roots }).isThrowable files className).1 = true) :
    ((ofSearchPath { roots := roots ++ [root] }).isThrowable files className).1 = true ↔
      (roots = [] → Relation.ReflTransGen (SearchPath.Extends { roots := [root] } files) className
        Hierarchy.throwableRoot) := by
  rw [isThrowable_ofSearchPath_iff (by simp)]
  constructor
  · rintro hreaches rfl
    exact hreaches
  · intro hfirst
    by_cases hroots : roots = []
    · subst hroots
      exact hfirst rfl
    · have hreaches := (isThrowable_ofSearchPath_iff hroots files className).mp h
      exact Relation.ReflTransGen.mono (fun _ _ hextends => hextends.append [root]) _ _ hreaches

/-- Two directories: in the first one `E` is throwable, and in the second one it extends itself. -/
def rivalClasses : FileSystem where
  nodes := [(["first"], .directory),
    (["first", "E.class"],
      .file ⟨(linkClassFile "E" "java/lang/Throwable").encode.toArray⟩ false),
    (["second"], .directory),
    (["second", "E.class"], .file ⟨(linkClassFile "E" "E").encode.toArray⟩ false)]
  workingDirectory := []

/-- The root for the directory with the given name. -/
def rivalRoot (name : String) : Root :=
  .classes { path := ⟨name⟩, storage := .directory, releases := [] }

/-- The second directory does not take away what the first one gives. -/
theorem isThrowable_rivalClasses :
    SearchPath.ofEntries rivalClasses [] [.classes ⟨"first"⟩, .classes ⟨"second"⟩] =
        .ok { roots := [rivalRoot "first"] ++ [rivalRoot "second"] } ∧
      ((ofSearchPath { roots := [rivalRoot "first"] }).isThrowable rivalClasses "E").1 = true ∧
      ((ofSearchPath { roots := [rivalRoot "second"] }).isThrowable rivalClasses "E").1 = false ∧
      ((ofSearchPath { roots := [rivalRoot "first"] ++ [rivalRoot "second"] }).isThrowable
        rivalClasses "E").1 = true := by
  have hfirst :
      ((ofSearchPath { roots := [rivalRoot "first"] }).isThrowable rivalClasses "E").1 = true := by
    decide +kernel
  refine ⟨rfl, hfirst, by decide +kernel, ?_⟩
  exact (isThrowable_append_iff rivalClasses [rivalRoot "first"] (rivalRoot "second") "E" hfirst).mpr
    (by simp)

/-- Without roots, `java/lang/Error` is throwable; with a directory that does not hold it, it is not.
-/
theorem exists_isThrowable_lost :
    SearchPath.ofEntries rivalClasses [] [] = .ok { roots := [] } ∧
      SearchPath.ofEntries rivalClasses [] [.classes ⟨"first"⟩] =
        .ok { roots := [] ++ [rivalRoot "first"] } ∧
      ((ofSearchPath { roots := [] }).isThrowable rivalClasses "java/lang/Error").1 = true ∧
      ((ofSearchPath { roots := [] ++ [rivalRoot "first"] }).isThrowable rivalClasses
        "java/lang/Error").1 = false :=
  ⟨rfl, rfl, by decide +kernel, by decide +kernel⟩

end Generator

end NativeHeaders
