/-! # Superclasses

Whether a class is a throwable one is decided by walking from superclass to superclass. A `Hierarchy` is
where the walk asks; asking may change the state of the one who answers. `Hierarchy.isThrowable` ends because
a walk sees no class twice and a hierarchy bounds how many classes can have a superclass. -/

namespace NativeHeaders

/-- A source of superclasses with state `σ`. -/
structure Hierarchy (σ : Type) where
  /-- Whether there is anything to look classes up in. -/
  canResolve : Bool
  /-- The superclass of a class, with the state after it was asked for. -/
  superclassOf : String → σ → Option String × σ
  /-- The most classes that can have a superclass. -/
  bound : Nat

namespace Hierarchy

variable {σ : Type}

/-- The class that all throwable classes extend. -/
def throwableRoot : String := "java/lang/Throwable"

/-- The classes taken for throwable when nothing can be looked up. -/
def wellKnownThrowables : List String :=
  ["java/lang/Throwable", "java/lang/Error", "java/lang/Exception", "java/lang/RuntimeException"]

/-- Whether the walk from `current` reaches the root of the throwable classes. A class that was `seen`
closes a cycle, and a class without superclass ends the walk. -/
def walk (hierarchy : Hierarchy σ) : Nat → List String → String → σ → Bool × σ
  | 0, _, _, state => (false, state)
  | steps + 1, seen, current, state =>
    if current = throwableRoot then (true, state)
    else if current ∈ seen then (false, state)
    else match hierarchy.superclassOf current state with
      | (none, state) => (false, state)
      | (some parent, state) => walk hierarchy steps (current :: seen) parent state

/-- Whether a class extends the root of the throwable classes. -/
def isThrowable (hierarchy : Hierarchy σ) (className : String) (state : σ) : Bool × σ :=
  if hierarchy.canResolve then walk hierarchy (hierarchy.bound + 2) [] className state
  else (wellKnownThrowables.contains className, state)

/-- The hierarchy in which nothing can be looked up. -/
def unresolved : Hierarchy σ where
  canResolve := false
  superclassOf _ state := (none, state)
  bound := 0

/-- The hierarchy of a table from class to superclass; its state lists the classes asked for, the latest
first. -/
def ofTable (table : List (String × String)) : Hierarchy (List String) where
  canResolve := true
  superclassOf className asked := (table.lookup className, className :: asked)
  bound := table.length

end Hierarchy

end NativeHeaders
