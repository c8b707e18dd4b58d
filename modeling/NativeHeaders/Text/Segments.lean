/-! # Lists cut at a separator

Names, paths and search lists are written as pieces joined by one separator. `segments` cuts at every
separator, `joined` puts the pieces together again, and `cutFirst` cuts once. Cutting loses nothing
(`joined_segments`) and no piece holds the separator (`not_mem_of_mem_segments`). -/

namespace NativeHeaders.Text

variable {α : Type}

/-- The pieces with `a` put in front of the first one. -/
def consToHead (a : α) : List (List α) → List (List α)
  | [] => [[a]]
  | piece :: pieces => (a :: piece) :: pieces

/-- The pieces in order with one separator between neighbours. -/
def joined (separator : α) (pieces : List (List α)) : List α :=
  [separator].intercalate pieces

/-- An item in front of the first piece leaves at least this piece. -/
theorem consToHead_ne_nil (a : α) (pieces : List (List α)) : consToHead a pieces ≠ [] := by
  cases pieces <;> simp [consToHead]

/-- One piece is joined without separators. -/
@[simp] theorem joined_singleton (separator : α) (piece : List α) :
    joined separator [piece] = piece := by
  simp [joined, List.intercalate, List.intersperse]

/-- A separator stands behind a piece that others follow. -/
theorem joined_cons (separator : α) (piece : List α) {pieces : List (List α)} (h : pieces ≠ []) :
    joined separator (piece :: pieces) = piece ++ separator :: joined separator pieces := by
  cases pieces with
  | nil => exact absurd rfl h
  | cons next pieces => simp [joined, List.intercalate, List.intersperse]

variable [DecidableEq α]

/-- The pieces between the separators, in order; a list without separator is its own only piece. -/
def segments (separator : α) (items : List α) : List (List α) :=
  items.foldr (fun a pieces => if a = separator then [] :: pieces else consToHead a pieces) [[]]

/-- What stands before and after the first separator, if there is one. -/
def cutFirst (separator : α) (items : List α) : Option (List α × List α) :=
  match items.dropWhile (· ≠ separator) with
  | [] => none
  | _ :: after => some (items.takeWhile (· ≠ separator), after)

/-- The items after `leading`, if the list starts with it. -/
def afterPrefix? (leading items : List α) : Option (List α) :=
  if leading.isPrefixOf items then some (items.drop leading.length) else none

/-- Nothing is one empty segment. -/
@[simp] theorem segments_nil (separator : α) : segments separator [] = [[]] := rfl

/-- The first item ends the first segment if it is the separator, and otherwise it is part of it. -/
theorem segments_cons (separator a : α) (items : List α) :
    segments separator (a :: items) =
      if a = separator then [] :: segments separator items
      else consToHead a (segments separator items) := rfl

/-- There is always a segment, if only an empty one. -/
theorem segments_ne_nil (separator : α) (items : List α) : segments separator items ≠ [] := by
  cases items with
  | nil => simp
  | cons a items =>
    rw [segments_cons]
    split
    · simp
    · exact consToHead_ne_nil _ _

/-- Joining the pieces gives the list back. -/
theorem joined_segments (separator : α) (items : List α) :
    joined separator (segments separator items) = items := by
  induction items with
  | nil => simp
  | cons a items ih =>
    rw [segments_cons]
    split
    · next h => rw [joined_cons _ _ (segments_ne_nil _ _), ih, h, List.nil_append]
    · cases hs : segments separator items with
      | nil => exact absurd hs (segments_ne_nil _ _)
      | cons piece pieces =>
        rw [hs] at ih
        cases pieces with
        | nil => simpa [consToHead] using ih
        | cons next pieces =>
          rw [joined_cons _ _ (by simp)] at ih
          rw [consToHead, joined_cons _ _ (by simp), List.cons_append, ih]

/-- No piece holds the separator. -/
theorem not_mem_of_mem_segments {separator : α} {items piece : List α}
    (h : piece ∈ segments separator items) : separator ∉ piece := by
  induction items generalizing piece with
  | nil => simp_all
  | cons a items ih =>
    rw [segments_cons] at h
    split at h
    · rcases List.mem_cons.1 h with rfl | h
      · simp
      · exact ih h
    · next hne =>
      cases hs : segments separator items with
      | nil => exact absurd hs (segments_ne_nil _ _)
      | cons first pieces =>
        rw [hs] at h ih
        rcases List.mem_cons.1 h with rfl | h
        · have : separator ∉ first := ih (by simp)
          simp [this, Ne.symm hne]
        · exact ih (List.mem_cons_of_mem _ h)

/-! ### Pieces of texts -/

/-- The pieces of a text between the separators. -/
def pieces (separator : Char) (text : String) : List String :=
  (segments separator text.toList).map String.ofList

/-- The text before and after the first separator, if there is one. -/
def cutText (separator : Char) (text : String) : Option (String × String) :=
  (cutFirst separator text.toList).map fun (before, after) =>
    (String.ofList before, String.ofList after)

/-- The text with every `old` written as `new`. -/
def substituted (old new : Char) (text : String) : String :=
  String.ofList (text.toList.map fun c => if c = old then new else c)

end NativeHeaders.Text
