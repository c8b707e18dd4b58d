import Mathlib.Data.List.TakeWhile
import NativeHeaders.Text.Segments

/-! # Laws of cutting at a separator

The pieces of two lists with a separator between them are the pieces of both, and a list without
separator is its own only piece. -/

namespace NativeHeaders.Text

variable {α : Type}

/-- An item in front of the first piece stays there when pieces follow. -/
theorem consToHead_append (a : α) {front : List (List α)} (h : front ≠ []) (back : List (List α)) :
    consToHead a (front ++ back) = consToHead a front ++ back := by
  cases front with
  | nil => exact absurd rfl h
  | cons piece front => rfl

/-- What stands in front of the first item that does not pass a test. -/
theorem takeWhile_append_cons {p : α → Bool} {front back : List α} {a : α}
    (hfront : ∀ item ∈ front, p item = true) (ha : p a = false) :
    (front ++ a :: back).takeWhile p = front := by
  rw [List.takeWhile_append_of_pos hfront, List.takeWhile_cons_of_neg (by simp [ha]),
    List.append_nil]

/-- The items that pass a test are dropped up to the first one that does not. -/
theorem dropWhile_append_cons {p : α → Bool} {front back : List α} {a : α}
    (hfront : ∀ item ∈ front, p item = true) (ha : p a = false) :
    (front ++ a :: back).dropWhile p = a :: back := by
  rw [List.dropWhile_append_of_pos hfront, List.dropWhile_cons_of_neg (by simp [ha])]

variable [DecidableEq α]

/-- A separator cuts a list into the pieces before it and those behind it. -/
theorem segments_append_cons (separator : α) (before after : List α) :
    segments separator (before ++ separator :: after) =
      segments separator before ++ segments separator after := by
  induction before with
  | nil => rw [List.nil_append, segments_cons, if_pos rfl, segments_nil, List.singleton_append]
  | cons a before ih =>
    rw [List.cons_append, segments_cons, segments_cons, ih]
    -- The item is a separator as well, or it joins the first piece.
    split
    · rfl
    · exact consToHead_append a (segments_ne_nil _ _) _

/-- Without separators there is one segment. -/
theorem segments_of_notMem {separator : α} {items : List α} (h : separator ∉ items) :
    segments separator items = [items] := by
  induction items with
  | nil => rfl
  | cons a items ih =>
    rw [List.mem_cons, not_or] at h
    rw [segments_cons, if_neg (Ne.symm h.1), ih h.2]
    rfl

/-- Every item is a separator or in a piece. -/
theorem mem_segments (separator : α) {item : α} {items : List α} (h : item ∈ items) :
    item = separator ∨ ∃ piece ∈ segments separator items, item ∈ piece := by
  induction items with
  | nil => cases h
  | cons a items ih =>
    obtain ⟨first, rest, hpieces⟩ := List.exists_cons_of_ne_nil (segments_ne_nil separator items)
    simp only [hpieces, List.mem_cons, exists_eq_or_imp] at ih
    rw [segments_cons, hpieces]
    by_cases ha : a = separator
    · simp only [if_pos ha, List.mem_cons, exists_eq_or_imp]
      obtain rfl | hitem := List.mem_cons.mp h
      · exact .inl ha
      · exact (ih hitem).imp_right .inr
    · simp only [if_neg ha, consToHead, List.mem_cons, exists_eq_or_imp]
      obtain rfl | hitem := List.mem_cons.mp h
      · exact .inr (.inl (.inl rfl))
      · exact (ih hitem).imp_right (Or.imp_left .inr)

/-- The items of the pieces are items of the list. -/
theorem mem_of_mem_segments {separator item : α} {items piece : List α}
    (hpiece : piece ∈ segments separator items) (hitem : item ∈ piece) : item ∈ items := by
  have hjoined : ∀ pieces : List (List α), piece ∈ pieces → item ∈ joined separator pieces := by
    intro pieces hmem
    induction pieces with
    | nil => cases hmem
    | cons first pieces ih =>
      by_cases hlast : pieces = []
      · subst hlast
        obtain rfl := List.mem_singleton.mp hmem
        rwa [joined_singleton]
      · rw [joined_cons separator first hlast]
        obtain rfl | hmem := List.mem_cons.mp hmem
        · exact List.mem_append_left _ hitem
        · exact List.mem_append_right _ (List.mem_cons_of_mem _ (ih hmem))
  rw [← joined_segments separator items]
  exact hjoined _ hpiece

/-- Pieces without the separator in them are found again between the separators. -/
theorem segments_joined {separator : α} {pieces : List (List α)} (hne : pieces ≠ [])
    (h : ∀ piece ∈ pieces, separator ∉ piece) :
    segments separator (joined separator pieces) = pieces := by
  induction pieces with
  | nil => exact absurd rfl hne
  | cons piece pieces ih =>
    rw [List.forall_mem_cons] at h
    by_cases hlast : pieces = []
    · rw [hlast, joined_singleton, segments_of_notMem h.1]
    · rw [joined_cons separator piece hlast, segments_append_cons, segments_of_notMem h.1,
        ih hlast h.2, List.singleton_append]

/-- With one separator written as another one, the same pieces stand between the separators. -/
theorem segments_map_ite {old new : α} {items : List α} (h : new ∉ items) :
    segments new (items.map fun a => if a = old then new else a) = segments old items := by
  induction items with
  | nil => rfl
  | cons a items ih =>
    rw [List.mem_cons, not_or] at h
    rw [List.map_cons, segments_cons, segments_cons, ih h.2]
    by_cases ha : a = old
    · simp [ha]
    · simp [ha, Ne.symm h.1]

/-- A list is determined by its pieces. -/
theorem segments_inj (separator : α) {first second : List α} :
    segments separator first = segments separator second ↔ first = second := by
  constructor
  · intro h
    rw [← joined_segments separator first, h, joined_segments]
  · intro h
    rw [h]

/-- What stands behind the last separator belongs to the last piece. -/
theorem segments_append_of_notMem {separator : α} {back : List α} (h : separator ∉ back)
    (items : List α) :
    ∃ front last, segments separator items = front ++ [last] ∧
      segments separator (items ++ back) = front ++ [last ++ back] := by
  induction items with
  | nil => exact ⟨[], [], rfl, by simpa using segments_of_notMem h⟩
  | cons a items ih =>
    obtain ⟨front, last, hitems, hboth⟩ := ih
    rw [List.cons_append, segments_cons, segments_cons, hitems, hboth]
    split
    · exact ⟨[] :: front, last, rfl, rfl⟩
    · -- The item joins the first piece, which may be the last one as well.
      cases front with
      | nil => exact ⟨[], a :: last, rfl, rfl⟩
      | cons piece front => exact ⟨(a :: piece) :: front, last, rfl, rfl⟩

omit [DecidableEq α] in
/-- The last piece ends the list. -/
theorem suffix_joined (separator : α) (front : List (List α)) (last : List α) :
    last <:+ joined separator (front ++ [last]) := by
  induction front with
  | nil => simp
  | cons piece front ih =>
    rw [List.cons_append, joined_cons separator piece (by simp)]
    exact ih.trans ((List.suffix_cons separator _).trans (List.suffix_append piece _))

/-! ### Cutting once -/

/-- Nothing is cut exactly if the separator does not occur. -/
theorem cutFirst_eq_none_iff {separator : α} {items : List α} :
    cutFirst separator items = none ↔ separator ∉ items := by
  unfold cutFirst
  split
  · next hdrop =>
    rw [List.dropWhile_eq_nil_iff] at hdrop
    simp only [true_iff]
    intro hmem
    simpa using hdrop separator hmem
  · next hdrop =>
    simp only [reduceCtorEq, false_iff, Classical.not_not]
    -- What stops the search is the separator.
    have hhead := List.head?_dropWhile_not (fun a => decide (a ≠ separator)) items
    rw [hdrop] at hhead
    obtain rfl : _ = separator := by simpa using hhead
    exact (List.dropWhile_sublist _).subset (hdrop ▸ List.mem_cons_self)

/-- The first separator is the one that is cut. -/
theorem cutFirst_eq_some_iff {separator : α} {items before after : List α} :
    cutFirst separator items = some (before, after) ↔
      items = before ++ separator :: after ∧ separator ∉ before := by
  constructor
  · intro h
    unfold cutFirst at h
    split at h
    · cases h
    · next first rest hdrop =>
      cases h
      have hhead := List.head?_dropWhile_not (fun a => decide (a ≠ separator)) items
      rw [hdrop] at hhead
      obtain rfl : first = separator := by simpa using hhead
      refine ⟨?_, fun hmem => ?_⟩
      · rw [← hdrop, List.takeWhile_append_dropWhile]
      · simpa using List.mem_takeWhile_imp hmem
  · rintro ⟨rfl, hbefore⟩
    have hpass : ∀ a ∈ before, decide (a ≠ separator) = true := by
      intro a ha
      exact decide_eq_true fun heq => hbefore (heq ▸ ha)
    rw [cutFirst, dropWhile_append_cons hpass (by simp), takeWhile_append_cons hpass (by simp)]

/-! ### Pieces of texts -/

variable {separator : Char}

/-- A text is not cut exactly if the separator does not occur in it. -/
theorem cutText_eq_none_iff {text : String} :
    cutText separator text = none ↔ separator ∉ text.toList := by
  rw [cutText, Option.map_eq_none_iff, cutFirst_eq_none_iff]

/-- A text is cut at the first separator. -/
theorem cutText_eq_some_iff {text before after : String} :
    cutText separator text = some (before, after) ↔
      text = before ++ String.singleton separator ++ after ∧ separator ∉ before.toList := by
  have hcut : cutText separator text = some (before, after) ↔
      cutFirst separator text.toList = some (before.toList, after.toList) := by
    rw [cutText, Option.map_eq_some_iff]
    constructor
    · rintro ⟨⟨front, back⟩, hcut, heq⟩
      obtain ⟨rfl, rfl⟩ := Prod.mk.inj heq
      simpa using hcut
    · intro hcut
      exact ⟨_, hcut, by simp⟩
  rw [hcut, cutFirst_eq_some_iff, ← String.toList_inj]
  simp

/-- There is always a piece, if only an empty one. -/
theorem pieces_ne_nil (separator : Char) (text : String) : pieces separator text ≠ [] := by
  simp [pieces, segments_ne_nil]

/-- Without separators there is one piece. -/
theorem pieces_of_notMem {text : String} (h : separator ∉ text.toList) :
    pieces separator text = [text] := by
  simp [pieces, segments_of_notMem h]

/-- A slash between two names separates their parts. -/
theorem pieces_append_slash (front back : String) :
    pieces '/' (front ++ "/" ++ back) = pieces '/' front ++ pieces '/' back := by
  simp [pieces, segments_append_cons]

/-- Joining the pieces gives the text back. -/
theorem intercalate_pieces (separator : Char) (text : String) :
    (String.singleton separator).intercalate (pieces separator text) = text := by
  apply String.toList_inj.mp
  rw [String.toList_intercalate, String.toList_singleton, pieces, List.map_map]
  simpa [Function.comp_def, joined] using joined_segments separator text.toList

/-- Texts without the separator in them are found again between the separators. -/
theorem pieces_intercalate {texts : List String} (hne : texts ≠ [])
    (h : ∀ text ∈ texts, separator ∉ text.toList) :
    pieces separator ((String.singleton separator).intercalate texts) = texts := by
  have hsegments : segments separator (joined separator (texts.map String.toList)) =
      texts.map String.toList :=
    segments_joined (by simpa using hne) (by simpa using h)
  rw [pieces, String.toList_intercalate, String.toList_singleton, ← joined, hsegments,
    List.map_map]
  simp [Function.comp_def]

/-- Every character is a separator or in a piece. -/
theorem mem_pieces (separator : Char) {text : String} {c : Char} (h : c ∈ text.toList) :
    c = separator ∨ ∃ piece ∈ pieces separator text, c ∈ piece.toList := by
  obtain hc | ⟨piece, hpiece, hc⟩ := mem_segments separator h
  · exact .inl hc
  · exact .inr ⟨String.ofList piece, List.mem_map_of_mem hpiece, by simpa using hc⟩

/-- The last piece ends the text. -/
theorem suffix_of_pieces {text last : String} {front : List String}
    (h : pieces separator text = front ++ [last]) : last.toList <:+ text.toList := by
  have hsegments : segments separator text.toList = front.map String.toList ++ [last.toList] := by
    simpa [pieces, Function.comp_def] using congrArg (List.map String.toList) h
  rw [← joined_segments separator text.toList, hsegments]
  exact suffix_joined separator _ _

/-- Writing one separator as another one keeps the pieces. -/
theorem substituted_eq_intercalate {old new : Char} {text : String} (h : new ∉ text.toList) :
    substituted old new text = (String.singleton new).intercalate (pieces old text) := by
  rw [← intercalate_pieces new (substituted old new text), pieces, substituted,
    String.toList_ofList, segments_map_ite h, pieces]

/-- A text is determined by its pieces. -/
theorem pieces_inj {first second : String} :
    pieces separator first = pieces separator second ↔ first = second := by
  rw [pieces, pieces, List.map_inj_right fun _ _ => String.ofList_inj.mp, segments_inj,
    String.toList_inj]

end NativeHeaders.Text
