import Mathlib.Data.List.Basic
import NativeHeaders.Proofs.Text.Segments
import NativeHeaders.SearchPath.Manifest

/-! # Folded headers

A header of a manifest may be cut into pieces, each on a physical line of its own; all but the first
one stand behind a blank. However the headers of the main section are cut and whichever way each
line ends, the headers read are the ones that were written (`headers_mainLines_written`), so that
folding does not matter for whether there are versions for later releases. -/

namespace NativeHeaders.Manifest

/-! ### How a manifest is written -/

/-- How a physical line ends. -/
inductive LineEnd where
  /-- With a line feed. -/
  | lineFeed
  /-- With a carriage return and a line feed. -/
  | returnAndLineFeed
deriving DecidableEq, Repr

/-- The carriage returns in front of the line feed. -/
def LineEnd.returns : LineEnd → List Char
  | .lineFeed => []
  | .returnAndLineFeed => ['\r']

/-- The characters that end a line. -/
def LineEnd.text (lineEnd : LineEnd) : List Char := lineEnd.returns ++ ['\n']

/-- Neither a carriage return nor a line feed. -/
def IsInline (c : Char) : Prop := c ≠ '\r' ∧ c ≠ '\n'

/-- A header that can be written. -/
structure Header where
  /-- What stands in front of the colon. -/
  key : String
  /-- What stands behind it. -/
  value : String
  /-- The key has a character. -/
  key_ne_empty : key ≠ ""
  /-- A line that starts with the key does not start with a blank. -/
  head?_key_ne : key.toList.head? ≠ some ' '
  /-- The first colon is the one behind the key. -/
  colon_notMem_key : ':' ∉ key.toList
  /-- The key ends no line. -/
  isInline_key : ∀ c ∈ key.toList, IsInline c
  /-- The value ends no line. -/
  isInline_value : ∀ c ∈ value.toList, IsInline c

/-- The header on a single line. -/
def Header.line (header : Header) : List Char := header.key.toList ++ ':' :: header.value.toList

/-- A physical line. -/
structure Line where
  /-- What stands on it. -/
  chars : List Char
  /-- How it ends. -/
  lineEnd : LineEnd

/-- How a physical line is written. -/
def Line.text (line : Line) : List Char := line.chars ++ line.lineEnd.text

/-- The line behind a blank, so that it continues the one before it. -/
def Line.continuing (line : Line) : Line := { line with chars := ' ' :: line.chars }

/-- A header cut into pieces anywhere behind its first character. -/
structure FoldedHeader where
  /-- The header. -/
  header : Header
  /-- The first piece. -/
  first : Line
  /-- The other pieces. -/
  more : List Line
  /-- The first piece has a character. -/
  first_ne_nil : first.chars ≠ []
  /-- The pieces are the header. -/
  pieces_eq : first.chars ++ more.flatMap Line.chars = header.line

/-- The physical lines of a folded header. -/
def FoldedHeader.lines (folded : FoldedHeader) : List Line :=
  folded.first :: folded.more.map Line.continuing

/-- What may follow the main section: an empty line and any text. -/
def textBehind : Option (LineEnd × String) → List Char
  | none => []
  | some (lineEnd, text) => lineEnd.text ++ text.toList

/-- A manifest with the given headers in its main section. -/
def written (main : List FoldedHeader) (behind : Option (LineEnd × String)) : String :=
  String.ofList ((main.flatMap FoldedHeader.lines).flatMap Line.text ++ textBehind behind)

/-! ### Physical lines -/

/-- The returns of a line end are dropped, and nothing else if there are no other ones. -/
theorem withoutReturns_append {chars : List Char} (h : '\r' ∉ chars) (lineEnd : LineEnd) :
    withoutReturns (chars ++ lineEnd.returns) = chars := by
  have hkept : chars.reverse.dropWhile (· = '\r') = chars.reverse := by
    cases hreverse : chars.reverse with
    | nil => rfl
    | cons last front =>
      have hlast : last ≠ '\r' := by
        rintro rfl
        exact h (List.mem_reverse.1 (hreverse ▸ List.mem_cons_self))
      exact List.dropWhile_cons_of_neg (by simpa using hlast)
  cases lineEnd <;> simp [withoutReturns, LineEnd.returns, hkept]

/-- A line is cut off where it ends. -/
theorem mainLines_append {chars : List Char} (h : ∀ c ∈ chars, IsInline c) (lineEnd : LineEnd)
    (rest : List Char) :
    mainLines (String.ofList (chars ++ lineEnd.text ++ rest)) =
      if chars = [] then [] else chars :: mainLines (String.ofList rest) := by
  -- A carriage return in front of the line feed belongs to the line until it is taken off.
  have hreturn : '\r' ∉ chars := fun hmem => (h _ hmem).1 rfl
  have hfeed : '\n' ∉ chars ++ lineEnd.returns := by
    rw [List.mem_append, not_or]
    refine ⟨fun hmem => (h _ hmem).2 rfl, ?_⟩
    cases lineEnd <;> decide
  have hsplit : chars ++ lineEnd.text ++ rest = (chars ++ lineEnd.returns) ++ '\n' :: rest := by
    rw [LineEnd.text, ← List.append_assoc, List.append_assoc, List.singleton_append]
  rw [mainLines, mainLines, String.toList_ofList, String.toList_ofList, hsplit,
    Text.segments_append_cons, Text.segments_of_notMem hfeed, List.singleton_append, List.map_cons,
    withoutReturns_append hreturn]
  cases chars with
  | nil => rfl
  | cons c chars => rfl

/-- Nothing behind the main section is read. -/
theorem mainLines_textBehind (behind : Option (LineEnd × String)) :
    mainLines (String.ofList (textBehind behind)) = [] := by
  cases behind with
  | none => rfl
  | some behind =>
    obtain ⟨lineEnd, text⟩ := behind
    exact mainLines_append (List.forall_mem_nil IsInline) lineEnd text.toList

/-- A line that can stand in the main section. -/
structure Line.IsMain (line : Line) : Prop where
  /-- It is not empty. -/
  ne_nil : line.chars ≠ []
  /-- It is a single line. -/
  isInline : ∀ c ∈ line.chars, IsInline c

/-- The lines of the main section are read as they were written. -/
theorem mainLines_flatMap_text {lines : List Line} (h : ∀ line ∈ lines, line.IsMain)
    (rest : List Char) :
    mainLines (String.ofList (lines.flatMap Line.text ++ rest)) =
      lines.map Line.chars ++ mainLines (String.ofList rest) := by
  induction lines with
  | nil => rfl
  | cons line lines ih =>
    rw [List.forall_mem_cons] at h
    rw [List.flatMap_cons, List.append_assoc, Line.text, mainLines_append h.1.isInline,
      if_neg h.1.ne_nil, ih h.2, List.map_cons, List.cons_append]

/-- A header has no line end in it. -/
theorem Header.isInline_line (header : Header) : ∀ c ∈ header.line, IsInline c := by
  intro c hc
  rw [line, List.mem_append, List.mem_cons] at hc
  rcases hc with hkey | rfl | hvalue
  · exact header.isInline_key c hkey
  · exact ⟨by decide, by decide⟩
  · exact header.isInline_value c hvalue

/-- All lines of a folded header belong to the main section. -/
theorem FoldedHeader.isMain_of_mem (folded : FoldedHeader) :
    ∀ line ∈ folded.lines, line.IsMain := by
  have hinline : ∀ c ∈ folded.first.chars ++ folded.more.flatMap Line.chars, IsInline c := by
    rw [folded.pieces_eq]
    exact folded.header.isInline_line
  intro line hline
  rw [lines, List.mem_cons] at hline
  rcases hline with rfl | hline
  · exact ⟨folded.first_ne_nil, fun c hc => hinline c (List.mem_append_left _ hc)⟩
  · obtain ⟨piece, hpiece, rfl⟩ := List.mem_map.1 hline
    refine ⟨List.cons_ne_nil _ _, List.forall_mem_cons.2 ⟨⟨by decide, by decide⟩, fun c hc => ?_⟩⟩
    exact hinline c (List.mem_append_right _ (List.mem_flatMap.2 ⟨piece, hpiece, hc⟩))

/-! ### Headers -/

/-- The first of the lines, if there is one, continues no other. -/
def StartsHeader (lines : List (List Char)) : Prop :=
  ∀ line ∈ lines.head?, line.head? ≠ some ' '

/-- Where a header begins, no line continues the one before. -/
theorem continued_of_startsHeader {lines : List (List Char)} (h : StartsHeader lines) :
    continued lines = ([], headers lines) := by
  cases lines with
  | nil => rfl
  | cons line lines =>
    rw [continued, headers]
    rintro more rfl
    exact h _ rfl rfl

/-- Lines behind a blank are added to the line before them. -/
theorem continued_map_append (pieces lines : List (List Char)) :
    continued (pieces.map (' ' :: ·) ++ lines) =
      (pieces.flatten ++ (continued lines).1, (continued lines).2) := by
  induction pieces with
  | nil => rfl
  | cons piece pieces ih =>
    rw [List.map_cons, List.cons_append, continued, ih, List.flatten_cons, List.append_assoc]

/-- The pieces of a header are put together again. -/
theorem headers_lines_append (folded : FoldedHeader) {lines : List (List Char)}
    (h : StartsHeader lines) :
    headers (folded.lines.map Line.chars ++ lines) = folded.header.line :: headers lines := by
  have hmore : (folded.more.map Line.continuing).map Line.chars =
      (folded.more.map Line.chars).map (' ' :: ·) := by
    rw [List.map_map, List.map_map]
    rfl
  rw [FoldedHeader.lines, List.map_cons, hmore, List.cons_append, headers, continued_map_append,
    continued_of_startsHeader h, List.append_nil, ← List.flatMap_def, folded.pieces_eq]

/-- The lines of a folded header begin a header, whatever follows them. -/
theorem FoldedHeader.startsHeader (folded : FoldedHeader) (lines : List (List Char)) :
    StartsHeader (folded.lines.map Line.chars ++ lines) := by
  rintro line hline hblank
  obtain rfl : folded.first.chars = line := by simpa [FoldedHeader.lines] using hline
  have hkey : folded.header.line.head? = folded.header.key.toList.head? := by
    rw [Header.line, List.head?_append_of_ne_nil]
    simpa using folded.header.key_ne_empty
  rw [← folded.pieces_eq, List.head?_append_of_ne_nil _ folded.first_ne_nil, hblank] at hkey
  exact folded.header.head?_key_ne hkey.symm

/-- **The headers are read back from their folded lines.** -/
theorem headers_flatMap_lines (main : List FoldedHeader) :
    headers ((main.flatMap FoldedHeader.lines).map Line.chars) =
      main.map (·.header.line) := by
  induction main with
  | nil => rfl
  | cons folded main ih =>
    -- Nothing follows the header, or a first piece, which continues no other line.
    have hstarts : StartsHeader ((main.flatMap FoldedHeader.lines).map Line.chars) := by
      cases main with
      | nil => simp [StartsHeader]
      | cons next main =>
        rw [List.flatMap_cons, List.map_append]
        exact next.startsHeader _
    rw [List.flatMap_cons, List.map_append, headers_lines_append folded hstarts, ih, List.map_cons]

/-- The headers read are the ones that were written. -/
theorem headers_mainLines_written (main : List FoldedHeader)
    (behind : Option (LineEnd × String)) :
    headers (mainLines (written main behind)) = main.map (·.header.line) := by
  have hmain : ∀ line ∈ main.flatMap FoldedHeader.lines, line.IsMain := by
    intro line hline
    obtain ⟨folded, -, hline⟩ := List.mem_flatMap.1 hline
    exact folded.isMain_of_mem line hline
  rw [written, mainLines_flatMap_text hmain, mainLines_textBehind, List.append_nil,
    headers_flatMap_lines]

/-- A header says so with its key and its value. -/
theorem saysMultiRelease_line (header : Header) :
    saysMultiRelease header.line = true ↔
      Text.equalIgnoringCase (Text.trimmed header.key) multiReleaseKey = true ∧
        Text.equalIgnoringCase (Text.trimmed header.value) multiReleaseValue = true := by
  have hcut : Text.cutFirst ':' header.line = some (header.key.toList, header.value.toList) :=
    Text.cutFirst_eq_some_iff.2 ⟨rfl, header.colon_notMem_key⟩
  rw [saysMultiRelease, hcut, ← Bool.and_eq_true]
  rfl

/-- Whether there are versions for later releases does not depend on how the headers are folded, on
how their lines end and on what follows the main section: a header has to say so. -/
theorem isMultiRelease_written_iff (main : List FoldedHeader)
    (behind : Option (LineEnd × String)) :
    isMultiRelease (written main behind) = true ↔
      ∃ folded ∈ main,
        Text.equalIgnoringCase (Text.trimmed folded.header.key) "Multi-Release" = true ∧
          Text.equalIgnoringCase (Text.trimmed folded.header.value) "true" = true := by
  rw [isMultiRelease, headers_mainLines_written, List.any_map, List.any_eq_true]
  simp only [Function.comp_apply, saysMultiRelease_line]
  rfl

/-- A header cut inside of its key, in front of its colon and behind its value. -/
def cutHeader : FoldedHeader where
  header :=
    { key := "multi-release"
      value := " TRUE"
      key_ne_empty := by decide
      head?_key_ne := by decide
      colon_notMem_key := by decide
      isInline_key := by simp [IsInline]
      isInline_value := by simp [IsInline] }
  first := { chars := "multi-".toList, lineEnd := .returnAndLineFeed }
  more :=
    [{ chars := "release".toList, lineEnd := .lineFeed },
      { chars := ": TRUE".toList, lineEnd := .returnAndLineFeed },
      { chars := [], lineEnd := .lineFeed }]
  first_ne_nil := by decide
  pieces_eq := by decide

/-- The header counts however it is cut, and in whatever case it is written. -/
theorem isMultiRelease_cutHeader :
    written [cutHeader] (some (.lineFeed, "Name: A")) =
        "multi-\r\n release\n : TRUE\r\n \n\nName: A" ∧
      isMultiRelease (written [cutHeader] (some (.lineFeed, "Name: A"))) = true :=
  ⟨by decide, (isMultiRelease_written_iff _ _).2 ⟨cutHeader, List.mem_singleton_self _,
    by decide, by decide⟩⟩

end NativeHeaders.Manifest
