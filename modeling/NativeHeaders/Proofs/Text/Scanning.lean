import NativeHeaders.Proofs.Scanner
import NativeHeaders.Text.ModifiedUtf8

/-! # Texts in class files, by position

`scan` reads the text of bytes by their places. It takes the first byte of each group out of the
bytes without a look at their number, and gives the text that `decode?` gives. -/

namespace NativeHeaders.Text.ModifiedUtf8

open Scanner

variable {ε : Type}

/-- The six bits of the byte at a place, if there is one that continues a group. -/
def continuationAt? (bytes : List UInt8) (place : Nat) : Option UInt16 :=
  bytes[place]?.bind continuation?

/-- Scans the groups of bytes from a place on, behind the code units that were found. -/
def scanUnits (bytes : List UInt8) (place : Nat) (units : List UInt16) :
    Scanner ε (Option (List UInt16)) := do
  if place < bytes.length then
    let first ← index bytes place
    if 0x01 ≤ first ∧ first ≤ 0x7F then
      scanUnits bytes (place + 1) (units ++ [first.toUInt16])
    else if 0xC0 ≤ first ∧ first ≤ 0xDF then
      match continuationAt? bytes (place + 1) with
      | some low =>
        scanUnits bytes (place + 2) (units ++ [(first &&& 0x1F).toUInt16 <<< 6 ||| low])
      | none => return none
    else if 0xE0 ≤ first ∧ first ≤ 0xEF then
      match continuationAt? bytes (place + 1) with
      | some middle =>
        match continuationAt? bytes (place + 2) with
        | some low =>
          scanUnits bytes (place + 3)
            (units ++ [(first &&& 0x0F).toUInt16 <<< 12 ||| middle <<< 6 ||| low])
        | none => return none
      | none => return none
    else return none
  else return some units
termination_by bytes.length - place

/-- Scans bytes, in plain UTF-8 if they are that, and otherwise group by group. -/
def scan (bytes : List UInt8) : Scanner ε (Option String) := do
  match decodePlain? bytes with
  | some text => return some text
  | none =>
    match ← scanUnits bytes 0 [] with
    | some units => return (charsOfUnits? units).map String.ofList
    | none => return none

/-! ### What is left behind a place -/

section Behind

variable {bytes rest : List UInt8} {place : Nat} {byte : UInt8}

/-- Behind the first byte from a place on, the others are left. -/
theorem drop_succ_of_drop_eq_cons (h : bytes.drop place = byte :: rest) :
    bytes.drop (place + 1) = rest := by
  rw [← List.tail_drop, h, List.tail_cons]

/-- At the end no byte continues a group. -/
theorem continuationAt?_of_drop_eq_nil (h : bytes.drop place = []) :
    continuationAt? bytes place = none := by
  rw [continuationAt?, ← List.head?_drop, h]
  rfl

/-- The byte at a place continues a group exactly if it does by itself. -/
theorem continuationAt?_of_drop_eq_cons (h : bytes.drop place = byte :: rest) :
    continuationAt? bytes place = continuation? byte := by
  rw [continuationAt?, ← List.head?_drop, h]
  rfl

/-- A group of two bytes is decoded by what stands at the place behind its first byte. -/
theorem decodeUnits?_drop_two (hone : ¬(0x01 ≤ byte ∧ byte ≤ 0x7F))
    (htwo : 0xC0 ≤ byte ∧ byte ≤ 0xDF) :
    decodeUnits? (byte :: bytes.drop place) =
      (continuationAt? bytes place).bind fun low =>
        (decodeUnits? (bytes.drop (place + 1))).map
          (((byte &&& 0x1F).toUInt16 <<< 6 ||| low) :: ·) := by
  rw [decodeUnits?.eq_def]
  dsimp only
  rw [if_neg hone, if_pos htwo]
  cases hsecond : bytes.drop place with
  | nil =>
    rw [continuationAt?_of_drop_eq_nil hsecond]
    rfl
  | cons second rest =>
    rw [continuationAt?_of_drop_eq_cons hsecond, drop_succ_of_drop_eq_cons hsecond]
    dsimp only
    cases continuation? second <;> cases decodeUnits? rest <;> rfl

/-- A group of three bytes is decoded by what stands at the two places behind its first byte. -/
theorem decodeUnits?_drop_three (hone : ¬(0x01 ≤ byte ∧ byte ≤ 0x7F))
    (htwo : ¬(0xC0 ≤ byte ∧ byte ≤ 0xDF)) (hthree : 0xE0 ≤ byte ∧ byte ≤ 0xEF) :
    decodeUnits? (byte :: bytes.drop place) =
      (continuationAt? bytes place).bind fun middle =>
        (continuationAt? bytes (place + 1)).bind fun low =>
          (decodeUnits? (bytes.drop (place + 2))).map
            (((byte &&& 0x0F).toUInt16 <<< 12 ||| middle <<< 6 ||| low) :: ·) := by
  rw [decodeUnits?.eq_def]
  dsimp only
  rw [if_neg hone, if_neg htwo, if_pos hthree]
  cases hsecond : bytes.drop place with
  | nil =>
    rw [continuationAt?_of_drop_eq_nil hsecond]
    rfl
  | cons second rest =>
    have hthird := drop_succ_of_drop_eq_cons hsecond
    rw [continuationAt?_of_drop_eq_cons hsecond]
    cases rest with
    | nil =>
      rw [continuationAt?_of_drop_eq_nil hthird]
      cases continuation? second <;> rfl
    | cons third rest =>
      rw [continuationAt?_of_drop_eq_cons hthird, drop_succ_of_drop_eq_cons hthird]
      dsimp only
      cases continuation? second <;> cases continuation? third <;> cases decodeUnits? rest <;> rfl

end Behind

/-- From a place on, the units are found that the bytes from there on hold. -/
theorem finds_scanUnits (bytes : List UInt8) (place : Nat) (units : List UInt16) :
    Finds (scanUnits bytes place units : Scanner ε (Option (List UInt16)))
      ((decodeUnits? (bytes.drop place)).map (units ++ ·)) := by
  -- By induction along the scan, which goes on behind each group; the cases are those of a group.
  induction place, units using scanUnits.induct bytes with
  | case1 place units hlt ihone ihtwo ihthree =>
    have hfirst : Finds (index bytes place : Scanner ε UInt8) bytes[place] :=
      finds_index (List.getElem?_eq_getElem hlt)
    have hnone : Finds (pure none : Scanner ε (Option (List UInt16))) none := finds_pure none
    rw [scanUnits, if_pos hlt, List.drop_eq_getElem_cons hlt]
    refine hfirst.bind ?_
    generalize bytes[place] = first
    split_ifs with hone htwo hthree
    · rw [decodeUnits?.eq_def]
      simpa [hone, Function.comp_def] using ihone first
    · rw [decodeUnits?_drop_two hone htwo]
      cases continuationAt? bytes (place + 1) with
      | none => exact hnone
      | some low => simpa [Function.comp_def] using ihtwo first low
    · rw [decodeUnits?_drop_three hone htwo hthree]
      cases continuationAt? bytes (place + 1) with
      | none => exact hnone
      | some middle =>
        cases continuationAt? bytes (place + 2) with
        | none => exact hnone
        | some low => simpa [Function.comp_def] using ihthree first middle low
    · rw [decodeUnits?.eq_def]
      simpa [hone, htwo, hthree] using hnone
  | case2 place units hge =>
    rw [scanUnits, if_neg hge, List.drop_eq_nil_of_le (Nat.not_lt.mp hge)]
    simpa [decodeUnits?] using finds_pure (some units)

/-- Texts are found as `decode?` gives them, and no byte is looked for behind the last one. -/
theorem finds_scan (bytes : List UInt8) :
    Finds (scan bytes : Scanner ε (Option String)) (decode? bytes) := by
  have hunits : Finds (scanUnits bytes 0 [] : Scanner ε (Option (List UInt16)))
      (decodeUnits? bytes) := by
    simpa using finds_scanUnits bytes 0 []
  unfold scan decode?
  cases decodePlain? bytes with
  | some text => exact finds_pure (some text)
  | none =>
    refine hunits.bind ?_
    unfold decodeModified?
    cases decodeUnits? bytes with
    | none => exact finds_pure none
    | some units =>
      have htext : (charsOfUnits? units).map String.ofList =
          (do let chars ← charsOfUnits? units; return String.ofList chars) := by
        cases charsOfUnits? units <;> rfl
      show Finds _ (do let chars ← charsOfUnits? units; return String.ofList chars)
      rw [← htext]
      exact finds_pure _

end NativeHeaders.Text.ModifiedUtf8
