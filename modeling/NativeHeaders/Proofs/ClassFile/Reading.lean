import Mathlib.Data.List.Induction
import NativeHeaders.Proofs.ClassFile.Format
import NativeHeaders.Proofs.Fallible

/-! # Readers and formats

`Reads reader encode WellFormed Means` says that a reader accepts exactly a format: it succeeds on
bytes if and only if they start with the encoding of something well formed, leaves what follows that
encoding, and finds what the thing means. Each lemma here shows this of one way to build a reader;
the formats of class files follow by composition. -/

namespace NativeHeaders.ClassFile

variable {α β : Type} {bytes rest : List UInt8}

/-! ### Steps of a reader -/

/-- Two readers, one after the other, succeed exactly if the second one does on what the first one
left. -/
theorem bind_eq_ok {reader : Reader α} {next : α → Reader β} {result : β} :
    (reader >>= next) bytes = .ok (result, rest) ↔
      ∃ found left, reader bytes = .ok (found, left) ∧ next found left = .ok (result, rest) := by
  show (reader bytes >>= fun pair => next pair.1 pair.2) = _ ↔ _
  rw [Fallible.bind_eq_ok]
  constructor
  · rintro ⟨⟨found, left⟩, h⟩
    exact ⟨found, left, h⟩
  · rintro ⟨found, left, h⟩
    exact ⟨(found, left), h⟩

/-- Behind a reader that succeeds the next one goes on. -/
theorem bind_of_ok {reader : Reader α} {next : α → Reader β} {found : α} {left : List UInt8}
    (h : reader bytes = .ok (found, left)) : (reader >>= next) bytes = next found left := by
  show (reader bytes >>= fun pair => next pair.1 pair.2) = _
  rw [h]
  rfl

/-- A reader that fails ends the reading. -/
theorem bind_of_error {reader : Reader α} {next : α → Reader β} {error : ClassFileError}
    (h : reader bytes = .error error) : (reader >>= next) bytes = .error error := by
  show (reader bytes >>= fun pair => next pair.1 pair.2) = _
  rw [h]
  rfl

/-- A reader that only gives a value leaves all bytes. -/
theorem pure_eq_ok {value result : α} :
    (pure value : Reader α) bytes = .ok (result, rest) ↔ value = result ∧ bytes = rest := by
  constructor
  · rintro ⟨⟩
    exact ⟨rfl, rfl⟩
  · rintro ⟨rfl, rfl⟩
    rfl

/-- A changed result comes from the result of the reader, with the same bytes left. -/
theorem map_eq_ok {reader : Reader α} {change : α → β} {result : β} :
    (change <$> reader) bytes = .ok (result, rest) ↔
      ∃ found, reader bytes = .ok (found, rest) ∧ change found = result := by
  rw [map_eq_pure_bind, bind_eq_ok]
  simp only [pure_eq_ok]
  constructor
  · rintro ⟨found, _, h, rfl, rfl⟩
    exact ⟨found, h, rfl⟩
  · rintro ⟨found, h, rfl⟩
    exact ⟨found, rest, h, rfl, rfl⟩

/-- A choice between two readers with one continuation is read before the continuation. -/
theorem ite_bind_eq_ok {p : Prop} [Decidable p] {first second : Reader α} {next : α → Reader β}
    {result : β} :
    (if p then first >>= next else second >>= next) bytes = .ok (result, rest) ↔
      ∃ found left, (if p then first else second) bytes = .ok (found, left) ∧
        next found left = .ok (result, rest) := by
  split
  · exact bind_eq_ok
  · exact bind_eq_ok

/-- A reader that fails finds nothing. -/
theorem throw_ne_ok {error : ClassFileError} {outcome : α × List UInt8} :
    (throw error : Reader α) bytes ≠ .ok outcome := by
  rintro ⟨⟩

/-- A step that reads nothing leaves all bytes. -/
theorem lift_eq_ok {step : Except ClassFileError α} {result : α} :
    (liftM step : Reader α) bytes = .ok (result, rest) ↔ step = .ok result ∧ bytes = rest := by
  show (step >>= fun value => .ok (value, bytes)) = _ ↔ _
  rw [Fallible.bind_eq_ok]
  constructor
  · rintro ⟨value, h, ⟨⟩⟩
    exact ⟨h, rfl⟩
  · rintro ⟨h, rfl⟩
    exact ⟨result, h, rfl⟩

/-- The reader `takeBytes` takes exactly the asked number of bytes off the front. -/
theorem takeBytes_eq_ok {count : Nat} {taken : List UInt8} :
    takeBytes count bytes = .ok (taken, rest) ↔ bytes = taken ++ rest ∧ taken.length = count := by
  unfold takeBytes
  constructor
  · intro h
    dsimp only at h
    split at h
    · next hlength =>
      cases h
      exact ⟨(List.take_append_drop count bytes).symm, hlength⟩
    · cases h
  · rintro ⟨rfl, rfl⟩
    simp

/-- The reader `skip` leaves what stands behind the asked number of bytes. -/
theorem skip_eq_ok {count : Nat} {result : Unit} :
    skip count bytes = .ok (result, rest) ↔
      ∃ taken, bytes = taken ++ rest ∧ taken.length = count := by
  simp only [skip, bind_eq_ok, takeBytes_eq_ok, pure_eq_ok]
  constructor
  · rintro ⟨taken, _, ⟨rfl, hlength⟩, _, rfl⟩
    exact ⟨taken, rfl, hlength⟩
  · rintro ⟨taken, rfl, hlength⟩
    exact ⟨taken, rest, ⟨rfl, hlength⟩, trivial, rfl⟩

/-! ### Numbers -/

open Format

/-- A number is encoded in as many bytes as were asked for. -/
@[simp] theorem length_numberBytes (width number : Nat) :
    (numberBytes width number).length = width := by
  induction width generalizing number with
  | zero => rfl
  | succ width ih => simp [numberBytes, ih]

/-- A further byte at the end makes the number 256 times as great and adds itself. -/
@[simp] theorem bigEndian_concat (front : List UInt8) (byte : UInt8) :
    bigEndian (front ++ [byte]) = bigEndian front * 256 + byte.toNat := by
  simp [bigEndian]

/-- The bytes of a number are read back as the number. -/
theorem bigEndian_numberBytes {width number : Nat} (h : number < 256 ^ width) :
    bigEndian (numberBytes width number) = number := by
  induction width generalizing number with
  | zero =>
    have : number = 0 := by simpa using h
    subst this
    rfl
  | succ width ih =>
    have hquotient : number / 256 < 256 ^ width := by
      rw [Nat.div_lt_iff_lt_mul (by decide), ← Nat.pow_succ]
      exact h
    rw [numberBytes, bigEndian_concat, ih hquotient, UInt8.toNat_ofNat']
    omega

/-- Bytes are those of the number that they hold. -/
theorem numberBytes_bigEndian (bytes : List UInt8) :
    numberBytes bytes.length (bigEndian bytes) = bytes := by
  induction bytes using List.reverseRecOn with
  | nil => rfl
  | append_singleton front byte ih =>
    have hbyte := byte.toNat_lt
    rw [List.length_append, List.length_singleton, numberBytes, bigEndian_concat,
      show (bigEndian front * 256 + byte.toNat) / 256 = bigEndian front by omega, ih]
    -- The fronts agree, and the last byte is the remainder.
    congr 2
    apply UInt8.toNat_inj.mp
    rw [UInt8.toNat_ofNat']
    omega

/-- Bytes hold no greater number than there are values for them. -/
theorem bigEndian_lt (bytes : List UInt8) : bigEndian bytes < 256 ^ bytes.length := by
  induction bytes using List.reverseRecOn with
  | nil => decide
  | append_singleton front byte ih =>
    have hbyte := byte.toNat_lt
    rw [bigEndian_concat, List.length_append, List.length_singleton, Nat.pow_succ]
    omega

/-- A number is read exactly from its encoding, and it fits in the bytes. -/
theorem readNumber_eq_ok {width number : Nat} :
    readNumber width bytes = .ok (number, rest) ↔
      number < 256 ^ width ∧ bytes = numberBytes width number ++ rest := by
  simp only [readNumber, bind_eq_ok, takeBytes_eq_ok, pure_eq_ok]
  constructor
  · rintro ⟨taken, _, ⟨rfl, rfl⟩, rfl, rfl⟩
    exact ⟨bigEndian_lt taken, by rw [numberBytes_bigEndian]⟩
  · rintro ⟨hlt, rfl⟩
    exact ⟨_, rest, ⟨rfl, length_numberBytes width number⟩, bigEndian_numberBytes hlt, rfl⟩

/-- Where words are the numbers that some bytes hold, a number is read as a word. -/
theorem readNumber_eq_ok_word {Word : Type} (toNat : Word → Nat) {width number : Nat}
    (hlt : ∀ word, toNat word < 256 ^ width)
    (hword : ∀ number < 256 ^ width, ∃ word, toNat word = number) :
    readNumber width bytes = .ok (number, rest) ↔
      ∃ word, number = toNat word ∧ bytes = numberBytes width (toNat word) ++ rest := by
  rw [readNumber_eq_ok]
  constructor
  · rintro ⟨hnumber, rfl⟩
    obtain ⟨word, rfl⟩ := hword number hnumber
    exact ⟨word, rfl, rfl⟩
  · rintro ⟨word, rfl, rfl⟩
    exact ⟨hlt word, rfl⟩

/-- Two bytes are read as an index, whichever bytes they are. -/
theorem readShort_eq_ok {number : Nat} :
    readShort bytes = .ok (number, rest) ↔
      ∃ index : UInt16, number = index.toNat ∧ bytes = numberBytes 2 index.toNat ++ rest :=
  readNumber_eq_ok_word UInt16.toNat UInt16.toNat_lt
    fun number h => ⟨.ofNat number, UInt16.toNat_ofNat_of_lt' h⟩

/-- Things are few enough to be counted if two bytes hold their number. -/
theorem isShort_of_length_eq {X : Type} {things : List X} {count : UInt16}
    (h : things.length = count.toNat) : IsShort things := by
  rw [IsShort, h]
  exact count.toNat_lt

/-- The number of things fits in two bytes, if there are not too many. -/
theorem IsShort.toNat_length {X : Type} {things : List X} (h : IsShort things) :
    (UInt16.ofNat things.length).toNat = things.length := UInt16.toNat_ofNat_of_lt' h

/-- A number below `2 ^ 32` is read exactly from its encoding in four bytes. -/
theorem readWord_eq_ok {number : Nat} :
    readWord bytes = .ok (number, rest) ↔
      number < 2 ^ 32 ∧ bytes = numberBytes 4 number ++ rest := readNumber_eq_ok

/-! ### Formats -/

/-- The reader accepts exactly the encodings of well-formed things, and finds what they mean. -/
def Reads {X : Type} (reader : Reader α) (encode : X → List UInt8) (WellFormed : X → Prop)
    (Means : X → α → Prop) : Prop :=
  ∀ bytes result rest, reader bytes = .ok (result, rest) ↔
    ∃ thing, bytes = encode thing ++ rest ∧ WellFormed thing ∧ Means thing result

variable {X : Type} {reader : Reader α} {encode : X → List UInt8} {WellFormed : X → Prop}
  {Means : X → α → Prop}

/-- A step behind a reader that reads nothing only adds to what things mean. -/
theorem Reads.check (h : Reads reader encode WellFormed Means)
    (step : α → Except ClassFileError β) :
    Reads (do step (← reader)) encode WellFormed
      (fun thing result => ∃ found, Means thing found ∧ step found = .ok result) := by
  intro bytes result rest
  simp only [bind_eq_ok, lift_eq_ok, h bytes]
  constructor
  · rintro ⟨found, _, ⟨thing, rfl, hwell, hmeans⟩, hstep, rfl⟩
    exact ⟨thing, rfl, hwell, found, hmeans, hstep⟩
  · rintro ⟨thing, rfl, hwell, found, hmeans, hstep⟩
    exact ⟨found, rest, ⟨thing, rfl, hwell, hmeans⟩, hstep, rfl⟩

/-- Reading a number of times reads as many things, one after the other. -/
theorem Reads.times (h : Reads reader encode WellFormed Means) (count : Nat) :
    Reads (readTimes reader count) (fun things : List X => things.flatMap encode)
      (fun things => things.length = count ∧ ∀ thing ∈ things, WellFormed thing)
      (List.Forall₂ Means) := by
  induction count with
  | zero =>
    intro bytes results rest
    rw [readTimes, pure_eq_ok]
    constructor
    · rintro ⟨rfl, rfl⟩
      exact ⟨[], rfl, ⟨rfl, by simp⟩, .nil⟩
    · rintro ⟨things, rfl, ⟨hlength, -⟩, hmeans⟩
      rw [List.length_eq_zero_iff] at hlength
      subst hlength
      cases hmeans
      exact ⟨rfl, rfl⟩
  | succ count ih =>
    intro bytes results rest
    simp only [readTimes, bind_eq_ok, pure_eq_ok, h bytes, ih _ _ _]
    constructor
    · rintro ⟨first, _, ⟨thing, rfl, hwell, hmeans⟩, others, _,
        ⟨things, rfl, ⟨hlength, hwells⟩, hmeanings⟩, rfl, rfl⟩
      refine ⟨thing :: things, by simp, ⟨by simp [hlength], ?_⟩, .cons hmeans hmeanings⟩
      exact List.forall_mem_cons.mpr ⟨hwell, hwells⟩
    · rintro ⟨things, rfl, ⟨hlength, hwells⟩, hmeanings⟩
      -- The number of things is not 0, so there is a first one, and it has a meaning.
      obtain ⟨thing, others, rfl⟩ := List.exists_cons_of_length_eq_add_one hlength
      obtain ⟨hwell, hwells⟩ := List.forall_mem_cons.mp hwells
      obtain ⟨first, found, hmeans, hothers, rfl⟩ := List.forall₂_cons_left_iff.mp hmeanings
      refine ⟨first, others.flatMap encode ++ rest, ⟨thing, ?_, hwell, hmeans⟩, found, rest, ?_,
        rfl, rfl⟩
      · rw [List.flatMap_cons, List.append_assoc]
      · exact ⟨others, rfl, ⟨by simpa using hlength, hwells⟩, hothers⟩

/-- Reading a number and as many things reads a counted list. -/
theorem Reads.countedTimes (h : Reads reader encode WellFormed Means) :
    Reads (do readTimes reader (← readShort)) (counted encode)
      (fun things => IsShort things ∧ ∀ thing ∈ things, WellFormed thing)
      (List.Forall₂ Means) := by
  intro bytes results rest
  simp only [bind_eq_ok, readShort, readNumber_eq_ok, h.times _ _ _ _]
  constructor
  · rintro ⟨count, _, ⟨hlt, rfl⟩, things, rfl, ⟨rfl, hwells⟩, hmeanings⟩
    exact ⟨things, by simp [counted], ⟨hlt, hwells⟩, hmeanings⟩
  · rintro ⟨things, rfl, ⟨hlt, hwells⟩, hmeanings⟩
    refine ⟨things.length, things.flatMap encode ++ rest, ⟨hlt, ?_⟩, things, rfl, ⟨rfl, hwells⟩,
      hmeanings⟩
    rw [counted, List.append_assoc]

/-- What is done behind a counted list depends on the list only. -/
theorem Reads.countedTimes_bind (h : Reads reader encode WellFormed Means)
    {next : List α → Reader β} {result : β} :
    (do let count ← readShort; let founds ← readTimes reader count; next founds : Reader β) bytes =
        .ok (result, rest) ↔
      ∃ things founds left, bytes = counted encode things ++ left ∧
        (IsShort things ∧ ∀ thing ∈ things, WellFormed thing) ∧ List.Forall₂ Means things founds ∧
        next founds left = .ok (result, rest) := by
  rw [← bind_assoc, bind_eq_ok]
  simp only [h.countedTimes _ _ _]
  constructor
  · rintro ⟨founds, left, ⟨things, rfl, hwell, hmeans⟩, hnext⟩
    exact ⟨things, founds, left, rfl, hwell, hmeans, hnext⟩
  · rintro ⟨things, founds, left, rfl, hwell, hmeans, hnext⟩
    exact ⟨founds, left, ⟨things, rfl, hwell, hmeans⟩, hnext⟩

end NativeHeaders.ClassFile
