import Mathlib.Data.List.Basic
import NativeHeaders.Proofs.Fallible

/-! # Scanners

A scanner goes over data by positions and takes out of it what stands there, while a reader is given
what is left of the data. A scanner can reach outside of the data, so it leaves a `Trace` of the
positions that it was at and of every `Access`; an access out of range stops it with
`Stop.outOfRange`.

A step that only looks at data `Settles` what a step without positions decides, if all its accesses
are in range. `Scanner.Tracking` is about the steps that go on. -/

namespace NativeHeaders

/-! ### Traces -/

/-- What is right only within bounds. -/
inductive Access where
  /-- The item at a place is taken out of a number of them. -/
  | index (place length : Nat)
  /-- The items from `start` up to `stop` are cut out of a number of them. -/
  | slice (start stop length : Nat)
  /-- The bytes from `start` up to `stop` are cut out of a text. -/
  | substring (text : String) (start stop : Nat)
  /-- A number is kept in two bytes. -/
  | narrow (number : Nat)
  /-- The loop over the entries of a pool comes to the entry `next`. -/
  | turn (slots next : Nat)
deriving DecidableEq, Repr

/-- An item is one of those that there are, a part lies within the whole and does not cut characters
of a text in two, two bytes hold the number, and the pool has a slot for each entry so far. -/
def Access.InRange : Access → Prop
  | .index place length => place < length
  | .slice start stop length => start ≤ stop ∧ stop ≤ length
  | .substring text start stop =>
    start ≤ stop ∧ String.Pos.Raw.IsValid text ⟨start⟩ ∧ String.Pos.Raw.IsValid text ⟨stop⟩
  | .narrow number => (UInt16.ofNat number).toNat = number
  | .turn slots next => slots = next

instance (access : Access) : Decidable access.InRange := by
  cases access <;> unfold Access.InRange <;> infer_instance

/-- What a scanner leaves behind. -/
structure Trace where
  /-- Where the scanner stands. -/
  position : Nat := 0
  /-- The positions that it was at, in order. -/
  path : List Nat := [0]
  /-- What it took out of the data, in order. -/
  accesses : List Access := []
deriving DecidableEq, Repr

namespace Trace

/-- The trace of a scanner that goes to a position. -/
def moveTo (trace : Trace) (next : Nat) : Trace :=
  { trace with position := next, path := trace.path ++ [next] }

/-- The trace of a scanner that makes accesses. -/
def touch (trace : Trace) (accesses : List Access) : Trace :=
  { trace with accesses := trace.accesses ++ accesses }

/-- Accesses that are noted one after the other are noted together. -/
theorem touch_touch (trace : Trace) (first second : List Access) :
    (trace.touch first).touch second = trace.touch (first ++ second) := by
  simp [touch, List.append_assoc]

/-- Without an access nothing is noted. -/
@[simp] theorem touch_nil (trace : Trace) : trace.touch [] = trace := by simp [touch]

/-- The scanner never went back and never passed the end of the data, and all its accesses were in
range. -/
structure InRange (length : Nat) (trace : Trace) : Prop where
  /-- No position is below an earlier one. -/
  grows : trace.path.Pairwise (· ≤ ·)
  /-- The scanner stands at the last of its positions. -/
  reached : ∀ position ∈ trace.path, position ≤ trace.position
  /-- The position lies within the data. -/
  bounded : trace.position ≤ length
  /-- Every access was in range. -/
  accesses : ∀ access ∈ trace.accesses, access.InRange

variable {length : Nat} {trace : Trace}

/-- The trace at the start of the data is in range. -/
theorem inRange_start (length : Nat) : InRange length {} where
  grows := List.pairwise_singleton _ _
  reached := by simp
  bounded := Nat.zero_le length
  accesses := by simp

/-- A trace stays in range if the scanner goes on within the data. -/
theorem InRange.moveTo (h : trace.InRange length) {next : Nat} (hle : trace.position ≤ next)
    (hnext : next ≤ length) : (trace.moveTo next).InRange length where
  grows := by
    refine List.pairwise_append.mpr ⟨h.grows, List.pairwise_singleton _ _, ?_⟩
    intro before hbefore after hafter
    rw [List.mem_singleton.mp hafter]
    exact Nat.le_trans (h.reached before hbefore) hle
  reached := by
    intro position hposition
    rcases List.mem_append.mp hposition with hbefore | hnew
    · exact Nat.le_trans (h.reached position hbefore) hle
    · exact Nat.le_of_eq (List.mem_singleton.mp hnew)
  bounded := hnext
  accesses := h.accesses

/-- A trace stays in range if the noted accesses are. -/
theorem InRange.touch (h : trace.InRange length) {accesses : List Access}
    (haccesses : ∀ access ∈ accesses, access.InRange) : (trace.touch accesses).InRange length where
  grows := h.grows
  reached := h.reached
  bounded := h.bounded
  accesses := by
    intro access haccess
    rcases List.mem_append.mp haccess with hbefore | hnew
    · exact h.accesses access hbefore
    · exact haccesses access hnew

end Trace

/-! ### Steps of a scanner -/

/-- Why a scanner stops before it has found something. -/
inductive Stop (ε : Type) where
  /-- It refuses the data. -/
  | refused (cause : ε)
  /-- It reached outside of the data. -/
  | outOfRange
deriving DecidableEq, Repr

/-- The stop with another cause. -/
def Stop.map {ε δ : Type} (change : ε → δ) : Stop ε → Stop δ
  | .refused cause => .refused (change cause)
  | .outOfRange => .outOfRange

/-- A step that goes over data and leaves a trace, also if it stops. -/
abbrev Scanner (ε : Type) := ExceptT (Stop ε) (StateM Trace)

namespace Scanner

variable {ε δ α β : Type}

/-- What a scanner gives after a trace, with the trace that it leaves. -/
def runFrom (scanner : Scanner ε α) (trace : Trace) : Except (Stop ε) α × Trace :=
  (ExceptT.run scanner).run trace

/-- Where the scanner stands. -/
def position : Scanner ε Nat := do return (← get).position

/-- Goes to a position. -/
def moveTo (next : Nat) : Scanner ε Unit := modify (·.moveTo next)

/-- Goes on by a number of positions. -/
def advance (count : Nat) : Scanner ε Unit := do moveTo ((← position) + count)

/-- Notes an access. -/
def record (access : Access) : Scanner ε Unit := modify (·.touch [access])

/-- Refuses the data. -/
def refuse (cause : ε) : Scanner ε α := throw (.refused cause)

/-- The item at a place. -/
def index (items : List α) (place : Nat) : Scanner ε α := do
  record (.index place items.length)
  match items[place]? with
  | some item => return item
  | none => throw .outOfRange

/-- A number of items from a place on, one by one. -/
def indexEach (items : List α) (place : Nat) : Nat → Scanner ε (List α)
  | 0 => return []
  | count + 1 => do
    let first ← index items place
    let rest ← indexEach items (place + 1) count
    return first :: rest

/-- The items from `start` up to `stop`. -/
def slice (items : List α) (start stop : Nat) : Scanner ε (List α) := do
  record (.slice start stop items.length)
  if start ≤ stop ∧ stop ≤ items.length then return (items.drop start).take (stop - start)
  else throw .outOfRange

/-- The part of a text from the byte `start` up to the byte `stop`. -/
def substring (text : String) (start stop : Nat) : Scanner ε String := do
  record (.substring text start stop)
  if h : start ≤ stop ∧ String.Pos.Raw.IsValid text ⟨start⟩ ∧ String.Pos.Raw.IsValid text ⟨stop⟩ then
    return String.extract ⟨⟨start⟩, h.2.1⟩ ⟨⟨stop⟩, h.2.2⟩
  else throw .outOfRange

/-- What is kept of a number in two bytes. -/
def narrow (number : Nat) : Scanner ε Nat := do
  record (.narrow number)
  return (UInt16.ofNat number).toNat

/-- A step that does not look at the data. -/
def ofExcept : Except ε α → Scanner ε α
  | .ok value => pure value
  | .error cause => refuse cause

/-- The scanner with another cause when it refuses the data. -/
def mapCause (change : ε → δ) (scanner : Scanner ε α) : Scanner δ α :=
  ExceptT.adapt (Stop.map change) scanner

/-- Scans other data from their start: the accesses are noted, the positions are others. -/
def nested (scanner : Scanner ε α) : Scanner ε α := fun trace =>
  let (outcome, inner) := scanner.runFrom {}
  (outcome, trace.touch inner.accesses)

/-! ### Runs -/

section Runs

variable {trace : Trace}

/-- A scanner that only gives a value leaves the trace. -/
@[simp] theorem runFrom_pure (value : α) :
    (pure value : Scanner ε α).runFrom trace = (.ok value, trace) := rfl

/-- A scanner that refuses the data leaves the trace. -/
@[simp] theorem runFrom_refuse (cause : ε) :
    (refuse cause : Scanner ε α).runFrom trace = (.error (.refused cause), trace) := rfl

/-- Asking for the position leaves the trace. -/
@[simp] theorem runFrom_position :
    (position : Scanner ε Nat).runFrom trace = (.ok trace.position, trace) := rfl

/-- Going to a position changes the trace and always succeeds. -/
@[simp] theorem runFrom_moveTo (next : Nat) :
    (moveTo next : Scanner ε Unit).runFrom trace = (.ok (), trace.moveTo next) := rfl

/-- Noting an access changes the trace and always succeeds. -/
@[simp] theorem runFrom_record (access : Access) :
    (record access : Scanner ε Unit).runFrom trace = (.ok (), trace.touch [access]) := rfl

/-- Another cause changes nothing else. -/
@[simp] theorem runFrom_mapCause (change : ε → δ) (scanner : Scanner ε α) :
    (mapCause change scanner).runFrom trace =
      ((scanner.runFrom trace).1.mapError (Stop.map change), (scanner.runFrom trace).2) := rfl

/-- A nested scanner starts a trace of its own, of which the accesses are kept. -/
@[simp] theorem runFrom_nested (scanner : Scanner ε α) :
    (nested scanner).runFrom trace =
      ((scanner.runFrom {}).1, trace.touch (scanner.runFrom {}).2.accesses) := rfl

/-- A second scanner goes on with the trace of the first one, if that has found something. -/
theorem runFrom_bind (scanner : Scanner ε α) (next : α → Scanner ε β) :
    (scanner >>= next).runFrom trace =
      ExceptT.bindCont next (scanner.runFrom trace).1 (scanner.runFrom trace).2 := rfl

/-- Of two steps, the second one goes on with the trace of the first one. -/
theorem runFrom_bind_of_ok {scanner : Scanner ε α} {next : α → Scanner ε β} {value : α}
    {after : Trace} (h : scanner.runFrom trace = (.ok value, after)) :
    (scanner >>= next).runFrom trace = (next value).runFrom after := by
  rw [runFrom_bind, h]
  rfl

/-- If the first one of two steps stops, so do both. -/
theorem runFrom_bind_of_error {scanner : Scanner ε α} {next : α → Scanner ε β} {stop : Stop ε}
    {after : Trace} (h : scanner.runFrom trace = (.error stop, after)) :
    (scanner >>= next).runFrom trace = (.error stop, after) := by
  rw [runFrom_bind, h]
  rfl

/-- Two steps find something if the second one does on what the first one found. -/
theorem runFrom_bind_eq_ok {scanner : Scanner ε α} {next : α → Scanner ε β} {result : β}
    {after : Trace} (h : (scanner >>= next).runFrom trace = (.ok result, after)) :
    ∃ value middle, scanner.runFrom trace = (.ok value, middle) ∧
      (next value).runFrom middle = (.ok result, after) := by
  generalize hfirst : scanner.runFrom trace = run
  obtain ⟨outcome, middle⟩ := run
  cases outcome with
  | error stop =>
    rw [runFrom_bind_of_error hfirst] at h
    cases h
  | ok value =>
    rw [runFrom_bind_of_ok hfirst] at h
    exact ⟨value, middle, rfl, h⟩

end Runs

/-! ### Steps that stay -/

/-- Wherever the scanner stands, it stays there and does what the step does, by accesses in range
only. -/
def Settles (scanner : Scanner ε α) (step : Except ε α) : Prop :=
  ∀ trace, ∃ accesses, (∀ access ∈ accesses, access.InRange) ∧
    scanner.runFrom trace = (step.mapError .refused, trace.touch accesses)

/-- Wherever the scanner stands, it stays there and finds the value. -/
abbrev Finds (scanner : Scanner ε α) (value : α) : Prop := Settles scanner (.ok value)

/-- A scanner that only gives a value finds it. -/
theorem finds_pure (value : α) : Finds (pure value : Scanner ε α) value := by
  intro trace
  exact ⟨[], by simp, by rw [runFrom_pure, Trace.touch_nil]; rfl⟩

/-- Refusing the data is to fail. -/
theorem settles_refuse (cause : ε) : Settles (refuse cause : Scanner ε α) (.error cause) := by
  intro trace
  exact ⟨[], by simp, by rw [runFrom_refuse, Trace.touch_nil]; rfl⟩

/-- A step that does not look at the data is done where the scanner stands. -/
theorem settles_ofExcept (step : Except ε α) : Settles (ofExcept step) step := by
  cases step with
  | ok value => exact finds_pure value
  | error cause => exact settles_refuse cause

/-- A changed cause is the cause of the refusal. -/
theorem mapError_refused_map (change : ε → δ) (step : Except ε α) :
    (step.mapError Stop.refused).mapError (Stop.map change) =
      (step.mapError change).mapError Stop.refused := by
  cases step <;> rfl

section Binding

variable {scanner : Scanner ε α} {next : α → Scanner ε β}

/-- Behind a scanner that finds a value, the next step decides. -/
theorem Finds.bind {value : α} {step : Except ε β} (h : Finds scanner value)
    (hnext : Settles (next value) step) : Settles (scanner >>= next) step := by
  intro trace
  obtain ⟨first, hfirst, hrun⟩ := h trace
  obtain ⟨second, hsecond, hnext⟩ := hnext (trace.touch first)
  refine ⟨first ++ second, ?_, ?_⟩
  · intro access haccess
    rcases List.mem_append.mp haccess with hleft | hright
    · exact hfirst access hleft
    · exact hsecond access hright
  · rw [runFrom_bind_of_ok hrun, hnext, Trace.touch_touch]

/-- Behind a scanner that refuses the data, nothing is done. -/
theorem Settles.error_bind {cause : ε} (h : Settles scanner (.error cause)) :
    Settles (scanner >>= next) (.error cause) := by
  intro trace
  obtain ⟨accesses, haccesses, hrun⟩ := h trace
  exact ⟨accesses, haccesses, runFrom_bind_of_error hrun⟩

/-- Two steps that stay, one after the other, stay. -/
theorem Settles.bind {step : Except ε α} {more : α → Except ε β} (h : Settles scanner step)
    (hnext : ∀ value, Settles (next value) (more value)) :
    Settles (scanner >>= next) (step >>= more) := by
  cases step with
  | ok value => exact Finds.bind h (hnext value)
  | error cause => exact h.error_bind

end Binding

/-- A choice between steps that stay is one. -/
theorem Settles.ite {scanner other : Scanner ε α} {step otherStep : Except ε α} {p : Prop}
    [Decidable p] (h : Settles scanner step) (hother : Settles other otherStep) :
    Settles (if p then scanner else other) (if p then step else otherStep) := by
  by_cases hp : p
  · rwa [if_pos hp, if_pos hp]
  · rwa [if_neg hp, if_neg hp]

/-! ### Accesses -/

/-- An access in range can be noted. -/
theorem finds_record {access : Access} (h : access.InRange) :
    Finds (record access : Scanner ε Unit) () := by
  intro trace
  exact ⟨[access], by simpa using h, runFrom_record access⟩

/-- The item at a place is found, if there is one. -/
theorem finds_index {items : List α} {place : Nat} {item : α} (h : items[place]? = some item) :
    Finds (index items place : Scanner ε α) item := by
  obtain ⟨hlt, -⟩ := List.getElem?_eq_some_iff.mp h
  have hrecord : Access.InRange (.index place items.length) := hlt
  refine (finds_record hrecord).bind ?_
  rw [h]
  exact finds_pure item

/-- Items are found one by one, by induction on their number, if there are enough of them. -/
theorem finds_indexEach (items : List α) {place count : Nat} (h : place + count ≤ items.length) :
    Finds (indexEach items place count : Scanner ε (List α)) ((items.drop place).take count) := by
  induction count generalizing place with
  | zero => exact finds_pure []
  | succ count ih =>
    have hlt : place < items.length := by omega
    rw [List.drop_eq_getElem_cons hlt, List.take_succ_cons]
    refine (finds_index (List.getElem?_eq_getElem hlt)).bind ?_
    exact (ih (by omega)).bind (finds_pure _)

/-- All items of a list are taken out of it one by one. -/
theorem finds_indexEach_zero {items : List α} {count : Nat} (h : items.length = count) :
    Finds (indexEach items 0 count : Scanner ε (List α)) items := by
  have hfinds : Finds (indexEach items 0 count : Scanner ε (List α)) ((items.drop 0).take count) :=
    finds_indexEach items (by omega)
  rwa [List.drop_zero, List.take_of_length_le (Nat.le_of_eq h)] at hfinds

/-- A slice is found, if it lies within the items. -/
theorem finds_slice {items : List α} {start stop : Nat} (hle : start ≤ stop)
    (hstop : stop ≤ items.length) :
    Finds (slice items start stop : Scanner ε (List α))
      ((items.drop start).take (stop - start)) := by
  have hrecord : Access.InRange (.slice start stop items.length) := ⟨hle, hstop⟩
  refine (finds_record hrecord).bind ?_
  rw [if_pos ⟨hle, hstop⟩]
  exact finds_pure _

/-- The characters between two of a text are cut out by the positions of these. -/
theorem finds_substring (front middle back : String) :
    Finds (substring (front ++ middle ++ back) front.utf8ByteSize
      (front ++ middle).utf8ByteSize : Scanner ε String) middle := by
  have hstart : String.Pos.Raw.IsValid (front ++ middle ++ back) ⟨front.utf8ByteSize⟩ :=
    String.Pos.Raw.isValid_iff_exists_append.mpr
      ⟨front, middle ++ back, String.append_assoc, rfl⟩
  have hstop : String.Pos.Raw.IsValid (front ++ middle ++ back) ⟨(front ++ middle).utf8ByteSize⟩ :=
    String.Pos.Raw.isValid_iff_exists_append.mpr ⟨front ++ middle, back, rfl, rfl⟩
  have hle : front.utf8ByteSize ≤ (front ++ middle).utf8ByteSize := by simp
  have hmiddle : String.extract ⟨⟨front.utf8ByteSize⟩, hstart⟩
      ⟨⟨(front ++ middle).utf8ByteSize⟩, hstop⟩ = middle := by
    apply String.toByteArray_inj.mp
    rw [String.toByteArray_extract, String.toByteArray_append]
    show (_ ++ _ : ByteArray).extract front.toByteArray.size (front ++ middle).toByteArray.size = _
    rw [ByteArray.extract_append_size_left, String.toByteArray_append]
    exact ByteArray.extract_append_eq_right rfl ByteArray.size_append
  have hrecord : Access.InRange (.substring (front ++ middle ++ back) front.utf8ByteSize
      (front ++ middle).utf8ByteSize) := ⟨hle, hstart, hstop⟩
  refine (finds_record hrecord).bind ?_
  rw [dif_pos ⟨hle, hstart, hstop⟩, hmiddle]
  exact finds_pure middle

/-- A number that fits in two bytes is kept as it is. -/
theorem finds_narrow {number : Nat} (h : number < UInt16.size) :
    Finds (narrow number : Scanner ε Nat) number := by
  have hkept : (UInt16.ofNat number).toNat = number := UInt16.toNat_ofNat_of_lt h
  have hrecord : Access.InRange (.narrow number) := hkept
  refine (finds_record hrecord).bind ?_
  rw [hkept]
  exact finds_pure number

end Scanner

end NativeHeaders
