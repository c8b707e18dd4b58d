import NativeHeaders.Proofs.Scanner

/-! # Scanners and readers

A scanner knows where it stands in the data, and a reader what is left of them. `Gives` compares a
scanner at a position with an outcome of a reader, and `Tracks` a scanner with a reader wherever both
may start. Both demand that the trace stays in range, and both are kept by composition, so a scanner
is shown to be safe by following the reader whose work it does (`Gives.computes`). -/

namespace NativeHeaders.Scanner

variable {ε δ α β σ : Type} {length : Nat} {At : Nat → σ → Prop}

/-- A scanner gives an outcome of a reader of what is left: it finds the same and stands where `At`
says that this is left, or it refuses for the same cause. Its trace is in range. -/
inductive Agrees (length : Nat) (At : Nat → σ → Prop) :
    Except (Stop ε) α × Trace → Except ε (α × σ) → Prop where
  | found {value : α} {trace : Trace} {left : σ} (hrange : trace.InRange length)
    (hat : At trace.position left) : Agrees length At (.ok value, trace) (.ok (value, left))
  | refused {cause : ε} {trace : Trace} (hrange : trace.InRange length) :
    Agrees length At (.error (.refused cause), trace) (.error cause)

/-- From the position on, the scanner gives the outcome. -/
def Gives (length : Nat) (At : Nat → σ → Prop) (start : Nat) (scanner : Scanner ε α)
    (outcome : Except ε (α × σ)) : Prop :=
  ∀ trace : Trace, trace.InRange length → trace.position = start →
    Agrees length At (scanner.runFrom trace) outcome

/-- Wherever the data are left that the reader is given, the scanner does what the reader does. -/
def Tracks (length : Nat) (At : Nat → σ → Prop) (scanner : Scanner ε α)
    (reader : StateT σ (Except ε) α) : Prop :=
  ∀ start left, At start left → Gives length At start scanner (reader left)

/-- A scanner that only gives a value leaves the data where it stands. -/
theorem gives_pure {start : Nat} {left : σ} (h : At start left) (value : α) :
    Gives length At start (pure value : Scanner ε α) (.ok (value, left)) := by
  rintro trace hrange rfl
  exact .found hrange h

/-- A scanner that refuses the data gives the failure. -/
theorem gives_refuse (start : Nat) (cause : ε) :
    Gives length At start (refuse cause : Scanner ε α) (.error cause) := by
  rintro trace hrange rfl
  exact .refused hrange

section Steps

variable {start : Nat} {scanner : Scanner ε α} {next : α → Scanner ε β} {outcome : Except ε (β × σ)}

/-- Going on leaves the data at the new position, if it lies within them. -/
theorem gives_advance {start count : Nat} {left : σ} (hle : start + count ≤ length)
    (h : At (start + count) left) :
    Gives length At start (advance count : Scanner ε Unit) (.ok ((), left)) := by
  rintro trace hrange rfl
  exact .found (hrange.moveTo (Nat.le_add_right _ _) hle) h

/-- In front of any next step, the position can be computed. -/
theorem gives_position_bind {next : Nat → Scanner ε β}
    (h : Gives length At start (next start) outcome) :
    Gives length At start (position >>= next) outcome := by
  rintro trace hrange rfl
  rw [runFrom_bind_of_ok runFrom_position]
  exact h trace hrange rfl

/-- Behind a step forward within the data, the next scanner goes on from there. -/
theorem gives_moveTo_bind {next : Unit → Scanner ε β} {stop : Nat} (hle : start ≤ stop)
    (hstop : stop ≤ length) (h : Gives length At stop (next ()) outcome) :
    Gives length At start (moveTo stop >>= next) outcome := by
  rintro trace hrange rfl
  rw [runFrom_bind_of_ok (runFrom_moveTo stop)]
  exact h _ (hrange.moveTo hle hstop) rfl

/-- Behind a number of positions within the data, the next scanner goes on from there. -/
theorem gives_advance_bind {next : Unit → Scanner ε β} {count : Nat} (hle : start + count ≤ length)
    (h : Gives length At (start + count) (next ()) outcome) :
    Gives length At start (advance count >>= next) outcome := by
  rintro trace hrange rfl
  exact h _ (hrange.moveTo (Nat.le_add_right _ _) hle) rfl

/-- Behind a scanner that finds a value where it stands, the next one goes on from there. -/
theorem Finds.bind_gives {value : α} (hscanner : Finds scanner value)
    (h : Gives length At start (next value) outcome) :
    Gives length At start (scanner >>= next) outcome := by
  rintro trace hrange rfl
  obtain ⟨accesses, haccesses, hrun⟩ := hscanner trace
  rw [runFrom_bind_of_ok hrun]
  exact h _ (hrange.touch haccesses) rfl

/-- Behind a step that finds something, the next one gives the outcome. -/
theorem Gives.ok_bind {value : α} {left : σ}
    (h : Gives length At start scanner (.ok (value, left)))
    (hnext : ∀ stop, At stop left → Gives length At stop (next value) outcome) :
    Gives length At start (scanner >>= next) outcome := by
  intro trace hrange hstart
  have hagrees := h trace hrange hstart
  generalize hrun : scanner.runFrom trace = run at hagrees
  cases hagrees with
  | found hafter hat =>
    rw [runFrom_bind_of_ok hrun]
    exact hnext _ hat _ hafter rfl

/-- Behind a step that refuses the data, nothing is done. -/
theorem Gives.error_bind {cause : ε} (h : Gives length At start scanner (.error cause)) :
    Gives length At start (scanner >>= next) (.error cause) := by
  intro trace hrange hstart
  have hagrees := h trace hrange hstart
  generalize hrun : scanner.runFrom trace = run at hagrees
  cases hagrees with
  | refused hafter =>
    rw [runFrom_bind_of_error hrun]
    exact .refused hafter

/-- Two steps give what two steps of a reader give, if the second ones do so on whatever the first
ones find. -/
theorem Gives.bind {first : Except ε (α × σ)} {more : α × σ → Except ε (β × σ)}
    (h : Gives length At start scanner first)
    (hnext : ∀ value left stop, first = .ok (value, left) → At stop left →
      Gives length At stop (next value) (more (value, left))) :
    Gives length At start (scanner >>= next) (first >>= more) := by
  match first with
  | .ok (value, left) => exact h.ok_bind fun stop hat => hnext value left stop rfl hat
  | .error cause => exact h.error_bind

/-- What is made of the thing that a scanner finds leaves the position where it is. -/
theorem Gives.map {first : Except ε (α × σ)} (h : Gives length At start scanner first)
    (change : α → β) :
    Gives length At start (do return change (← scanner))
      (first.map fun found => (change found.1, found.2)) := by
  cases first with
  | ok found => exact h.ok_bind fun stop hat => gives_pure hat _
  | error cause => exact h.error_bind

end Steps

section Composition

variable {scanner other : Scanner ε α} {next : α → Scanner ε β}
  {reader otherReader : StateT σ (Except ε) α} {more : α → StateT σ (Except ε) β}

/-- A scanner that stays does what a step does that takes nothing off the data. -/
theorem Settles.tracks {step : Except ε α} (h : Settles scanner step) :
    Tracks length At scanner (liftM step) := by
  rintro start left hat trace hrange rfl
  obtain ⟨accesses, haccesses, hrun⟩ := h trace
  rw [hrun]
  cases step with
  | ok value => exact .found (hrange.touch haccesses) hat
  | error cause => exact .refused (hrange.touch haccesses)

/-- A step that stays and finds a value changes nothing for the next one. -/
theorem Finds.bind_tracks {value : α} {reader : StateT σ (Except ε) β} (h : Finds scanner value)
    (hnext : Tracks length At (next value) reader) :
    Tracks length At (scanner >>= next) reader :=
  fun start left hat => h.bind_gives (hnext start left hat)

/-- A scanner that only gives a value does what a reader does that only gives it. -/
theorem tracks_pure (value : α) :
    Tracks length At (pure value : Scanner ε α) (pure value) := (finds_pure value).tracks

/-- A scanner that refuses the data does what a reader does that fails. -/
theorem tracks_refuse (cause : ε) : Tracks length At (refuse cause : Scanner ε α) (throw cause) :=
  (settles_refuse cause).tracks

/-- Two scanners do what two readers do, one after the other; of the second one this is needed only
for what the first reader can find. -/
theorem Tracks.bind_of_found (h : Tracks length At scanner reader)
    (hnext : ∀ value, (∃ bytes left, reader bytes = .ok (value, left)) →
      Tracks length At (next value) (more value)) :
    Tracks length At (scanner >>= next) (reader >>= more) := by
  intro start left hat
  refine (h start left hat).bind fun value rest stop hfound hrest => ?_
  exact hnext value ⟨left, rest, hfound⟩ stop rest hrest

/-- Two scanners do what two readers do, one after the other. -/
theorem Tracks.bind (h : Tracks length At scanner reader)
    (hnext : ∀ value, Tracks length At (next value) (more value)) :
    Tracks length At (scanner >>= next) (reader >>= more) :=
  h.bind_of_found fun value _ => hnext value

/-- A choice between two scanners does what the choice between two readers does. -/
theorem Tracks.ite {p : Prop} [Decidable p] (h : Tracks length At scanner reader)
    (hother : Tracks length At other otherReader) :
    Tracks length At (if p then scanner else other) (if p then reader else otherReader) := by
  by_cases hp : p
  · rwa [if_pos hp, if_pos hp]
  · rwa [if_neg hp, if_neg hp]

end Composition

/-! ### Whole runs -/

/-- On data of the given length, the scanner comes from their start to the result, and nothing that
it does on the way is out of range. -/
structure Computes (length : Nat) (scanner : Scanner ε α) (result : Except ε α) : Prop where
  /-- What the scanner finds or why it refuses the data. -/
  outcome : (scanner.runFrom {}).1 = result.mapError .refused
  /-- The trace that it leaves. -/
  inRange : (scanner.runFrom {}).2.InRange length

/-- What a scanner gives from the start of the data on is what it computes. -/
theorem Gives.computes {scanner : Scanner ε α} {outcome : Except ε (α × σ)}
    (h : Gives length At 0 scanner outcome) : Computes length scanner (outcome.map Prod.fst) := by
  have hagrees := h {} (Trace.inRange_start length) rfl
  generalize hrun : scanner.runFrom {} = run at hagrees
  cases hagrees with
  | found hrange _ => exact ⟨by rw [hrun]; rfl, by rwa [hrun]⟩
  | refused hrange => exact ⟨by rw [hrun]; rfl, by rwa [hrun]⟩

/-- A scanner comes to its result with another cause as well. -/
theorem Computes.mapCause {scanner : Scanner ε α} {result : Except ε α}
    (h : Computes length scanner result) (change : ε → δ) :
    Computes length (scanner.mapCause change) (result.mapError change) where
  outcome := by rw [runFrom_mapCause, h.outcome, mapError_refused_map]
  inRange := h.inRange

/-- To the outside, a scanner of other data only makes accesses. -/
theorem Computes.settles_nested {scanner : Scanner ε α} {result : Except ε α}
    (h : Computes length scanner result) : Settles (nested scanner) result := by
  intro trace
  refine ⟨(scanner.runFrom {}).2.accesses, h.inRange.accesses, ?_⟩
  rw [runFrom_nested, h.outcome]

/-! ### Loops -/

/-- When the scanner finds something, then it has gone on by a number of positions or more. -/
def Advances (count : Nat) (scanner : Scanner ε α) : Prop :=
  ∀ trace value after, scanner.runFrom trace = (.ok value, after) →
    trace.position + count ≤ after.position

/-- A turn of a loop that is not the last one starts within the data and goes on in them. -/
def Proceeds (length : Nat) (turn : α → Scanner ε (α ⊕ β)) : Prop :=
  ∀ state trace next after, (turn state).runFrom trace = (.ok (.inl next), after) →
    trace.position < length ∧ trace.position < after.position

/-- Makes turns, each with what the one before it left, until one gives a result. -/
def loop (turn : α → Scanner ε (α ⊕ β)) (h : Proceeds length turn) (state : α) : Scanner ε β :=
  fun trace =>
    match _hrun : (turn state).runFrom trace with
    | (.ok (.inl next), after) => loop turn h next after
    | (.ok (.inr result), after) => (.ok result, after)
    | (.error stop, after) => (.error stop, after)
-- Only the trace that a turn leaves tells how far it went, so the measure is one of traces.
termination_by trace => length - trace.position
decreasing_by
  obtain ⟨hstart, hnext⟩ := h _ _ _ _ _hrun
  omega

/-- A loop is a turn and then, if it was not the last one, the loop. -/
theorem loop_eq (turn : α → Scanner ε (α ⊕ β)) (h : Proceeds length turn) (state : α) :
    loop turn h state = (do
      match ← turn state with
      | .inl next => loop turn h next
      | .inr result => return result) := by
  funext trace
  show _ = runFrom _ trace
  rw [loop]
  split
  · next hrun => rw [runFrom_bind_of_ok hrun]; rfl
  · next hrun => rw [runFrom_bind_of_ok hrun]; rfl
  · next hrun => rw [runFrom_bind_of_error hrun]

/-! ### Going on -/

section Going

variable {count more : Nat} {scanner other : Scanner ε α} {next : α → Scanner ε β}

/-- A scanner that stays where it stands does not go back. -/
theorem advances_of_runFrom (h : ∀ trace, (scanner.runFrom trace).2.position = trace.position) :
    Advances 0 scanner := by
  intro trace value after hrun
  have hposition := h trace
  rw [hrun] at hposition
  exact Nat.le_of_eq hposition.symm

/-- A scanner that only gives a value does not go back. -/
theorem advances_pure (value : α) : Advances 0 (pure value : Scanner ε α) :=
  advances_of_runFrom fun _ => rfl

/-- Asking for the position does not go back. -/
theorem advances_position : Advances 0 (position : Scanner ε Nat) :=
  advances_of_runFrom fun _ => rfl

/-- Noting an access does not go back. -/
theorem advances_record (access : Access) : Advances 0 (record access : Scanner ε Unit) :=
  advances_of_runFrom fun _ => rfl

/-- A scanner that stops goes on by any number of positions, since it finds nothing. -/
theorem advances_throw (count : Nat) (stop : Stop ε) : Advances count (throw stop : Scanner ε α) := by
  rintro trace value after ⟨⟩

/-- So does one that refuses the data. -/
theorem advances_refuse (count : Nat) (cause : ε) : Advances count (refuse cause : Scanner ε α) :=
  advances_throw count _

/-- Going on by a number of positions goes on by this number. -/
theorem advances_advance (count : Nat) : Advances count (advance count : Scanner ε Unit) := by
  rintro trace value after ⟨⟩
  exact Nat.le_refl _

/-- Two steps go on by what both of them do. -/
theorem Advances.bind (h : Advances count scanner) (hnext : ∀ value, Advances more (next value)) :
    Advances (count + more) (scanner >>= next) := by
  intro trace result after hrun
  obtain ⟨value, middle, hfirst, hsecond⟩ := runFrom_bind_eq_ok hrun
  have hmiddle := h _ _ _ hfirst
  have hafter := hnext value _ _ _ hsecond
  omega

/-- Who goes on by a number of positions goes on by any smaller one. -/
theorem Advances.mono (h : Advances count scanner) (hle : more ≤ count) : Advances more scanner := by
  intro trace value after hrun
  have hafter := h _ _ _ hrun
  omega

/-- A step in front does not take back what the next one goes on by. -/
theorem Advances.after (h : Advances 0 scanner) (hnext : ∀ value, Advances more (next value)) :
    Advances more (scanner >>= next) := by
  have hboth := h.bind hnext
  rwa [Nat.zero_add] at hboth

/-- A scanner goes on as far in front of one that does not go back. -/
theorem Advances.before (h : Advances count scanner) (hnext : ∀ value, Advances 0 (next value)) :
    Advances count (scanner >>= next) := h.bind hnext

/-- A choice between scanners goes on as far as both do. -/
theorem Advances.ite {p : Prop} [Decidable p] (h : Advances count scanner)
    (hother : Advances count other) : Advances count (if p then scanner else other) := by
  by_cases hp : p
  · rwa [if_pos hp]
  · rwa [if_neg hp]

/-- Looking at an item does not go back. -/
theorem advances_index (items : List α) (place : Nat) : Advances 0 (index items place : Scanner ε α) := by
  refine (advances_record _).after fun _ => ?_
  split
  · exact advances_pure _
  · exact advances_throw 0 _

/-- Looking at a part of a text does not go back. -/
theorem advances_substring (text : String) (start stop : Nat) :
    Advances 0 (substring text start stop : Scanner ε String) := by
  refine (advances_record _).after fun _ => ?_
  split
  · exact advances_pure _
  · exact advances_throw 0 _

end Going

end NativeHeaders.Scanner
