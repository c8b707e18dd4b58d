import Mathlib.Data.List.Forall2

/-! # Steps that may fail

A chain of steps succeeds exactly if every step does, each on what the one before it gave. -/

namespace NativeHeaders.Fallible

variable {ε α β : Type}

/-- Two steps succeed exactly if the second one does on what the first one gave. -/
theorem bind_eq_ok {step : Except ε α} {next : α → Except ε β} {result : β} :
    step >>= next = .ok result ↔ ∃ middle, step = .ok middle ∧ next middle = .ok result := by
  cases step with
  | error cause =>
    constructor
    · intro h
      cases h
    · rintro ⟨_, h, _⟩
      cases h
  | ok middle =>
    constructor
    · intro h
      exact ⟨middle, rfl, h⟩
    · rintro ⟨_, ⟨⟩, h⟩
      exact h

/-- A step that only gives a value succeeds with it. -/
theorem pure_eq_ok {value result : α} :
    (pure value : Except ε α) = .ok result ↔ value = result := by
  constructor
  · rintro ⟨⟩
    rfl
  · rintro rfl
    rfl

/-- A changed result comes from a result of the step. -/
theorem map_eq_ok {step : Except ε α} {change : α → β} {result : β} :
    change <$> step = .ok result ↔ ∃ middle, step = .ok middle ∧ change middle = result := by
  cases step with
  | error cause =>
    constructor
    · intro h
      cases h
    · rintro ⟨_, h, _⟩
      cases h
  | ok middle =>
    constructor
    · rintro ⟨⟩
      exact ⟨middle, rfl, rfl⟩
    · rintro ⟨_, ⟨⟩, rfl⟩
      rfl

/-- Changing the cause of a failure changes no success. -/
theorem mapError_eq_ok {δ : Type} {step : Except ε α} {change : ε → δ} {result : α} :
    step.mapError change = .ok result ↔ step = .ok result := by
  cases step with
  | error cause =>
    constructor
    · intro h
      cases h
    · intro h
      cases h
  | ok value => simp [Except.mapError]

/-- Two steps fail exactly if the first one does, or the second one on what the first one gave. -/
theorem bind_eq_error {step : Except ε α} {next : α → Except ε β} {cause : ε} :
    step >>= next = .error cause ↔
      step = .error cause ∨ ∃ middle, step = .ok middle ∧ next middle = .error cause := by
  cases step with
  | error other =>
    constructor
    · intro h
      cases h
      exact .inl rfl
    · rintro (⟨⟨⟩⟩ | ⟨_, h, _⟩)
      · rfl
      · cases h
  | ok middle =>
    constructor
    · intro h
      exact .inr ⟨middle, rfl, h⟩
    · rintro (h | ⟨_, ⟨⟩, h⟩)
      · cases h
      · exact h

/-- A changed cause comes from the cause of the step. -/
theorem mapError_eq_error {δ : Type} {step : Except ε α} {change : ε → δ} {cause : δ} :
    step.mapError change = .error cause ↔ ∃ inner, step = .error inner ∧ change inner = cause := by
  cases step with
  | error inner => simp [Except.mapError]
  | ok value => simp [Except.mapError]

/-- A step gives a result exactly if it succeeds with it. -/
theorem toOption_eq_some {step : Except ε α} {result : α} :
    step.toOption = some result ↔ step = .ok result := by
  cases step <;> simp [Except.toOption]

/-- A list of steps succeeds exactly if every step does. -/
theorem mapM_eq_ok {step : α → Except ε β} {items : List α} {results : List β} :
    items.mapM step = .ok results ↔
      List.Forall₂ (fun item result => step item = .ok result) items results := by
  induction items generalizing results with
  | nil =>
    rw [List.mapM_nil, pure_eq_ok, List.forall₂_nil_left_iff]
    exact eq_comm
  | cons item items ih =>
    rw [List.mapM_cons, bind_eq_ok, List.forall₂_cons_left_iff]
    constructor
    · rintro ⟨first, hfirst, hrest⟩
      obtain ⟨rest, hitems, hresults⟩ := bind_eq_ok.mp hrest
      exact ⟨first, rest, hfirst, ih.mp hitems, (pure_eq_ok.mp hresults).symm⟩
    · rintro ⟨first, rest, hfirst, hitems, rfl⟩
      exact ⟨first, hfirst, bind_eq_ok.mpr ⟨rest, ih.mpr hitems, rfl⟩⟩

/-- A list of steps fails with the first step that fails. -/
theorem mapM_eq_error {step : α → Except ε β} {items : List α} {cause : ε} :
    items.mapM step = .error cause ↔
      ∃ before item after, items = before ++ item :: after ∧
        (∀ other ∈ before, ∃ result, step other = .ok result) ∧ step item = .error cause := by
  induction items with
  | nil =>
    simp only [List.mapM_nil, List.nil_eq_append_iff, reduceCtorEq, and_false, false_and,
      exists_false, iff_false]
    exact nofun
  | cons item items ih =>
    rw [List.mapM_cons, bind_eq_error]
    constructor
    · rintro (hfirst | ⟨first, hfirst, hrest⟩)
      · exact ⟨[], item, items, rfl, by simp, hfirst⟩
      · obtain hitems | ⟨_, _, hresults⟩ := bind_eq_error.mp hrest
        · obtain ⟨before, failing, after, rfl, hbefore, hfailing⟩ := ih.mp hitems
          exact ⟨item :: before, failing, after, rfl,
            List.forall_mem_cons.mpr ⟨⟨first, hfirst⟩, hbefore⟩, hfailing⟩
        · cases hresults
    · rintro ⟨before, failing, after, hitems, hbefore, hfailing⟩
      cases before with
      | nil =>
        obtain ⟨rfl, rfl⟩ := List.cons_eq_cons.mp hitems
        exact .inl hfailing
      | cons first before =>
        obtain ⟨rfl, rfl⟩ := List.cons_eq_cons.mp hitems
        rw [List.forall_mem_cons] at hbefore
        obtain ⟨⟨result, hresult⟩, hbefore⟩ := hbefore
        exact .inr ⟨result, hresult, bind_eq_error.mpr
          (.inl (ih.mpr ⟨before, failing, after, rfl, hbefore, hfailing⟩))⟩

/-- What holds of each pair holds of the second ones. -/
theorem forall_mem_right {related : α → β → Prop} {items : List α} {results : List β}
    {holds : β → Prop} (h : List.Forall₂ related items results)
    (hpair : ∀ item result, related item result → holds result) :
    ∀ result ∈ results, holds result := by
  induction h with
  | nil => simp
  | cons hfirst _ ih => exact List.forall_mem_cons.mpr ⟨hpair _ _ hfirst, ih⟩

/-- What a search finds was found in one of the places. -/
theorem exists_of_findSomeM? {search : α → Except ε (Option β)} {places : List α} {found : β}
    (h : places.findSomeM? search = .ok (some found)) :
    ∃ place ∈ places, search place = .ok (some found) := by
  induction places with
  | nil => cases h
  | cons place places ih =>
    rw [List.findSomeM?_cons, bind_eq_ok] at h
    obtain ⟨first, hfirst, hrest⟩ := h
    cases first with
    | some other =>
      cases hrest
      exact ⟨place, List.mem_cons_self, hfirst⟩
    | none =>
      obtain ⟨later, hlater, hfound⟩ := ih hrest
      exact ⟨later, List.mem_cons_of_mem _ hlater, hfound⟩

/-! ### Two chains of steps

The same steps may be taken in two settings that differ in a way that is not to be seen in the end.
`SameOutcome` is kept by what chains are made of, so that it is enough to look at single steps. -/

variable {γ δ : Type}

/-- Two steps with one outcome: both fail for one reason, or both succeed and give related results.
-/
inductive SameOutcome (related : α → γ → Prop) : Except ε α → Except ε γ → Prop where
  /-- Both fail. -/
  | error (cause : ε) : SameOutcome related (.error cause) (.error cause)
  /-- Both succeed. -/
  | ok {result : α} {other : γ} (h : related result other) :
      SameOutcome related (.ok result) (.ok other)

namespace SameOutcome

variable {related : α → γ → Prop} {related' : β → δ → Prop} {step : Except ε α}
  {other : Except ε γ}

/-- Equal steps have the same outcome. -/
theorem of_eq {step other : Except ε α} (h : step = other) :
    SameOutcome (fun result other : α => result = other) step other := by
  subst h
  cases step with
  | error cause => exact .error cause
  | ok result => exact .ok rfl

/-- Steps with the same outcome, and equal results, are equal. -/
theorem eq {step other : Except ε α}
    (h : SameOutcome (fun result other : α => result = other) step other) : step = other := by
  cases h with
  | error cause => rfl
  | ok h => rw [h]

/-- Outcomes that are related are related in every weaker way. -/
theorem mono {weaker : α → γ → Prop} (h : SameOutcome related step other)
    (hweaker : ∀ result other, related result other → weaker result other) :
    SameOutcome weaker step other := by
  cases h with
  | error cause => exact .error cause
  | ok h => exact .ok (hweaker _ _ h)

/-- What comes next may rely on what the steps gave. -/
theorem bind (h : SameOutcome related step other) {next : α → Except ε β} {next' : γ → Except ε δ}
    (hnext : ∀ middle middle', step = .ok middle → other = .ok middle' → related middle middle' →
      SameOutcome related' (next middle) (next' middle')) :
    SameOutcome related' (step >>= next) (other >>= next') := by
  cases h with
  | error cause => exact .error cause
  | ok h => exact hnext _ _ rfl rfl h

/-- After one and the same step only what comes next counts. -/
theorem bind_same {step : Except ε α} {next : α → Except ε β} {next' : α → Except ε δ}
    (hnext : ∀ middle, step = .ok middle → SameOutcome related' (next middle) (next' middle)) :
    SameOutcome related' (step >>= next) (step >>= next') := by
  cases step with
  | error cause => exact .error cause
  | ok middle => exact hnext middle rfl

/-- If a change forgets the difference between related results, the outcomes become the same. -/
theorem map (h : SameOutcome related step other) {change : α → β} {change' : γ → β}
    (hchange : ∀ result result', related result result' → change result = change' result') :
    step.map change = other.map change' := by
  cases h with
  | error cause => rfl
  | ok h => exact congrArg Except.ok (hchange _ _ h)

/-- The same outcome stays the same when the causes of failures are changed. -/
theorem mapError {ζ : Type} (h : SameOutcome related step other) (change : ε → ζ) :
    SameOutcome related (step.mapError change) (other.mapError change) := by
  cases h with
  | error cause => exact .error (change cause)
  | ok h => exact .ok h

/-- Lists of steps give lists of related results. -/
theorem mapM {κ : Type} {items : List κ} {step : κ → Except ε α} {other : κ → Except ε γ}
    (h : ∀ item ∈ items, SameOutcome related (step item) (other item)) :
    SameOutcome (List.Forall₂ related) (items.mapM step) (items.mapM other) := by
  induction items with
  | nil => exact .ok .nil
  | cons item items ih =>
    rw [List.forall_mem_cons] at h
    rw [List.mapM_cons, List.mapM_cons]
    refine h.1.bind fun first first' _ _ hfirst => ?_
    refine (ih h.2).bind fun rest rest' _ _ hrest => ?_
    exact .ok (.cons hfirst hrest)

end SameOutcome

/-- Searches find the same if the places in which they look give the same one by one. -/
theorem findSomeM?_forall₂ {search : α → Except ε (Option β)} {search' : γ → Except ε (Option β)}
    {places : List α} {places' : List γ}
    (h : List.Forall₂ (fun place place' => search place = search' place') places places') :
    places.findSomeM? search = places'.findSomeM? search' := by
  induction h with
  | nil => rfl
  | cons hfirst _ ih => rw [List.findSomeM?_cons, List.findSomeM?_cons, hfirst, ih]

end NativeHeaders.Fallible
