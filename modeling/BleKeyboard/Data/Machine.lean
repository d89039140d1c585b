import Mathlib.Data.List.Basic
import Mathlib.Logic.Function.Iterate
import Mathlib.Tactic.Common

namespace BleKeyboard.Data

/-! Runs of a deterministic machine.

A machine is a step function from a state and an input to the next state.  The
rules below carry an invariant along a run, and relate a property required of
every state of a run to a condition required of each of its steps. -/

variable {σ ι : Type*} (step : σ → ι → σ)

/-- The state a machine reaches from `start` on a list of inputs. -/
def run (start : σ) (inputs : List ι) : σ :=
  inputs.foldl step start

@[simp] theorem run_nil (start : σ) : run step start [] = start := rfl

@[simp] theorem run_cons (start : σ) (input : ι) (rest : List ι) :
    run step start (input :: rest) = run step (step start input) rest := rfl

@[simp] theorem run_append (start : σ) (before after : List ι) :
    run step start (before ++ after) = run step (run step start before) after :=
  List.foldl_append

/-- Every step of the run meets `guard` in the state it is taken from. -/
def Guarded (guard : σ → ι → Prop) : σ → List ι → Prop
  | _, [] => True
  | state, input :: rest => guard state input ∧ Guarded guard (step state input) rest

/-- Every state of the run, the first and the last included, satisfies `good`. -/
def Throughout (good : σ → Prop) : σ → List ι → Prop
  | state, [] => good state
  | state, input :: rest => good state ∧ Throughout good (step state input) rest

variable {step}

instance (guard : σ → ι → Prop) [∀ state input, Decidable (guard state input)] :
    ∀ start inputs, Decidable (Guarded step guard start inputs)
  | _, [] => .isTrue trivial
  | start, input :: rest =>
      have := instDecidableGuarded guard (step start input) rest
      inferInstanceAs (Decidable (guard start input ∧ Guarded step guard (step start input) rest))

instance (good : σ → Prop) [∀ state, Decidable (good state)] :
    ∀ start inputs, Decidable (Throughout step good start inputs)
  | start, [] => inferInstanceAs (Decidable (good start))
  | start, input :: rest =>
      have := instDecidableThroughout good (step start input) rest
      inferInstanceAs (Decidable (good start ∧ Throughout step good (step start input) rest))

theorem Guarded.mono {weak strong : σ → ι → Prop}
    (weaker : ∀ state input, strong state input → weak state input)
    {start : σ} {inputs : List ι} (guarded : Guarded step strong start inputs) :
    Guarded step weak start inputs := by
  induction inputs generalizing start with
  | nil => trivial
  | cons input rest ih => exact ⟨weaker _ _ guarded.1, ih guarded.2⟩

/-- The invariant rule: what every guarded step preserves holds after a guarded run. -/
theorem run_invariant {inv : σ → Prop} {guard : σ → ι → Prop}
    (preserved : ∀ state input, inv state → guard state input → inv (step state input))
    {start : σ} {inputs : List ι} (initial : inv start)
    (guarded : Guarded step guard start inputs) :
    inv (run step start inputs) := by
  induction inputs generalizing start with
  | nil => exact initial
  | cons input rest ih => exact ih (preserved start input initial guarded.1) guarded.2

theorem run_preserves {inv : σ → Prop}
    (preserved : ∀ state input, inv state → inv (step state input))
    {start : σ} (initial : inv start) (inputs : List ι) : inv (run step start inputs) := by
  induction inputs generalizing start with
  | nil => exact initial
  | cons input rest ih => exact ih (preserved start input initial)

/-- The two-run rule: steps on matching inputs keep two machines related. -/
theorem run_related {τ κ : Type*} {step' : τ → κ → τ} {related : σ → τ → Prop}
    {matching : ι → κ → Prop}
    (preserved : ∀ first second input input', related first second → matching input input' →
      related (step first input) (step' second input'))
    {first : σ} {second : τ} (initial : related first second) {inputs : List ι} {inputs' : List κ}
    (match' : List.Forall₂ matching inputs inputs') : related (run step first inputs)
    (run step' second inputs') := by
  induction match' generalizing first second with
  | nil => exact initial
  | cons head _ ih => exact ih (preserved _ _ _ _ initial head)

theorem Throughout.first {good : σ → Prop} {start : σ} {inputs : List ι}
    (throughout : Throughout step good start inputs) : good start := by
  cases inputs with
  | nil => exact throughout
  | cons input rest => exact throughout.1

theorem Throughout.last {good : σ → Prop} {start : σ} {inputs : List ι}
    (throughout : Throughout step good start inputs) : good (run step start inputs) := by
  induction inputs generalizing start with
  | nil => exact throughout
  | cons input rest ih => exact ih throughout.2

theorem guarded_congr {first second : σ → ι → Prop}
    (same : ∀ state input, first state input ↔ second state input)
    {start : σ} {inputs : List ι} : Guarded step first start inputs ↔
      Guarded step second start inputs :=
  ⟨Guarded.mono fun state input => (same state input).mp,
    Guarded.mono fun state input => (same state input).mpr⟩

theorem guarded_trivial {guard : σ → ι → Prop}
    (holds : ∀ state input, guard state input) (start : σ)
    (inputs : List ι) : Guarded step guard start inputs := by
  induction inputs generalizing start with
  | nil => trivial
  | cons input rest ih => exact ⟨holds start input, ih _⟩

theorem guarded_append {guard : σ → ι → Prop} {start : σ} {before after : List ι} :
    Guarded step guard start (before ++ after) ↔
      Guarded step guard start before ∧ Guarded step guard (run step start before) after := by
  induction before generalizing start with
  | nil => simp [Guarded]
  | cons input rest ih => simp only [List.cons_append, Guarded, run_cons, ih, and_assoc]

theorem Guarded.and {first second : σ → ι → Prop} {start : σ} {inputs : List ι} :
    Guarded step (fun state input => first state input ∧ second state input) start inputs ↔
      Guarded step first start inputs ∧ Guarded step second start inputs := by
  induction inputs generalizing start with
  | nil => simp [Guarded]
  | cons input rest ih =>
      simp only [Guarded, ih]
      tauto

theorem Throughout.guarded_next {good : σ → Prop} {start : σ} {inputs : List ι}
    (throughout : Throughout step good start inputs) :
    Guarded step (fun state input => good (step state input)) start inputs := by
  induction inputs generalizing start with
  | nil => trivial
  | cons input rest ih => exact ⟨throughout.2.first, ih throughout.2⟩

theorem throughout_of_guarded {inv good : σ → Prop} {guard : σ → ι → Prop}
    (sound : ∀ state, inv state → good state)
    (preserved : ∀ state input, inv state → guard state input → inv (step state input))
    {start : σ} (initial : inv start) {inputs : List ι}
    (guarded : Guarded step guard start inputs) :
    Throughout step good start inputs := by
  induction inputs generalizing start with
  | nil => exact sound start initial
  | cons input rest ih =>
      exact ⟨sound start initial, ih (preserved start input initial guarded.1) guarded.2⟩

/-- Among the allowed steps, let the guarded ones lead to a good state and the others not.  Then the
allowed runs that are good throughout are exactly the guarded ones. -/
theorem throughout_iff_guarded {inv good : σ → Prop} {allowed guard : σ → ι → Prop}
    (sound : ∀ state, inv state → good state)
    (preserved : ∀ state input, inv state → allowed state input → guard state input →
      inv (step state input))
    (necessary : ∀ state input, inv state → allowed state input → good (step state input) →
      guard state input)
    {start : σ} (initial : inv start) {inputs : List ι}
    (permitted : Guarded step allowed start inputs) :
    Throughout step good start inputs ↔ Guarded step guard start inputs := by
  induction inputs generalizing start with
  | nil => simp [Throughout, Guarded, sound start initial]
  | cons input rest ih =>
      constructor
      · intro given
        rcases given with ⟨_, later⟩
        have guarded := necessary start input initial permitted.1 later.first
        exact ⟨guarded,
          (ih (preserved start input initial permitted.1 guarded) permitted.2).mp later⟩
      · intro given
        rcases given with ⟨guarded, later⟩
        exact ⟨sound start initial,
          (ih (preserved start input initial permitted.1 guarded) permitted.2).mpr later⟩

/-- The loop rule: when every pass that does not finish
lowers a measure, some number of passes finishes. -/
theorem exists_iterate_done {pass : σ → σ} {inv done : σ → Prop} (measure : σ → Nat)
    (progress : ∀ state, inv state → ¬done state →
      inv (pass state) ∧ measure (pass state) < measure state)
    {start : σ} (initial : inv start) :
      ∃ count, inv (pass^[count] start) ∧ done (pass^[count] start) := by
  generalize size : measure start = bound
  induction bound using Nat.strongRecOn generalizing start with
  | ind bound ih =>
      by_cases finished : done start
      · exact ⟨0, initial, finished⟩
      · rcases progress start initial finished with ⟨kept, lower⟩
        rcases ih _ (size ▸ lower) kept rfl with ⟨count, held, ended⟩
        exact ⟨count + 1, held, ended⟩

end BleKeyboard.Data
