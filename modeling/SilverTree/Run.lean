import Mathlib.Logic.Function.Basic

/-!
# Runs of a transition function

A component that handles one event at a time is a function `step : σ → ε → σ`; a
run is a first state and a finite list of events.  Two kinds of statements are
made about runs: what holds in every state a run passes through (`Always`), and
what holds of every step it takes (`EachStep`).  The rules below turn such a
statement into one about a single step, each time with an invariant at hand.

## Main definitions

* `Always step P s es` — `P` holds in every state of the run, the first included.
* `EachStep step C s es` — `C` holds of every state of the run and the event
  handled in it.

## Main results

* `always_of_eachStep` — an invariant that every step meeting a condition keeps.
* `always_iff_eachStep` — **a property holds along a run exactly when it holds at
  the start and every step meets a condition**, provided the condition decides
  whether one step keeps the property.
* `eachStep_congr` — two properties of steps agree along a run when they agree in
  every state satisfying an invariant.
* `relation_foldl` — a relation between the states of two components that every step
  keeps holds after every run; `simulation_foldl` for a function of the state.
-/

namespace Run

variable {σ ε : Type*} (step : σ → ε → σ)

/-- `P` holds in every state of the run from `s` over the events `es`, `s` and the
last state included. -/
def Always (P : σ → Prop) : σ → List ε → Prop
  | s, [] => P s
  | s, e :: es => P s ∧ Always P (step s e) es

/-- `C` holds of every step of the run: of the state before the step and the event
handled in it. -/
def EachStep (C : σ → ε → Prop) : σ → List ε → Prop
  | _, [] => True
  | s, e :: es => C s e ∧ EachStep C (step s e) es

@[simp] theorem always_nil (P : σ → Prop) (s : σ) : Always step P s [] ↔ P s := Iff.rfl

@[simp] theorem always_cons (P : σ → Prop) (s : σ) (e : ε) (es : List ε) :
    Always step P s (e :: es) ↔ P s ∧ Always step P (step s e) es := Iff.rfl

@[simp] theorem eachStep_nil (C : σ → ε → Prop) (s : σ) : EachStep step C s [] := trivial

@[simp] theorem eachStep_cons (C : σ → ε → Prop) (s : σ) (e : ε) (es : List ε) :
    EachStep step C s (e :: es) ↔ C s e ∧ EachStep step C (step s e) es := Iff.rfl

variable {step}

theorem Always.mono {P Q : σ → Prop} (hPQ : ∀ s, P s → Q s) :
    ∀ {es : List ε} {s : σ}, Always step P s es → Always step Q s es := by
  intro es
  induction es with
  | nil => intro s h; exact hPQ s h
  | cons e es ih => intro s h; exact ⟨hPQ s h.1, ih h.2⟩

/-- A condition that holds of all steps holds of those of a run. -/
theorem eachStep_of_forall {C : σ → ε → Prop} (h : ∀ s e, C s e) :
    ∀ (es : List ε) (s : σ), EachStep step C s es := by
  intro es
  induction es with
  | nil => intro s; trivial
  | cons e es ih => intro s; exact ⟨h s e, ih _⟩

/-! ### Invariants -/

/-- **The invariant rule under a condition on steps**: what the first state
satisfies and every step meeting `C` keeps holds along every run whose steps meet
`C`. -/
theorem always_of_eachStep {I : σ → Prop} {C : σ → ε → Prop}
    (hstep : ∀ s e, I s → C s e → I (step s e)) :
    ∀ {es : List ε} {s : σ}, I s → EachStep step C s es → Always step I s es := by
  intro es
  induction es with
  | nil => intro s hs _; exact hs
  | cons e es ih => intro s hs hC; exact ⟨hs, ih (hstep s e hs hC.1) hC.2⟩

/-! ### Exact conditions -/

/-- **The exact-condition rule.**  Let `I` be an invariant of all steps and let
`C s e` decide, in a state satisfying `I` and `P`, whether `P` survives the step.
Then `P` holds along a run exactly when it holds at its start and every step
meets `C`. -/
theorem always_iff_eachStep {I P : σ → Prop} {C : σ → ε → Prop}
    (hI : ∀ s e, I s → I (step s e))
    (hC : ∀ s e, I s → P s → (P (step s e) ↔ C s e)) :
    ∀ {es : List ε} {s : σ}, I s → (Always step P s es ↔ P s ∧ EachStep step C s es) := by
  intro es
  induction es with
  | nil => intro s _; simp
  | cons e es ih =>
    intro s hs
    rw [always_cons, eachStep_cons, ih (hI s e hs)]
    -- past the first state both sides speak of the same step
    constructor
    · rintro ⟨hP, hP', hrest⟩
      exact ⟨hP, (hC s e hs hP).mp hP', hrest⟩
    · rintro ⟨hP, hCe, hrest⟩
      exact ⟨hP, (hC s e hs hP).mpr hCe, hrest⟩

/-- Two properties of steps agree along a run when they agree in every state
satisfying `I`, where `I` need only survive the steps that have the second
property. -/
theorem eachStep_congr {I : σ → Prop} {A C : σ → ε → Prop}
    (hI : ∀ s e, I s → C s e → I (step s e))
    (hAC : ∀ s e, I s → (A s e ↔ C s e)) :
    ∀ {es : List ε} {s : σ}, I s → (EachStep step A s es ↔ EachStep step C s es) := by
  intro es
  induction es with
  | nil => intro s _; exact Iff.rfl
  | cons e es ih =>
    intro s hs
    rw [eachStep_cons, eachStep_cons, hAC s e hs]
    refine and_congr_right fun hCe => ?_
    exact ih (hI s e hs hCe)

/-! ### The last state -/

/-- What every step keeps holds in the last state of a run. -/
theorem invariant_foldl {I : σ → Prop} (hstep : ∀ s e, I s → I (step s e)) (es : List ε) {s : σ}
    (hs : I s) : I (es.foldl step s) :=
  List.foldlRecOn es step hs fun s hs e _ => hstep s e hs

/-- **The relation rule**: a relation between the states of two components that every
event keeps relates their states after every run. -/
theorem relation_foldl {τ : Type*} {step' : τ → ε → τ} {R : σ → τ → Prop}
    (hstep : ∀ s t e, R s t → R (step s e) (step' t e)) (es : List ε) :
    ∀ {s : σ} {t : τ}, R s t → R (es.foldl step s) (es.foldl step' t) := by
  induction es with
  | nil => intro s t h; exact h
  | cons e es ih => intro s t h; exact ih (hstep s t e h)

/-- **The simulation rule**: a function of the state that every step from a state
satisfying `I` commutes with commutes with runs. -/
theorem simulation_foldl {τ : Type*} {step' : τ → ε → τ} {f : σ → τ} {I : σ → Prop}
    (hI : ∀ s e, I s → I (step s e)) (hf : ∀ s e, I s → f (step s e) = step' (f s) e)
    (es : List ε) {s : σ} (hs : I s) : f (es.foldl step s) = es.foldl step' (f s) := by
  have hrel : I (es.foldl step s) ∧ f (es.foldl step s) = es.foldl step' (f s) := by
    refine relation_foldl (R := fun s t => I s ∧ f s = t) ?_ es ⟨hs, rfl⟩
    rintro s t e ⟨hs, rfl⟩
    exact ⟨hI s e hs, hf s e hs⟩
  exact hrel.2

end Run
