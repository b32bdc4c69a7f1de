import Mathlib.Data.List.Basic

/-!
# Clocked machines

A clocked machine is a transition function `step : σ → ι → σ`.  `run step s is` is the state after
the inputs `is`, and `trace step out s is` lists what `out` shows after each of them.

* `run_append`, `trace_append`: a run over two input lists is the run over the second one from where
  the first one ended.
* `StepsMeet step C s is`: each step of the run is taken in a state and on an input that meet `C`.
* `RunsTo step C P s is`: and the run ends in a state with `P`.
* `stepsMeet_congr`: two conditions that agree on every step agree on every run.
* `run_invariant`: a predicate that holds at the start and is kept by every step that meets `C`
  holds after every run whose steps all meet `C`.
* `trace_eq_of_bisim`: states in a bisimulation have the same traces.
-/

namespace Filestick.Machine

variable {σ ι ο : Type*}

/-- The state after the inputs `is`. -/
def run (step : σ → ι → σ) (s : σ) (is : List ι) : σ := is.foldl step s

/-- What `out` shows after each input. -/
def trace (step : σ → ι → σ) (out : σ → ο) : σ → List ι → List ο
  | _, [] => []
  | s, i :: is => out (step s i) :: trace step out (step s i) is

/-- Every step of the run from `s` meets `C` (the state before the step, and its input). -/
def StepsMeet (step : σ → ι → σ) (C : σ → ι → Prop) : σ → List ι → Prop
  | _, [] => True
  | s, i :: is => C s i ∧ StepsMeet step C (step s i) is

variable {step : σ → ι → σ} {out : σ → ο} {s : σ}

@[simp] theorem run_nil : run step s [] = s := rfl

@[simp] theorem run_cons (i : ι) (is : List ι) :
    run step s (i :: is) = run step (step s i) is := rfl

@[simp] theorem trace_nil : trace step out s [] = [] := rfl

@[simp] theorem trace_cons (i : ι) (is : List ι) :
    trace step out s (i :: is) = out (step s i) :: trace step out (step s i) is := rfl

theorem run_append (is js : List ι) : run step s (is ++ js) = run step (run step s is) js :=
  List.foldl_append

theorem trace_append (is js : List ι) :
    trace step out s (is ++ js) = trace step out s is ++ trace step out (run step s is) js := by
  induction is generalizing s with
  | nil => rfl
  | cons i is ih => rw [List.cons_append, trace_cons, ih, trace_cons, List.cons_append, run_cons]

instance decidableStepsMeet {C : σ → ι → Prop} [∀ s i, Decidable (C s i)] :
    ∀ (s : σ) (is : List ι), Decidable (StepsMeet step C s is)
  | _, [] => isTrue trivial
  | s, i :: is =>
    have := decidableStepsMeet (C := C) (step s i) is
    inferInstanceAs (Decidable (C s i ∧ StepsMeet step C (step s i) is))

theorem stepsMeet_append {C : σ → ι → Prop} (is js : List ι) :
    StepsMeet step C s (is ++ js) ↔ StepsMeet step C s is ∧
    StepsMeet step C (run step s is) js := by
  induction is generalizing s with
  | nil => exact ⟨fun h => ⟨trivial, h⟩, fun h => h.2⟩
  | cons i is ih => exact (and_congr_right fun _ => ih).trans (and_assoc).symm

/-- Every step of the run meets `C`, and it ends in a state with `P`. -/
def RunsTo (step : σ → ι → σ) (C : σ → ι → Prop) (P : σ → Prop) : σ → List ι → Prop
  | s, [] => P s
  | s, i :: is => C s i ∧ RunsTo step C P (step s i) is

theorem RunsTo.run {C : σ → ι → Prop} {P : σ → Prop} {is : List ι} (h : RunsTo step C P s is) :
    P (run step s is) := by
  induction is generalizing s with
  | nil => exact h
  | cons i is ih => exact ih h.2

theorem RunsTo.stepsMeet {C : σ → ι → Prop} {P : σ → Prop} {is : List ι}
    (h : RunsTo step C P s is) : StepsMeet step C s is := by
  induction is generalizing s with
  | nil => trivial
  | cons i is ih => exact ⟨h.1, ih h.2⟩

instance decidableRunsTo {C : σ → ι → Prop} {P : σ → Prop} [∀ s i, Decidable (C s i)]
    [∀ s, Decidable (P s)] : ∀ (s : σ) (is : List ι), Decidable (RunsTo step C P s is)
  | s, [] => inferInstanceAs (Decidable (P s))
  | s, i :: is =>
    have := decidableRunsTo (C := C) (P := P) (step s i) is
    inferInstanceAs (Decidable (C s i ∧ RunsTo step C P (step s i) is))

/-- Two conditions that agree on every step agree on every run. -/
theorem stepsMeet_congr {C D : σ → ι → Prop} (h : ∀ s i, C s i ↔ D s i) (s : σ) (is : List ι) :
    StepsMeet step C s is ↔ StepsMeet step D s is := by
  induction is generalizing s with
  | nil => exact Iff.rfl
  | cons i is ih => exact and_congr (h s i) (ih (step s i))

/-- **Invariant rule**: what one step keeps, given that it meets `C`, a whole run keeps. -/
theorem run_invariant {C : σ → ι → Prop} {I : σ → Prop}
    (hstep : ∀ s i, I s → C s i → I (step s i)) :
    ∀ (is : List ι) (s : σ), I s → StepsMeet step C s is → I (run step s is) := by
  intro is
  induction is with
  | nil => intro s hs _; exact hs
  | cons i is ih => intro s hs hc; exact ih _ (hstep s i hs hc.1) hc.2

/-- The invariant rule where nothing is asked of the inputs. -/
theorem run_invariant_of_step {I : σ → Prop} (hstep : ∀ s i, I s → I (step s i)) (is : List ι)
    (hs : I s) : I (run step s is) := by
  induction is generalizing s with
  | nil => exact hs
  | cons i is ih => exact ih (hstep s i hs)

/-- **Bisimulation**: states that show the same after every input, and stay related, show the same
over every run. -/
theorem trace_eq_of_bisim {R : σ → σ → Prop}
    (hstep : ∀ s t i, R s t → out (step s i) = out (step t i) ∧ R (step s i) (step t i)) {t : σ}
    (h : R s t) (is : List ι) : trace step out s is = trace step out t is := by
  induction is generalizing s t with
  | nil => rfl
  | cons i is ih =>
    obtain ⟨hout, hnext⟩ := hstep s t i h
    rw [trace_cons, trace_cons, hout, ih hnext]

end Filestick.Machine
