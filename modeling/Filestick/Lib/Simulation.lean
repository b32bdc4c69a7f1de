import Mathlib.Data.List.Basic

/-!
# Simulation of components with calls

A component is a function `call : σ → ι → Option (σ × ο)` from a state and a call to the next state
and what the call returns; `none` stands for a call that does not return.  A specification is a
function `spec : τ → ι → τ × ο` whose calls always return, with a condition `Valid` on the calls
that it is asked.

* `simulates`: when every valid call keeps the relation `R` and returns the same, every run of valid
  calls does, and each of its calls returns.
-/

namespace Filestick.Simulation

variable {σ τ ι ο : Type*}

/-- The state after the calls `is`, and what they return. -/
def run (call : σ → ι → Option (σ × ο)) : σ → List ι → Option (σ × List ο)
  | s, [] => some (s, [])
  | s, i :: is => do
    let (s', o) ← call s i
    let (s'', os) ← run call s' is
    return (s'', o :: os)

/-- The same for the specification. -/
def specRun (spec : τ → ι → τ × ο) : τ → List ι → τ × List ο
  | t, [] => (t, [])
  | t, i :: is =>
    let r := spec t i
    let rs := specRun spec r.1 is
    (rs.1, r.2 :: rs.2)

/-- Each of the calls is valid when it is made. -/
def ValidRun (spec : τ → ι → τ × ο) (Valid : τ → ι → Prop) : τ → List ι → Prop
  | _, [] => True
  | t, i :: is => Valid t i ∧ ValidRun spec Valid (spec t i).1 is

variable {call : σ → ι → Option (σ × ο)} {spec : τ → ι → τ × ο} {Valid : τ → ι → Prop}
  {R : σ → τ → Prop}

/-- **Simulation**: what holds of one call holds of a run. -/
theorem simulates
    (hcall : ∀ s t i, R s t → Valid t i → ∃ s', call s i = some (s', (spec t i).2) ∧
      R s' (spec t i).1) :
    ∀ (is : List ι) (s : σ) (t : τ), R s t → ValidRun spec Valid t is →
      ∃ s', run call s is = some (s', (specRun spec t is).2) ∧ R s' (specRun spec t is).1 := by
  intro is
  induction is with
  | nil => intro s t h _; exact ⟨s, rfl, h⟩
  | cons i is ih =>
    intro s t h hv
    obtain ⟨s', hs', h'⟩ := hcall s t i h hv.1
    obtain ⟨s'', hs'', h''⟩ := ih s' (spec t i).1 h' hv.2
    refine ⟨s'', ?_, h''⟩
    simp [run, hs', hs'', specRun]

theorem specRun_append (t : τ) (is js : List ι) :
    specRun spec t (is ++ js) = ((specRun spec (specRun spec t is).1 js).1,
      (specRun spec t is).2 ++ (specRun spec (specRun spec t is).1 js).2) := by
  induction is generalizing t with
  | nil => rfl
  | cons i is ih => simp [specRun, ih]

theorem validRun_append {t : τ} {is js : List ι} (h : ValidRun spec Valid t (is ++ js)) :
    ValidRun spec Valid t is ∧ ValidRun spec Valid (specRun spec t is).1 js := by
  induction is generalizing t with
  | nil => exact ⟨trivial, h⟩
  | cons i is ih => exact ⟨⟨h.1, (ih h.2).1⟩, (ih h.2).2⟩

theorem run_append {s s' : σ} {is : List ι} {os : List ο} (h : run call s is = some (s', os))
    (js : List ι) :
    run call s (is ++ js) = (run call s' js).map fun r => (r.1, os ++ r.2) := by
  induction is generalizing s os with
  | nil =>
    obtain ⟨rfl, rfl⟩ : s = s' ∧ [] = os := by simpa [run] using h
    simp
  | cons i is ih =>
    cases hc : call s i with
    | none => simp [run, hc] at h
    | some r =>
      cases hr : run call r.1 is with
      | none => simp [run, hc, hr] at h
      | some q =>
        obtain ⟨rfl, rfl⟩ : q.1 = s' ∧ r.2 :: q.2 = os := by simpa [run, hc, hr] using h
        have := ih hr
        simp only [List.cons_append, run, hc, this, Option.bind_eq_bind, Option.bind_some]
        cases run call q.1 js <;> rfl

end Filestick.Simulation
