import Filestick.Lib.Prog

/-!
# Programs that run among others

`p.Finishes R s a t` says that the program `p`, started in the state `s`, may return `a` in the
state `t` when the other parties make moves of `R` between its accesses.

* `Safe.finishes`: what is shown of a program that is interrupted holds when it returns.
* `finishes_of_alone`: a program that comes to its end by itself does so among parties that may do
  nothing.
-/

namespace Filestick

namespace Prog

variable {σ ℓ α : Type}

/-- The program may return, with moves of the others before each access and at the end. -/
inductive Finishes (R : σ → σ → Prop) : Prog σ ℓ α → σ → α → σ → Prop
  | ret {a : α} {s t : σ} (hr : R s t) : Finishes R (.ret a) s a t
  | step {p : Prog σ ℓ α} {s s' t : σ} {a : α} (hr : R s s') (hp : p.next.isSome = true)
    (h : Finishes R (p.advance s').1 (p.advance s').2 a t) : Finishes R p s a t

variable {R : σ → σ → Prop}

/-- **By itself, and among others.** -/
theorem finishes_of_alone (hR : ∀ s, R s s) {p : Prog σ ℓ α} {s t : σ} {a : α}
    (h : p.alone s = some (a, t)) : p.Finishes R s a t := by
  induction p generalizing s with
  | ret b =>
    obtain ⟨rfl, rfl⟩ : b = a ∧ s = t := by simpa [alone] using h
    exact .ret (hR s)
  | act l f k ih => exact .step (hR s) rfl (ih s h)
  | poll all rest last exit k ih =>
    simp only [alone] at h
    split at h
    · exact absurd h (by simp)
    · next hno =>
      rw [Bool.not_eq_true, Bool.or_eq_false_iff] at hno
      obtain ⟨hrest, hlast⟩ := hno
      -- the reads that are left all fail, one after the other
      induction rest with
      | nil =>
        refine .step (hR s) rfl ?_
        simp only [advance, hlast, Bool.false_eq_true, if_false]
        exact ih h
      | cons c rest ihr =>
        rw [List.any_cons, Bool.or_eq_false_iff] at hrest
        refine .step (hR s) rfl ?_
        simp only [advance, hrest.1, Bool.false_eq_true, if_false]
        exact ihr hrest.2

end Prog

/-- **What is shown of a program that is interrupted** holds when it returns. -/
theorem Safe.finishes {σ ℓ α : Type} {T : Contract σ} {cond guar : ℓ → σ → Prop}
    (hcond : ∀ l s, cond l s) {R : σ → σ → Prop}
    (hR : ∀ s s', T.inv s → R s s' → T.inv s' ∧ T.rely s s') {Q : α → σ → Prop} {p : Prog σ ℓ α}
    {s t : σ} {a : α} (h : Safe T cond guar Q p s) (hs : T.inv s) (hf : p.Finishes R s a t) :
    Q a t := by
  induction hf with
  | ret hr =>
    obtain ⟨hi, hrely⟩ := hR _ _ hs hr
    exact h _ hrely hi
  | step hr _ _ ih =>
    obtain ⟨hi, hrely⟩ := hR _ _ hs hr
    obtain ⟨-, hi', h'⟩ := Interrupted.safe_advance hi (h.rely hrely) fun l _ => hcond l _
    exact ih h' hi'

end Filestick
