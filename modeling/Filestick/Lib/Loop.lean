import Mathlib.Data.Option.Basic
import Mathlib.Order.Nat

/-!
# Loops that may not end

The body of a loop takes a state to the state of the next turn or to the result; it is `none` where
the body does not come back itself.  `loop body n s` is the result of the loop from `s` on, if it
takes at most `n` turns.

* `loop_turn`, `loop_end`, `loop_cases`: one turn.
* `loop_mono`, `loop_unique`: the number of turns that are allowed does not change the result.
* `loop_of_variant`: a loop ends if its turns keep an invariant and make a number smaller.
* `loop_partial`: what its turns keep holds at its end, if there is one.
* `loop_eq_none`: a loop does not end if its turns keep an invariant that allows no last turn.
-/

namespace Filestick.Loop

variable {σ α : Type*}

/-- The result of at most `n` turns. -/
def loop (body : σ → Option (σ ⊕ α)) : ℕ → σ → Option α
  | 0, _ => none
  | n + 1, s =>
    match body s with
    | none => none
    | some (.inl s') => loop body n s'
    | some (.inr a) => some a

variable {body : σ → Option (σ ⊕ α)} {s s' : σ} {a a' : α} {m n : ℕ}

/-- Another turn. -/
theorem loop_turn (h : body s = some (.inl s')) (n : ℕ) :
    loop body (n + 1) s = loop body n s' := by
  rw [loop, h]

/-- The last turn. -/
theorem loop_end (h : body s = some (.inr a)) (n : ℕ) : loop body (n + 1) s = some a := by
  rw [loop, h]

/-- The first turn of a loop that ends. -/
theorem loop_cases (h : loop body n s = some a) :
    ∃ m, n = m + 1 ∧
      ((∃ s', body s = some (.inl s') ∧ loop body m s' = some a) ∨ body s = some (.inr a)) := by
  cases n with
  | zero => exact nomatch h
  | succ m =>
    rw [loop] at h
    cases hbody : body s with
    | none =>
      rw [hbody] at h
      exact nomatch h
    | some r =>
      rw [hbody] at h
      cases r with
      | inl s' => exact ⟨m, rfl, Or.inl ⟨s', rfl, h⟩⟩
      | inr b => exact ⟨m, rfl, Or.inr (congrArg (some ∘ Sum.inr) (Option.some.inj h))⟩

theorem loop_mono (h : loop body n s = some a) (hle : n ≤ m) : loop body m s = some a := by
  induction m generalizing s n with
  | zero =>
    obtain ⟨k, rfl, -⟩ := loop_cases h
    omega
  | succ m ih =>
    obtain ⟨k, rfl, ⟨s', hnext, hs'⟩ | hlast⟩ := loop_cases h
    · rw [loop_turn hnext]
      exact ih hs' (Nat.le_of_succ_le_succ hle)
    · exact loop_end hlast m

/-- There is one result. -/
theorem loop_unique (h : loop body n s = some a) (h' : loop body m s = some a') : a = a' := by
  have hmax := loop_mono h (Nat.le_max_left n m)
  rw [loop_mono h' (Nat.le_max_right n m)] at hmax
  exact (Option.some.inj hmax).symm

variable {I : σ → Prop} {Q : α → Prop}

/-- **Termination**: every turn is the last one, or makes the variant smaller. -/
theorem loop_of_variant (variant : σ → ℕ)
    (hturn : ∀ s, I s → (∃ s', body s = some (.inl s') ∧ I s' ∧ variant s' < variant s) ∨
      ∃ a, body s = some (.inr a) ∧ Q a)
    (hs : I s) (hn : variant s < n) : ∃ a, loop body n s = some a ∧ Q a := by
  induction n generalizing s with
  | zero => exact absurd hn (Nat.not_lt_zero _)
  | succ n ih =>
    rcases hturn s hs with ⟨s', hnext, hs', hlt⟩ | ⟨a, hlast, ha⟩
    · rw [loop_turn hnext]
      exact ih hs' (Nat.lt_of_lt_of_le hlt (Nat.le_of_lt_succ hn))
    · exact ⟨a, loop_end hlast n, ha⟩

/-- **Partial correctness**: the invariant holds until the last turn. -/
theorem loop_partial (hturn : ∀ s s', I s → body s = some (.inl s') → I s')
    (hend : ∀ s a, I s → body s = some (.inr a) → Q a) (hs : I s) (h : loop body n s = some a) :
    Q a := by
  induction n generalizing s with
  | zero => exact nomatch h
  | succ n ih =>
    obtain ⟨m, hm, ⟨s', hnext, hs'⟩ | hlast⟩ := loop_cases h
    · obtain rfl := Nat.succ.inj hm
      exact ih (hturn s s' hs hnext) hs'
    · exact hend s a hs hlast

/-- **Divergence**: no turn is the last one. -/
theorem loop_eq_none (hturn : ∀ s, I s → body s = none ∨ ∃ s', body s = some (.inl s') ∧ I s')
    (hs : I s) (n : ℕ) : loop body n s = none := by
  induction n generalizing s with
  | zero => rfl
  | succ n ih =>
    rcases hturn s hs with hnone | ⟨s', hnext, hs'⟩
    · rw [loop, hnone]
    · rw [loop_turn hnext]
      exact ih hs'

end Filestick.Loop
