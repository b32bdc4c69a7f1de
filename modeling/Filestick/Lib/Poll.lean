import Mathlib.Tactic.Common
import Mathlib.Order.Nat

/-!
# Polling a stream

A stream `xs : ℕ → α` is looked at from the place `a` on, until a value with `p` turns up or `n`
values have been looked at.

* `FirstAt xs p a n k`: the first value with `p` is at `k`, among the `n` values from `a` on.
* `firstAt_or`: there is a first one, or none among them.
* `poll`: the last value that is looked at, and the place behind it; `poll_of_firstAt` and
  `poll_of_none` say what they are.
* `exists_firstAt_of_poll`: a last value with `p` is the first one.
-/

namespace Filestick.Poll

variable {α : Type*}

/-- The first of the `n` values from `a` on with `p` is at `k`. -/
structure FirstAt (xs : ℕ → α) (p : α → Prop) (a n k : ℕ) : Prop where
  le : a ≤ k
  lt : k < a + n
  found : p (xs k)
  before : ∀ j, a ≤ j → j < k → ¬p (xs j)

/-- The last value that is looked at (or `last` if there is none), and the place behind it. -/
def poll (xs : ℕ → α) (p : α → Prop) [DecidablePred p] : ℕ → α → ℕ → α × ℕ
  | 0, last, a => (last, a)
  | n + 1, _, a => if p (xs a) then (xs a, a + 1) else poll xs p n (xs a) (a + 1)

variable {xs : ℕ → α} {p : α → Prop} {a n k k' : ℕ}

theorem FirstAt.unique (h : FirstAt xs p a n k) (h' : FirstAt xs p a n k') : k = k' := by
  rcases Nat.lt_trichotomy k k' with hlt | heq | hgt
  · exact absurd h.found (h'.before k h.le hlt)
  · exact heq
  · exact absurd h'.found (h.before k' h'.le hgt)

theorem firstAt_self (hn : 0 < n) (h : p (xs a)) : FirstAt xs p a n a :=
  ⟨le_rfl, Nat.lt_add_of_pos_right hn, h, fun _ hle hlt => absurd hlt (Nat.not_lt.mpr hle)⟩

/-- A first value behind one without `p`. -/
theorem FirstAt.cons (h : FirstAt xs p (a + 1) n k) (ha : ¬p (xs a)) :
    FirstAt xs p a (n + 1) k := by
  obtain ⟨hle, hlt, hfound, hbefore⟩ := h
  refine ⟨by omega, by omega, hfound, ?_⟩
  intro j hj hjk
  rcases Nat.eq_or_lt_of_le hj with rfl | hj
  · exact ha
  · exact hbefore j hj hjk

/-- There is a first value with `p` among the `n`, or none of them has it. -/
theorem firstAt_or (xs : ℕ → α) (p : α → Prop) [DecidablePred p] (a n : ℕ) :
    (∃ k, FirstAt xs p a n k) ∨ ∀ k, a ≤ k → k < a + n → ¬p (xs k) := by
  induction n generalizing a with
  | zero => exact Or.inr fun k hle hlt => absurd hlt (Nat.not_lt.mpr hle)
  | succ n ih =>
    by_cases ha : p (xs a)
    · exact Or.inl ⟨a, firstAt_self (Nat.succ_pos n) ha⟩
    · rcases ih (a + 1) with ⟨k, hk⟩ | hnone
      · exact Or.inl ⟨k, hk.cons ha⟩
      · right
        intro k hle hlt
        rcases Nat.eq_or_lt_of_le hle with rfl | hle
        · exact ha
        · exact hnone k hle (by omega)

variable [DecidablePred p]

theorem poll_of_firstAt (h : FirstAt xs p a n k) (last : α) :
    poll xs p n last a = (xs k, k + 1) := by
  induction n generalizing a last with
  | zero => exact absurd h.lt (Nat.not_lt.mpr h.le)
  | succ n ih =>
    rw [poll]
    by_cases ha : p (xs a)
    · obtain rfl := h.unique (firstAt_self (Nat.succ_pos n) ha)
      rw [if_pos ha]
    · rw [if_neg ha]
      have hlt := h.lt
      have hne : k ≠ a := by
        rintro rfl
        exact ha h.found
      have hle := h.le
      exact ih ⟨by omega, by omega, h.found, fun j hj => h.before j (by omega)⟩ (xs a)

theorem poll_of_none (h : ∀ k, a ≤ k → k < a + n → ¬p (xs k)) {last : α} (hlast : ¬p last) :
    ¬p (poll xs p n last a).1 ∧ (poll xs p n last a).2 = a + n := by
  induction n generalizing a last with
  | zero => exact ⟨hlast, rfl⟩
  | succ n ih =>
    have ha : ¬p (xs a) := h a le_rfl (by omega)
    rw [poll, if_neg ha]
    obtain ⟨hvalue, hplace⟩ := ih (a := a + 1) (fun k hle hlt => h k (by omega) (by omega)) ha
    exact ⟨hvalue, by rw [hplace]; omega⟩

/-- If `p` holds at the end, it does so for the first time. -/
theorem exists_firstAt_of_poll {last : α} (h : p (poll xs p (n + 1) last a).1) :
    ∃ k, FirstAt xs p a (n + 1) k := by
  rcases firstAt_or xs p a (n + 1) with hfound | hnone
  · exact hfound
  · have ha : ¬p (xs a) := hnone a le_rfl (Nat.lt_add_of_pos_right (Nat.succ_pos n))
    rw [poll, if_neg ha] at h
    exact absurd h (poll_of_none (fun k hle hlt => hnone k (by omega) (by omega)) ha).1

end Filestick.Poll
