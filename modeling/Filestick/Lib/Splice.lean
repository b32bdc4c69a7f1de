import Mathlib.Data.List.Basic

/-!
# Writing into a list

`splice l p d` is the list `l` after `d` has been written from position `p` on.  It grows when `d`
reaches past its end.
-/

namespace Filestick.Splice

variable {α : Type*}

/-- The list `l` after `d` has been written at `p`. -/
def splice (l : List α) (p : ℕ) (d : List α) : List α := l.take p ++ d ++ l.drop (p + d.length)

theorem length_splice {l : List α} {p : ℕ} (hp : p ≤ l.length) (d : List α) :
    (splice l p d).length = max l.length (p + d.length) := by
  unfold splice
  rw [List.length_append, List.length_append, List.length_take_of_le hp, List.length_drop]
  omega

@[simp] theorem splice_nil (l : List α) (p : ℕ) : splice l p [] = l := by
  rw [splice, List.append_nil]
  exact List.take_append_drop p l

/-- A write at the end is an addition. -/
theorem splice_length (l d : List α) : splice l l.length d = l ++ d := by
  rw [splice, List.take_length, List.drop_eq_nil_of_le (Nat.le_add_right _ _), List.append_nil]

/-- A write adds to the list at its end only. -/
theorem splice_eq_append_iff {l : List α} {p : ℕ} (hp : p ≤ l.length) (d : List α) :
    splice l p d = l ++ d ↔ p = l.length ∨ d = [] := by
  constructor
  · intro h
    have hlen := congrArg List.length h
    rw [length_splice hp, List.length_append] at hlen
    by_cases hd : d = []
    · exact Or.inr hd
    · have hpos := List.length_pos_iff.mpr hd
      left
      omega
  · rintro (rfl | rfl)
    · exact splice_length l d
    · rw [splice_nil, List.append_nil]

end Filestick.Splice
