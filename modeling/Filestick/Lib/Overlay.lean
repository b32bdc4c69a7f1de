import Mathlib.Data.List.Basic

/-!
# Memories and writes

A memory is a function from addresses.  `overlay m a l` is the memory `m` after the list `l` has
been written from address `a` on, and `slice m a n` reads `n` cells from address `a`.
-/

namespace Filestick.Overlay

variable {α : Type*}

/-- The memory `m` after `l` has been written at `a`. -/
def overlay (m : ℕ → α) (a : ℕ) (l : List α) : ℕ → α :=
  fun x => if a ≤ x then (l[x - a]?).getD (m x) else m x

/-- The `n` cells from `a` on. -/
def slice (m : ℕ → α) (a n : ℕ) : List α := (List.range n).map fun k => m (a + k)

@[simp] theorem length_slice (m : ℕ → α) (a n : ℕ) : (slice m a n).length = n := by simp [slice]

theorem getElem?_slice (m : ℕ → α) {a n k : ℕ} (hk : k < n) :
    (slice m a n)[k]? = some (m (a + k)) := by
  simp [slice, hk]

@[simp] theorem overlay_nil (m : ℕ → α) (a : ℕ) : overlay m a [] = m := by
  funext x
  simp [overlay]

theorem overlay_of_lt (m : ℕ → α) {a x : ℕ} (l : List α) (h : x < a) : overlay m a l x = m x :=
  if_neg (by omega)

theorem overlay_of_ge (m : ℕ → α) {a x : ℕ} (l : List α) (h : a + l.length ≤ x) :
    overlay m a l x = m x := by
  unfold overlay
  split
  · rw [List.getElem?_eq_none (by omega)]; rfl
  · rfl

theorem overlay_of_mem (m : ℕ → α) {a x : ℕ} {l : List α} (h1 : a ≤ x)
    (h2 : x < a + l.length) (d : α) :
    overlay m a l x = l.getD (x - a) d := by
  rw [overlay, if_pos h1, List.getD_eq_getElem?_getD, List.getElem?_eq_getElem (by omega)]
  rfl

/-- Two writes in a row are one. -/
theorem overlay_append (m : ℕ → α) (a : ℕ) (l l' : List α) :
    overlay (overlay m a l) (a + l.length) l' = overlay m a (l ++ l') := by
  funext x
  unfold overlay
  by_cases h1 : a + l.length ≤ x
  · have h2 : a ≤ x := by omega
    rw [if_pos h1, if_pos h2, if_pos h2, List.getElem?_append_right (by omega),
      List.getElem?_eq_none (l := l) (by omega)]
    congr 2
    omega
  · rw [if_neg h1]
    by_cases h2 : a ≤ x
    · rw [if_pos h2, if_pos h2, List.getElem?_append_left (by omega)]
    · rw [if_neg h2, if_neg h2]

/-- A write into a list that is itself written. -/
theorem overlay_splice (m : ℕ → α) (a k : ℕ) {b l : List α} (h : k + l.length ≤ b.length) :
    overlay m a (b.take k ++ l ++ b.drop (k + l.length)) = overlay (overlay m a b) (a + k) l := by
  funext x
  unfold overlay
  by_cases h1 : a + k ≤ x
  · have h2 : a ≤ x := by omega
    rw [if_pos h1, if_pos h2, if_pos h2, List.append_assoc,
      List.getElem?_append_right (by rw [List.length_take]; omega), List.length_take]
    have hk : x - a - min k b.length = x - (a + k) := by omega
    rw [hk]
    by_cases h3 : x - (a + k) < l.length
    · rw [List.getElem?_append_left h3, List.getElem?_eq_getElem h3]
      rfl
    · have hx : k + l.length + (x - (a + k) - l.length) = x - a := by omega
      rw [List.getElem?_append_right (by omega), List.getElem?_drop,
        List.getElem?_eq_none (l := l) (by omega), hx]
      rfl
  · rw [if_neg h1]
    by_cases h2 : a ≤ x
    · rw [if_pos h2, if_pos h2, List.append_assoc,
        List.getElem?_append_left (by rw [List.length_take]; omega),
        List.getElem?_take_of_lt (by omega)]
    · rw [if_neg h2, if_neg h2]

/-- Writing back what is there changes nothing. -/
theorem overlay_slice (m : ℕ → α) (a n : ℕ) : overlay m a (slice m a n) = m := by
  funext x
  by_cases h1 : a ≤ x
  · by_cases h2 : x < a + n
    · rw [overlay, if_pos h1, getElem?_slice m (by omega), Option.getD_some]
      congr 1
      omega
    · exact overlay_of_ge m _ (by simpa using h2)
  · exact overlay_of_lt m _ (by omega)

end Filestick.Overlay
