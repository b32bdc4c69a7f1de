import Mathlib.Algebra.Group.Nat.Defs
import Mathlib.Data.Nat.Log
import Mathlib.Order.GaloisConnection.Defs
import Mathlib.Order.Nat
import Mathlib.Tactic.Common
import Mathlib.Tactic.Ring

/-!
# Classes of sizes in two levels

The sizes between two powers of two are divided into `2 ^ j` classes of the same width.  Below
`2 ^ (j + g)` that would be less than the granule `2 ^ g`, so that the classes there have the width
of the granule.

* `index`: the class of a size, counted from the smallest on.
* `lower`: the smallest size of a class; `lower_le_iff` says that it is one.
* `roundUp`: a size is rounded up before the search; `lower_index_roundUp` is the smallest size that
  it finds then, and `le_of_index_roundUp_le` says why: what it finds is large enough.
-/

namespace Filestick.SizeClass

/-- The number of a size's power of two, above the one of the smallest that is divided. -/
def level (j g n : ℕ) : ℕ := Nat.log 2 n - (j + g)

/-- The width of the classes around a size. -/
def width (j g n : ℕ) : ℕ := 2 ^ (level j g n + g)

/-- The class of a size. -/
def index (j g n : ℕ) : ℕ :=
  if n < 2 ^ (j + g) then n / 2 ^ g else level j g n * 2 ^ j + n / width j g n

/-- The smallest size of a class. -/
def lower (j g k : ℕ) : ℕ :=
  if k < 2 ^ j then k * 2 ^ g else (2 ^ j + k % 2 ^ j) * 2 ^ (k / 2 ^ j - 1 + g)

/-- The size that a search is for. -/
def roundUp (j g n : ℕ) : ℕ := if n < 2 ^ (j + g) then n else n + (width j g n - 1)

variable {j g n k s : ℕ}

/-! ### The width of a class -/

theorem width_pos (j g n : ℕ) : 0 < width j g n := Nat.two_pow_pos _

/-- A size that is divided is between `2 ^ j` widths and twice as many. -/
theorem width_bounds (h : 2 ^ (j + g) ≤ n) :
    2 ^ j * width j g n ≤ n ∧ n < 2 ^ (j + 1) * width j g n := by
  have hne : n ≠ 0 := by
    have := Nat.two_pow_pos (j + g)
    omega
  have hlog : j + g ≤ Nat.log 2 n := (Nat.le_log_iff_pow_le Nat.one_lt_two hne).mpr h
  have hlo := Nat.pow_log_le_self 2 hne
  have hhi := Nat.lt_pow_succ_log_self Nat.one_lt_two n
  have hexp : Nat.log 2 n = j + (level j g n + g) := by unfold level; omega
  constructor
  · rw [width, ← pow_add, ← hexp]
    exact hlo
  · rw [width, ← pow_add, show j + 1 + (level j g n + g) = (Nat.log 2 n).succ by omega]
    exact hhi

/-- The quotient by the width has `j + 1` bits. -/
theorem div_width_bounds (h : 2 ^ (j + g) ≤ n) :
    2 ^ j ≤ n / width j g n ∧ n / width j g n < 2 ^ (j + 1) := by
  obtain ⟨hlo, hhi⟩ := width_bounds h
  exact ⟨(Nat.le_div_iff_mul_le (width_pos j g n)).mpr hlo,
    (Nat.div_lt_iff_lt_mul (width_pos j g n)).mpr hhi⟩

/-! ### The smallest size of a class -/

theorem index_of_lt (h : n < 2 ^ (j + g)) : index j g n = n / 2 ^ g := if_pos h

theorem index_of_le (h : 2 ^ (j + g) ≤ n) :
    index j g n = level j g n * 2 ^ j + n / width j g n :=
  if_neg (Nat.not_lt.mpr h)

/-- The smallest size of a class of the small sizes, and of the first one behind them. -/
theorem lower_of_le (h : k ≤ 2 ^ j) : lower j g k = k * 2 ^ g := by
  rcases Nat.lt_or_eq_of_le h with hlt | rfl
  · exact if_pos hlt
  · rw [lower, if_neg (Nat.lt_irrefl _), Nat.mod_self, Nat.div_self (Nat.two_pow_pos j),
      Nat.sub_self, Nat.zero_add, Nat.add_zero]

/-- The smallest size of a class by its two numbers; the second one may be the first of the next
power of two. -/
theorem lower_mul_add {q r : ℕ} (hr : r ≤ 2 ^ j) :
    lower j g ((q + 1) * 2 ^ j + r) = (2 ^ j + r) * 2 ^ (q + g) := by
  have hpos := Nat.two_pow_pos j
  have hle : 2 ^ j ≤ (q + 1) * 2 ^ j := Nat.le_mul_of_pos_left _ (Nat.succ_pos q)
  rw [lower, if_neg (by omega)]
  rcases Nat.lt_or_eq_of_le hr with hlt | rfl
  · have hdiv : ((q + 1) * 2 ^ j + r) / 2 ^ j = q + 1 := by
      rw [Nat.add_comm, Nat.add_mul_div_right r (q + 1) hpos, Nat.div_eq_of_lt hlt, Nat.zero_add]
    have hmod : ((q + 1) * 2 ^ j + r) % 2 ^ j = r := by
      rw [Nat.add_comm, Nat.add_mul_mod_self_right, Nat.mod_eq_of_lt hlt]
    rw [hdiv, hmod, Nat.add_sub_cancel]
  · have hsum : (q + 1) * 2 ^ j + 2 ^ j = (q + 2) * 2 ^ j := by ring
    rw [hsum, Nat.mul_mod_left, Nat.mul_div_cancel _ hpos, show q + 2 - 1 + g = q + g + 1 by omega,
      pow_succ]
    ring

/-- A class that is not one of the first `2 ^ j` has two numbers. -/
theorem exists_mul_add (h : 2 ^ j ≤ k) : ∃ q r, r < 2 ^ j ∧ k = (q + 1) * 2 ^ j + r := by
  refine ⟨k / 2 ^ j - 1, k % 2 ^ j, Nat.mod_lt _ (Nat.two_pow_pos j), ?_⟩
  have hpos : 1 ≤ k / 2 ^ j := (Nat.one_le_div_iff (Nat.two_pow_pos j)).mpr h
  rw [Nat.sub_add_cancel hpos, Nat.mul_comm, Nat.div_add_mod]

/-- The class of a size that is divided, by its two numbers. -/
theorem index_eq_mul_add (h : 2 ^ (j + g) ≤ n) :
    index j g n = (level j g n + 1) * 2 ^ j + (n / width j g n - 2 ^ j) := by
  have hdiv := (div_width_bounds h).1
  rw [index_of_le h, Nat.add_mul, Nat.one_mul]
  omega

/-- `lower` is the smallest size of a class. -/
theorem lower_le_iff : lower j g k ≤ n ↔ k ≤ index j g n := by
  have hsplit : 2 ^ (j + g) = 2 ^ j * 2 ^ g := pow_add 2 j g
  rcases Nat.lt_or_ge n (2 ^ (j + g)) with hn | hn
  · -- a small size
    rw [index_of_lt hn]
    rcases Nat.lt_or_ge k (2 ^ j) with hk | hk
    · rw [lower_of_le hk.le, Nat.le_div_iff_mul_le (Nat.two_pow_pos g)]
    · obtain ⟨q, r, hr, rfl⟩ := exists_mul_add hk
      rw [lower_mul_add hr.le]
      have hle : 2 ^ j * 2 ^ g ≤ (2 ^ j + r) * 2 ^ (q + g) :=
        Nat.mul_le_mul (Nat.le_add_right _ _) (Nat.pow_le_pow_right Nat.two_pos (by omega))
      have hdiv : n / 2 ^ g < 2 ^ j :=
        (Nat.div_lt_iff_lt_mul (Nat.two_pow_pos g)).mpr (hsplit ▸ hn)
      constructor <;> intro h <;> omega
  · obtain ⟨hlo, hhi⟩ := div_width_bounds hn
    rcases Nat.lt_or_ge k (2 ^ j) with hk | hk
    · -- a class of the small sizes
      rw [lower_of_le hk.le, index_of_le hn]
      have hle : k * 2 ^ g ≤ 2 ^ j * 2 ^ g := Nat.mul_le_mul_right _ hk.le
      constructor <;> intro _ <;> omega
    · obtain ⟨q, r, hr, rfl⟩ := exists_mul_add hk
      rw [lower_mul_add hr.le, index_eq_mul_add hn]
      obtain ⟨hwlo, hwhi⟩ := width_bounds hn
      set e := level j g n
      set t := n / width j g n - 2 ^ j with ht
      have htlt : t < 2 ^ j := by
        rw [pow_succ] at hhi
        omega
      rcases Nat.lt_trichotomy q e with hq | rfl | hq
      · have hpow : 2 ^ (q + 1 + g) ≤ width j g n := Nat.pow_le_pow_right Nat.two_pos (by omega)
        have hupper : (2 ^ j + r) * 2 ^ (q + g) ≤ 2 ^ j * 2 ^ (q + 1 + g) := by
          rw [show q + 1 + g = q + g + 1 by omega, pow_succ, Nat.mul_comm (2 ^ (q + g)) 2,
            ← Nat.mul_assoc]
          exact Nat.mul_le_mul_right _ (by omega)
        have hmul : (q + 1 + 1) * 2 ^ j ≤ (e + 1) * 2 ^ j := Nat.mul_le_mul_right _ (by omega)
        have hexpand : (q + 1 + 1) * 2 ^ j = (q + 1) * 2 ^ j + 2 ^ j := by ring
        constructor
        · intro _
          omega
        · intro _
          exact hupper.trans ((Nat.mul_le_mul_left _ hpow).trans hwlo)
      · -- the same power of two
        rw [Nat.add_le_add_iff_left, ← width, ← Nat.le_div_iff_mul_le (width_pos j g n)]
        omega
      · have hpow : 2 * width j g n ≤ 2 ^ (q + g) := by
          rw [width, Nat.mul_comm, ← pow_succ]
          exact Nat.pow_le_pow_right Nat.two_pos (by omega)
        have hlower : n < (2 ^ j + r) * 2 ^ (q + g) := by
          calc n < 2 ^ (j + 1) * width j g n := hwhi
            _ = 2 ^ j * (2 * width j g n) := by rw [pow_succ, Nat.mul_assoc]
            _ ≤ (2 ^ j + r) * 2 ^ (q + g) := Nat.mul_le_mul (Nat.le_add_right _ _) hpow
        have hmul : (e + 1 + 1) * 2 ^ j ≤ (q + 1) * 2 ^ j := Nat.mul_le_mul_right _ (by omega)
        have hexpand : (e + 1 + 1) * 2 ^ j = (e + 1) * 2 ^ j + 2 ^ j := by ring
        constructor
        · intro h
          omega
        · intro _
          omega

theorem galoisConnection_lower_index (j g : ℕ) : GaloisConnection (lower j g) (index j g) :=
  fun _ _ => lower_le_iff

theorem width_of_lt (h : n < 2 ^ (j + g)) : width j g n = 2 ^ g := by
  have hlog : Nat.log 2 n ≤ j + g := by
    rcases Nat.eq_zero_or_pos n with rfl | hpos
    · rw [Nat.log_zero_right]
      exact Nat.zero_le _
    · exact (Nat.log_lt_of_lt_pow hpos.ne' h).le
  rw [width, level, Nat.sub_eq_zero_of_le hlog, Nat.zero_add]

/-! ### The search -/

/-- The level of a size that is divided. -/
theorem two_pow_level (h : 2 ^ (j + g) ≤ n) :
    2 ^ j * width j g n = 2 ^ Nat.log 2 n ∧ Nat.log 2 n = level j g n + (j + g) := by
  have hne : n ≠ 0 := by
    have := Nat.two_pow_pos (j + g)
    omega
  have hlog : j + g ≤ Nat.log 2 n := (Nat.le_log_iff_pow_le Nat.one_lt_two hne).mpr h
  have hlevel : Nat.log 2 n = level j g n + (j + g) := by
    unfold level
    omega
  refine ⟨?_, hlevel⟩
  rw [width, ← pow_add]
  congr 1
  omega

/-- The class that a search starts with. -/
theorem index_roundUp (h : 2 ^ (j + g) ≤ n) :
    index j g (roundUp j g n) =
      (level j g n + 1) * 2 ^ j + (roundUp j g n / width j g n - 2 ^ j) := by
  obtain ⟨hlo, hhi⟩ := width_bounds h
  obtain ⟨hpow, hlog⟩ := two_pow_level h
  have hpos := width_pos j g n
  have hround : roundUp j g n = n + (width j g n - 1) := if_neg (Nat.not_lt.mpr h)
  have hle : n ≤ roundUp j g n := by omega
  have hge : 2 ^ (j + g) ≤ roundUp j g n := h.trans hle
  have hpow' : 2 ^ (Nat.log 2 n + 1) = 2 ^ j * width j g n * 2 := by rw [pow_succ, hpow]
  rw [pow_succ, Nat.mul_right_comm] at hhi
  rcases Nat.lt_or_ge (roundUp j g n) (2 ^ (Nat.log 2 n + 1)) with hlt | hbig
  · -- the level is the same
    have hsame : Nat.log 2 (roundUp j g n) = Nat.log 2 n :=
      Nat.log_eq_of_pow_le_of_lt_pow (hpow ▸ hlo.trans hle) hlt
    have hlevel : level j g (roundUp j g n) = level j g n := by rw [level, hsame, level]
    rw [index_eq_mul_add hge, width, hlevel, ← width]
  · -- the first class of the next level
    have hwle : width j g n ≤ 2 ^ j * width j g n := Nat.le_mul_of_pos_left _ (Nat.two_pow_pos j)
    have hlog' : Nat.log 2 (roundUp j g n) = Nat.log 2 n + 1 := by
      refine Nat.log_eq_of_pow_le_of_lt_pow hbig ?_
      rw [pow_succ, hpow']
      omega
    have hlevel : level j g (roundUp j g n) = level j g n + 1 := by
      rw [level, hlog', hlog]
      omega
    have hwidth : width j g (roundUp j g n) = width j g n * 2 := by
      rw [width, hlevel, width, ← pow_succ]
      congr 1
      omega
    have hquot : roundUp j g n / width j g n = 2 ^ j * 2 := by
      apply Nat.div_eq_of_lt_le
      · rw [Nat.mul_right_comm, ← hpow']
        exact hbig
      · rw [Nat.add_mul, Nat.mul_right_comm]
        omega
    have hquot' : roundUp j g n / (width j g n * 2) = 2 ^ j := by
      rw [← Nat.div_div_eq_div_mul, hquot, Nat.mul_div_cancel _ Nat.two_pos]
    rw [index_eq_mul_add hge, hwidth, hlevel, hquot, hquot', Nat.add_mul (level j g n + 1)]
    omega

/-- **The smallest size that a search finds** is the size that it is for, rounded up to a multiple
of the width of its class. -/
theorem lower_index_roundUp (hn : 2 ^ g ∣ n) :
    lower j g (index j g (roundUp j g n)) =
      (n + (width j g n - 1)) / width j g n * width j g n := by
  rcases Nat.lt_or_ge n (2 ^ (j + g)) with hlt | hge
  · obtain ⟨q, rfl⟩ := hn
    have hpos := Nat.two_pow_pos g
    have hq : q < 2 ^ j := by
      rw [Nat.add_comm, pow_add] at hlt
      exact Nat.lt_of_mul_lt_mul_left hlt
    rw [roundUp, if_pos hlt, index_of_lt hlt, Nat.mul_div_cancel_left _ hpos, lower_of_le hq.le,
      width_of_lt hlt, Nat.add_comm, Nat.add_mul_div_left _ _ hpos,
      Nat.div_eq_of_lt (by omega), Nat.zero_add]
  · obtain ⟨hlo, hhi⟩ := width_bounds hge
    have hpos := width_pos j g n
    have hround : roundUp j g n = n + (width j g n - 1) := if_neg (Nat.not_lt.mpr hge)
    have hquot : 2 ^ j ≤ roundUp j g n / width j g n := by
      rw [Nat.le_div_iff_mul_le hpos, hround]
      omega
    have hquot' : roundUp j g n / width j g n < 2 ^ (j + 1) + 1 := by
      rw [Nat.div_lt_iff_lt_mul hpos, hround, Nat.add_mul]
      omega
    rw [index_roundUp hge, lower_mul_add (by rw [pow_succ] at hquot'; omega),
      Nat.add_sub_cancel' hquot, ← width, hround]

/-- **The sizes that a search finds are large enough.** -/
theorem le_of_index_roundUp_le (hn : 2 ^ g ∣ n) (h : index j g (roundUp j g n) ≤ index j g s) :
    n ≤ s := by
  have hle := lower_le_iff.mpr h
  have hpos := width_pos j g n
  have hdiv := Nat.div_add_mod (n + (width j g n - 1)) (width j g n)
  have hmod := Nat.mod_lt (n + (width j g n - 1)) hpos
  rw [lower_index_roundUp hn, Nat.mul_comm] at hle
  omega

end Filestick.SizeClass
