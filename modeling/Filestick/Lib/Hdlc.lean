import Mathlib.Data.List.Basic
import Mathlib.Data.List.OfFn

/-!
# Bit stuffing

Frames of a synchronous data link are opened and closed by the flag `01111110`.  Between the flags
the bytes are sent least significant bit first, and a `0` is stuffed after every run of five `1`s,
so that no flag can appear inside a frame.

* `ones c bits` is the length (at most five) of the run of `1`s at the end of `bits`, when `c` is
  the length of the run before them; a run of five is over, since a `0` is stuffed after it.
* `stuff c bits` puts each stuffed `0` directly after its run; `stuffLazy c bits` puts it before the
  next bit, so that a run that ends the list gets none.  `stuff_eq_stuffLazy` relates the two.
* `exists_append_of_stuffLazy`: stuffed bits can be read back.
-/

namespace Filestick.Hdlc

/-- The opening and closing flag. -/
def flag : List Bool := [false, true, true, true, true, true, true, false]

/-- The bits of a byte in the order in which they are sent. -/
def byteBits (b : BitVec 8) : List Bool := List.ofFn fun i : Fin 8 => b.getLsbD i

/-- The bits of a list of bytes in the order in which they are sent. -/
def bytesBits (bs : List (BitVec 8)) : List Bool := bs.flatMap byteBits

/-- The run of `1`s after one more bit: a `1` after a run of five starts a new run. -/
def onesNext (c : ℕ) (b : Bool) : ℕ := if b then c % 5 + 1 else 0

/-- The run of `1`s after `bits`, from a run of length `c`. -/
def ones (c : ℕ) (bits : List Bool) : ℕ := bits.foldl onesNext c

/-- The bits with a `0` after every run of five `1`s. -/
def stuff : ℕ → List Bool → List Bool
  | _, [] => []
  | c, b :: bits => b :: ((if onesNext c b = 5 then [false] else []) ++ stuff (onesNext c b) bits)

/-- The bits with a `0` between every run of five `1`s and the bit after it. -/
def stuffLazy : ℕ → List Bool → List Bool
  | _, [] => []
  | c, b :: bits => (if c = 5 then [false] else []) ++ b :: stuffLazy (onesNext c b) bits

@[simp] theorem length_byteBits (b : BitVec 8) : (byteBits b).length = 8 := by simp [byteBits]

@[simp] theorem bytesBits_nil : bytesBits [] = [] := rfl

@[simp] theorem bytesBits_cons (b : BitVec 8) (bs : List (BitVec 8)) :
    bytesBits (b :: bs) = byteBits b ++ bytesBits bs := rfl

@[simp] theorem length_bytesBits (bs : List (BitVec 8)) :
    (bytesBits bs).length = 8 * bs.length := by
  induction bs with
  | nil => rfl
  | cons b bs ih =>
    rw [bytesBits_cons, List.length_append, length_byteBits, ih, List.length_cons]
    omega

/-- The bit at position `n` is bit `n % 8` of byte `n / 8`. -/
theorem getElem?_bytesBits {bs : List (BitVec 8)} {n : ℕ} (hn : n < 8 * bs.length) :
    (bytesBits bs)[n]? = some ((bs.getD (n / 8) 0).getLsbD (n % 8)) := by
  induction bs generalizing n with
  | nil => simp at hn
  | cons b bs ih =>
    rw [List.length_cons] at hn
    rw [bytesBits_cons]
    rcases lt_or_ge n 8 with h | h
    · have h0 : n / 8 = 0 := by omega
      have h1 : n % 8 = n := by omega
      rw [List.getElem?_append_left (by simpa using h), h0, h1]
      rw [byteBits, List.getElem?_ofFn, dif_pos h]
      rfl
    · have h0 : n / 8 = (n - 8) / 8 + 1 := by omega
      have h1 : n % 8 = (n - 8) % 8 := by omega
      rw [List.getElem?_append_right (by simpa using h), length_byteBits, ih (by omega), h0, h1]
      rfl

@[simp] theorem ones_nil (c : ℕ) : ones c [] = c := rfl

@[simp] theorem ones_cons (c : ℕ) (b : Bool) (bits : List Bool) :
    ones c (b :: bits) = ones (onesNext c b) bits := rfl

theorem ones_append (c : ℕ) (as bs : List Bool) : ones c (as ++ bs) = ones (ones c as) bs :=
  List.foldl_append

theorem onesNext_le (c : ℕ) (b : Bool) : onesNext c b ≤ 5 := by
  unfold onesNext; split <;> omega

theorem ones_le {c : ℕ} (hc : c ≤ 5) (bits : List Bool) : ones c bits ≤ 5 := by
  induction bits generalizing c with
  | nil => exact hc
  | cons b bits ih => exact ih (onesNext_le c b)

@[simp] theorem stuff_nil (c : ℕ) : stuff c [] = [] := rfl

theorem stuff_append (c : ℕ) (as bs : List Bool) :
    stuff c (as ++ bs) = stuff c as ++ stuff (ones c as) bs := by
  induction as generalizing c with
  | nil => rfl
  | cons a as ih => simp only [List.cons_append, stuff, ih, ones_cons, List.append_assoc]

@[simp] theorem stuffLazy_nil (c : ℕ) : stuffLazy c [] = [] := rfl

theorem stuffLazy_append (c : ℕ) (as bs : List Bool) :
    stuffLazy c (as ++ bs) = stuffLazy c as ++ stuffLazy (ones c as) bs := by
  induction as generalizing c with
  | nil => rfl
  | cons a as ih => simp only [List.cons_append, stuffLazy, ih, ones_cons, List.append_assoc]

/-- The two placements of the stuffed `0`s differ by the `0`s at the two ends. -/
theorem stuff_eq_stuffLazy (c : ℕ) (bits : List Bool) :
    (if c = 5 then [false] else []) ++ stuff c bits
      = stuffLazy c bits ++ (if ones c bits = 5 then [false] else []) := by
  induction bits generalizing c with
  | nil => rw [stuff_nil, List.append_nil]; rfl
  | cons b bits ih =>
    rw [stuff, ih, stuffLazy, List.append_assoc, List.cons_append]
    rfl

/-! ### Reading stuffed bits back -/

theorem stuffLazy_five_cons (b : Bool) (bits : List Bool) :
    stuffLazy 5 (b :: bits) = false :: stuffLazy 0 (b :: bits) := by
  simp [stuffLazy, onesNext]

/-- Bits that are stuffed to a longer list start with those that are stuffed to its front. -/
theorem exists_append_of_stuffLazy {c : ℕ} {as bs zs : List Bool}
    (h : stuffLazy c as = stuffLazy c bs ++ zs) :
    ∃ ys, as = bs ++ ys ∧ stuffLazy (ones c bs) ys = zs := by
  induction bs generalizing c as with
  | nil => exact ⟨as, rfl, h⟩
  | cons b bs ih =>
    cases as with
    | nil => simp [stuffLazy] at h
    | cons a as =>
      rw [stuffLazy, stuffLazy, List.append_assoc] at h
      have h' := List.append_cancel_left h
      rw [List.cons_append, List.cons.injEq] at h'
      obtain ⟨rfl, h'⟩ := h'
      obtain ⟨ys, rfl, hys⟩ := ih h'
      exact ⟨ys, rfl, hys⟩

/-- The number of 1s in front of the first 0. -/
def leadingOnes (bits : List Bool) : ℕ := (bits.takeWhile id).length

@[simp] theorem leadingOnes_true (bits : List Bool) :
    leadingOnes (true :: bits) = leadingOnes bits + 1 := by simp [leadingOnes]

@[simp] theorem leadingOnes_false (bits : List Bool) : leadingOnes (false :: bits) = 0 := rfl

/-- The run before the bits does not matter while it and the leading 1s stay below five. -/
theorem stuffLazy_of_leadingOnes {c d : ℕ} {bits : List Bool} (hc : c + leadingOnes bits < 5)
    (hd : d + leadingOnes bits < 5) : stuffLazy c bits = stuffLazy d bits := by
  induction bits generalizing c d with
  | nil => rfl
  | cons b bits ih =>
    have hc5 : c ≠ 5 := by omega
    have hd5 : d ≠ 5 := by omega
    rw [stuffLazy, stuffLazy, if_neg hc5, if_neg hd5]
    cases b with
    | false => rfl
    | true =>
      rw [leadingOnes_true] at hc hd
      have hc' : onesNext c true = c + 1 := by rw [onesNext, if_pos rfl]; omega
      have hd' : onesNext d true = d + 1 := by rw [onesNext, if_pos rfl]; omega
      rw [hc', hd', ih (c := c + 1) (d := d + 1) (by omega) (by omega)]

/-- A 0 ends the run before the bits. -/
theorem ones_take_of_leadingOnes {c d m : ℕ} {bits : List Bool} (hc : c + leadingOnes bits < 5)
    (hd : d + leadingOnes bits < 5) (hm : leadingOnes bits < m)
    (hlen : leadingOnes bits < bits.length) :
    ones c (bits.take m) = ones d (bits.take m) := by
  induction bits generalizing c d m with
  | nil => simp at hlen
  | cons b bits ih =>
    obtain ⟨m, rfl⟩ : ∃ m', m = m' + 1 := ⟨m - 1, by omega⟩
    rw [List.take_succ_cons, ones_cons, ones_cons]
    cases b with
    | false => rfl
    | true =>
      rw [leadingOnes_true] at hc hd hm hlen
      rw [List.length_cons] at hlen
      have hc' : onesNext c true = c + 1 := by rw [onesNext, if_pos rfl]; omega
      have hd' : onesNext d true = d + 1 := by rw [onesNext, if_pos rfl]; omega
      rw [hc', hd']
      exact ih (by omega) (by omega) (by omega) (by omega)

/-- A run before the bits that the leading 1s complete makes a stuffed `0` of their first `0`. -/
theorem split_of_stuffLazy_early {c d : ℕ} {as bs zs : List Bool} (hdc : d < c) (hc : c ≤ 5)
    (hlead : 5 ≤ c + leadingOnes bs) (hlen : 5 < c + bs.length)
    (h : stuffLazy c as = stuffLazy d bs ++ zs) :
    ∃ p as' bs', as = p ++ as' ∧ bs = p ++ false :: bs' ∧
      stuffLazy 0 as' = stuffLazy 0 bs' ++ zs := by
  induction bs generalizing c d as with
  | nil => rw [List.length_nil] at hlen; omega
  | cons b bs ih =>
    have hd5 : d ≠ 5 := by omega
    cases as with
    | nil => simp [stuffLazy] at h
    | cons a as =>
      rcases Nat.lt_or_eq_of_le hc with hc | rfl
      · cases b with
        | false => rw [leadingOnes_false] at hlead; omega
        | true =>
          rw [leadingOnes_true] at hlead
          rw [List.length_cons] at hlen
          rw [stuffLazy, stuffLazy, if_neg hd5, if_neg (by omega), List.nil_append, List.nil_append,
            List.cons_append, List.cons.injEq] at h
          obtain ⟨rfl, h⟩ := h
          have hc' : onesNext c true = c + 1 := by rw [onesNext, if_pos rfl]; omega
          have hd' : onesNext d true = d + 1 := by rw [onesNext, if_pos rfl]; omega
          rw [hc', hd'] at h
          obtain ⟨p, as', bs', rfl, rfl, h'⟩ :=
            ih (by omega) (by omega) (by omega) (by omega) h
          exact ⟨true :: p, as', bs', rfl, rfl, h'⟩
      · rw [stuffLazy_five_cons] at h
        nth_rewrite 2 [stuffLazy] at h
        rw [if_neg hd5, List.nil_append, List.cons_append, List.cons.injEq] at h
        obtain ⟨rfl, h⟩ := h
        exact ⟨[], a :: as, bs, rfl, rfl, h⟩

end Filestick.Hdlc
