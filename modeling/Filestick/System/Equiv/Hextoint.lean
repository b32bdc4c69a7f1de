import Mathlib.Data.Nat.Digits.Defs
import Filestick.System.Equiv.Strings
import Filestick.System.Hexdump

/-!
# What `hextoint` makes of a string

`value xs` is the number that hexadecimal digits denote, of any size.

* `hextointFrom_ok`, `hextointFrom_val`, `hextointFrom_wide`: the loop, over the first characters of
  a string.
* `hextoint_short`, `hextoint_long`: the length is converted to an `int`, so that a string of more
  than `2^31` characters is not looked at.
* `converts_iff`: the strings that are converted.  Digits beyond the eighth are shifted by more than
  the width of a word, and fall on the last ones.
* `wide_iff`: the strings for which C does not define such a shift.
-/

namespace Filestick.Hexdump

open Elf (Addr Mem IsString strlen strlen_eq)
open Filestick.Ring (Holds holds_append holds_cons)

/-! ### Digits -/

/-- `0` to `9`, and `a` to `f`. -/
def IsHexDigit (c : BitVec 8) : Prop :=
  0x30 ≤ c.toNat ∧ c.toNat ≤ 0x39 ∨ 0x61 ≤ c.toNat ∧ c.toNat ≤ 0x66

instance : DecidablePred IsHexDigit := fun c =>
  inferInstanceAs (Decidable (0x30 ≤ c.toNat ∧ c.toNat ≤ 0x39 ∨ 0x61 ≤ c.toNat ∧ c.toNat ≤ 0x66))

/-- What a digit denotes. -/
def digit (c : BitVec 8) : ℕ := if c.toNat ≤ 0x39 then c.toNat - 0x30 else c.toNat - 0x61 + 10

/-- The number that digits denote. -/
def value (xs : List (BitVec 8)) : ℕ := Nat.ofDigits 16 (xs.reverse.map digit)

theorem digit_lt {c : BitVec 8} (h : IsHexDigit c) : digit c < 16 := by
  unfold digit
  rcases h with h | h
  · rw [if_pos h.2]
    omega
  · rw [if_neg (by omega)]
    omega

theorem digit_eq_zero {c : BitVec 8} (h : IsHexDigit c) : digit c = 0 ↔ c = 0x30#8 := by
  unfold digit
  unfold IsHexDigit at h
  constructor
  · intro hzero
    split_ifs at hzero
    bv_omega
  · rintro rfl
    rfl

theorem hexDigit_eq (c : BitVec 8) :
    hexDigit c = if IsHexDigit c then some (BitVec.ofNat 32 (digit c)) else none := by
  unfold hexDigit digit
  by_cases hnumber : 0x30#8 ≤ c ∧ c ≤ 0x39#8
  · have h : 0x30 ≤ c.toNat ∧ c.toNat ≤ 0x39 := hnumber
    rw [if_pos hnumber, if_pos (show IsHexDigit c from Or.inl h), if_pos h.2]
    congr 1
    bv_omega
  · have h : ¬(0x30 ≤ c.toNat ∧ c.toNat ≤ 0x39) := hnumber
    rw [if_neg hnumber]
    by_cases hletter : 0x61#8 ≤ c ∧ c ≤ 0x66#8
    · have h' : 0x61 ≤ c.toNat ∧ c.toNat ≤ 0x66 := hletter
      rw [if_pos hletter, if_pos (show IsHexDigit c from Or.inr h'), if_neg (by omega)]
      congr 1
      bv_omega
    · rw [if_neg hletter, if_neg (show ¬IsHexDigit c from not_or.mpr ⟨h, hletter⟩)]

@[simp] theorem value_nil : value [] = 0 := rfl

theorem value_append (xs ys : List (BitVec 8)) :
    value (xs ++ ys) = value ys + 16 ^ ys.length * value xs := by
  rw [value, List.reverse_append, List.map_append, Nat.ofDigits_append, List.length_map,
    List.length_reverse]
  rfl

theorem value_concat (xs : List (BitVec 8)) (c : BitVec 8) :
    value (xs ++ [c]) = digit c + 16 * value xs :=
  value_append xs [c]

/-- A number is 0 if its digits are. -/
theorem value_eq_zero {xs : List (BitVec 8)} (hxs : ∀ c ∈ xs, IsHexDigit c) :
    value xs = 0 ↔ ∀ c ∈ xs, c = 0x30#8 := by
  induction xs using List.reverseRecOn with
  | nil => simp
  | append_singleton xs c ih =>
    have hc : IsHexDigit c := hxs c (by simp)
    have ih := ih fun d hd => hxs d (List.mem_append_left _ hd)
    rw [value_concat, List.forall_mem_append, List.forall_mem_singleton, ← ih,
      ← digit_eq_zero hc]
    omega

theorem value_lt {xs : List (BitVec 8)} (hxs : ∀ c ∈ xs, IsHexDigit c) :
    value xs < 16 ^ xs.length := by
  have hlt := Nat.ofDigits_lt_base_pow_length (b := 16) (l := xs.reverse.map digit) (by omega)
    fun d hd => by
      obtain ⟨c, hc, rfl⟩ := List.mem_map.mp hd
      exact digit_lt (hxs c (List.mem_reverse.mp hc))
  rwa [List.length_map, List.length_reverse] at hlt

/-- A number fits into a word if the digits before the last eight are zeros. -/
theorem value_lt_iff {xs : List (BitVec 8)} (hxs : ∀ c ∈ xs, IsHexDigit c) :
    value xs < 2 ^ 32 ↔ ∀ c ∈ xs.take (xs.length - 8), c = 0x30#8 := by
  have htake : ∀ c ∈ xs.take (xs.length - 8), IsHexDigit c := fun c hc =>
    hxs c (List.mem_of_mem_take hc)
  have hlow := value_lt fun c hc => hxs c (List.mem_of_mem_drop (i := xs.length - 8) hc)
  have hsplit := value_append (xs.take (xs.length - 8)) (xs.drop (xs.length - 8))
  rw [List.take_append_drop] at hsplit
  rw [← value_eq_zero htake, hsplit]
  rcases Nat.lt_or_ge xs.length 8 with hlen | hlen
  · have hall : xs.length - 8 = 0 := by omega
    have hpow : 16 ^ xs.length ≤ 16 ^ 8 := Nat.pow_le_pow_right (by omega) (by omega)
    rw [hall, List.drop_zero, List.take_zero, value_nil, Nat.mul_zero, Nat.add_zero]
    exact iff_of_true (Nat.lt_of_lt_of_le (value_lt hxs) hpow) rfl
  · have hlast : (xs.drop (xs.length - 8)).length = 8 := by
      rw [List.length_drop]
      omega
    rw [hlast] at hlow ⊢
    omega

/-! ### The loop -/

variable {mem : Mem} {s : Addr} {xs : List (BitVec 8)}

/-- One turn. -/
theorem hextointFrom_concat {c : BitVec 8} (h : Holds mem s (xs ++ [c])) (shift : BitVec 32)
    (p : Parsed) : hextointFrom mem s (xs ++ [c]).length shift p =
      if IsHexDigit c then hextointFrom mem s xs.length (shift + 4#32)
        ⟨p.ok, p.val ||| BitVec.ofNat 32 (digit c) <<< (shift.toNat % 32),
          p.wide || 32 ≤ shift.toNat⟩
      else { p with ok := false } := by
  have hc : mem (s + BitVec.ofNat 32 xs.length) = c := (holds_cons.mp (holds_append.mp h).2).1
  rw [List.length_append, List.length_singleton, hextointFrom, hc, hexDigit_eq]
  split_ifs <;> rfl

/-- Exactly the strings of digits are accepted, of any length. -/
theorem hextointFrom_ok (h : Holds mem s xs) (shift : BitVec 32) (p : Parsed) :
    (hextointFrom mem s xs.length shift p).ok = true ↔ ∀ c ∈ xs, IsHexDigit c := by
  induction xs using List.reverseRecOn generalizing shift p with
  | nil => simp [hextointFrom]
  | append_singleton xs c ih =>
    rw [hextointFrom_concat h, List.forall_mem_append, List.forall_mem_singleton]
    split_ifs with hc
    · rw [ih (holds_append.mp h).1, and_iff_left hc]
    · exact iff_of_false id fun hxs => hc hxs.2

/-- A digit that fits is put above the digits behind it. -/
theorem or_digit {v : BitVec 32} {d j : ℕ} (hv : v.toNat < 16 ^ j) (hd : d < 16) (hj : j < 8) :
    (v ||| BitVec.ofNat 32 d <<< (4 * j)).toNat = v.toNat + 16 ^ j * d := by
  have hpow : 16 ^ j = 2 ^ (4 * j) := by
    rw [pow_mul]
    norm_num
  have hlt : d <<< (4 * j) < 2 ^ 32 := by
    rw [Nat.shiftLeft_eq, ← hpow]
    calc d * 16 ^ j < 16 * 16 ^ j := Nat.mul_lt_mul_of_pos_right hd (Nat.pow_pos (by omega))
      _ = 16 ^ (j + 1) := (pow_succ' 16 j).symm
      _ ≤ 16 ^ 8 := Nat.pow_le_pow_right (by omega) hj
  have hor : v.toNat ||| d <<< (4 * j) = v.toNat + 16 ^ j * d := by
    rw [Nat.or_comm, ← Nat.shiftLeft_add_eq_or_of_lt (hpow ▸ hv), Nat.shiftLeft_eq, ← hpow,
      Nat.add_comm, Nat.mul_comm]
  rw [BitVec.toNat_or, BitVec.toNat_shiftLeft, BitVec.toNat_ofNat,
    Nat.mod_eq_of_lt (show d < 2 ^ 32 by omega), Nat.mod_eq_of_lt hlt, hor]

/-- The number is put together as long as it fits. -/
theorem hextointFrom_val (h : Holds mem s xs) (hxs : ∀ c ∈ xs, IsHexDigit c) (p : Parsed) {j : ℕ}
    (hp : p.val.toNat < 16 ^ j) (hfits : 16 ^ j * value xs < 2 ^ 32) :
    (hextointFrom mem s xs.length (BitVec.ofNat 32 (4 * j)) p).val.toNat =
      p.val.toNat + 16 ^ j * value xs := by
  induction xs using List.reverseRecOn generalizing p j with
  | nil => simp [hextointFrom]
  | append_singleton xs c ih =>
    have hc : IsHexDigit c := hxs c (by simp)
    have hnext : BitVec.ofNat 32 (4 * j) + 4#32 = BitVec.ofNat 32 (4 * (j + 1)) := by
      rw [← BitVec.ofNat_add]
      rfl
    have hsplit : 16 ^ j * value (xs ++ [c]) = 16 ^ j * digit c + 16 ^ (j + 1) * value xs := by
      rw [value_concat]
      ring
    rw [hsplit] at hfits ⊢
    rw [hextointFrom_concat h, if_pos hc, hnext]
    have hval : (p.val ||| BitVec.ofNat 32 (digit c) <<<
        ((BitVec.ofNat 32 (4 * j)).toNat % 32)).toNat = p.val.toNat + 16 ^ j * digit c := by
      by_cases hj : j < 8
      · rw [BitVec.toNat_ofNat, Nat.mod_eq_of_lt (by omega), Nat.mod_eq_of_lt (by omega)]
        exact or_digit hp (digit_lt hc) hj
      · -- no digit but 0 fits
        have hpow : 16 ^ 8 ≤ 16 ^ j := Nat.pow_le_pow_right (by omega) (by omega)
        have hzero : digit c = 0 := by
          by_contra hne
          have hle : 16 ^ j ≤ 16 ^ j * digit c := Nat.le_mul_of_pos_right _ (Nat.pos_of_ne_zero hne)
          omega
        rw [hzero]
        simp
    rw [ih (holds_append.mp h).1 (fun d hd => hxs d (List.mem_append_left _ hd)), hval]
    · ring
    · rw [hval, pow_succ]
      nlinarith [digit_lt hc]
    · omega

/-- C does not define the shifts of the ninth digit and of those before it. -/
theorem hextointFrom_wide (h : Holds mem s xs) (p : Parsed) {j : ℕ} (hp : p.wide = decide (8 < j)) :
    (hextointFrom mem s xs.length (BitVec.ofNat 32 (4 * j)) p).wide =
      decide (8 < j + (xs.reverse.takeWhile (IsHexDigit ·)).length) := by
  induction xs using List.reverseRecOn generalizing p j with
  | nil => exact hp
  | append_singleton xs c ih =>
    have hnext : BitVec.ofNat 32 (4 * j) + 4#32 = BitVec.ofNat 32 (4 * (j + 1)) := by
      rw [← BitVec.ofNat_add]
      rfl
    rw [hextointFrom_concat h, List.reverse_concat, List.takeWhile_cons]
    by_cases hc : IsHexDigit c
    · rw [if_pos hc, if_pos (decide_eq_true hc), hnext, ih (holds_append.mp h).1]
      · rw [List.length_cons]
        congr 2
        omega
      · rw [hp, BitVec.toNat_ofNat, ← Bool.decide_or]
        show decide (8 < j ∨ 32 ≤ 4 * j % 2 ^ 32) = decide (8 < j + 1)
        rw [decide_eq_decide]
        -- up to the eighth digit the shift has not wrapped
        constructor
        · rintro (hlt | hle)
          · omega
          · by_contra hge
            rw [Nat.mod_eq_of_lt (by omega)] at hle
            omega
        · intro hlt
          rcases Nat.lt_or_ge 8 j with hj | hj
          · exact Or.inl hj
          · obtain rfl : j = 8 := by omega
            exact Or.inr (by decide)
    · rw [if_neg hc, if_neg (by simpa using hc)]
      exact hp

/-! ### The function -/

/-- `strlen(hexstr) - 1` as an `int`. -/
theorem slt_pred_length {n : ℕ} (hn : n < 2 ^ 32) :
    (BitVec.ofNat 32 n - 1#32).slt 0#32 = true ↔ n = 0 ∨ 2 ^ 31 < n := by
  rw [BitVec.slt_zero_eq_msb, BitVec.msb_eq_decide, decide_eq_true_eq]
  bv_omega

theorem hextoint_eq (h : IsString mem s xs) : hextoint mem s =
    some (hextointFrom mem s (if xs.length = 0 ∨ 2 ^ 31 < xs.length then 0 else xs.length) 0#32
      ⟨false, 0#32, false⟩) := by
  have hturns : (if (BitVec.ofNat 32 xs.length - 1#32).slt 0#32 then 0
      else (BitVec.ofNat 32 xs.length - 1#32).toNat + 1) =
      if xs.length = 0 ∨ 2 ^ 31 < xs.length then 0 else xs.length := by
    simp only [slt_pred_length h.length_lt]
    split_ifs
    · rfl
    · bv_omega
  rw [hextoint, strlen_eq h h.length_lt, ← hturns]
  rfl

theorem hextoint_short (h : IsString mem s xs) (hlen : xs.length ≤ 2 ^ 31) :
    hextoint mem s = some (hextointFrom mem s xs.length 0#32 ⟨false, 0#32, false⟩) := by
  have hturns : (if xs.length = 0 ∨ 2 ^ 31 < xs.length then 0 else xs.length) = xs.length := by
    split_ifs <;> omega
  rw [hextoint_eq h, hturns]

theorem hextoint_long (h : IsString mem s xs) (hlen : 2 ^ 31 < xs.length) :
    hextoint mem s = some ⟨true, 0#32, false⟩ := by
  rw [hextoint_eq h, if_pos (Or.inr hlen)]
  rfl

/-- A string is converted to the number that it denotes, or refused. -/
def Converts (xs : List (BitVec 8)) (r : Option Parsed) : Prop :=
  ∃ p, r = some p ∧ (p.ok = true ↔ (∀ c ∈ xs, IsHexDigit c) ∧ value xs < 2 ^ 32) ∧
    (p.ok = true → p.val.toNat = value xs)

/-- The strings that are converted: no more than eight digits but for leading zeros, if the length
of the string is an `int`, and beyond that only zeros. -/
def Convertible (xs : List (BitVec 8)) : Prop :=
  xs.length ≤ 2 ^ 31 ∧
      ((∀ c ∈ xs, IsHexDigit c) → ∀ c ∈ xs.take (xs.length - 8), c = 0x30#8) ∨
    2 ^ 31 < xs.length ∧ ∀ c ∈ xs, c = 0x30#8

theorem converts_short (h : IsString mem s xs) (hlen : xs.length ≤ 2 ^ 31) :
    Converts xs (hextoint mem s) ↔
      ((∀ c ∈ xs, IsHexDigit c) → ∀ c ∈ xs.take (xs.length - 8), c = 0x30#8) := by
  have hxs : Holds mem s xs := (holds_append.mp h.holds).1
  have hok := hextointFrom_ok hxs 0#32 ⟨false, 0#32, false⟩
  rw [hextoint_short h hlen]
  constructor
  · rintro ⟨p, hp, hiff, -⟩ hdigits
    obtain rfl := Option.some.inj hp
    exact (value_lt_iff hdigits).mp (hiff.mp (hok.mpr hdigits)).2
  · intro hzeros
    refine ⟨_, rfl, ?_, ?_⟩
    · rw [hok]
      exact ⟨fun hdigits => ⟨hdigits, (value_lt_iff hdigits).mpr (hzeros hdigits)⟩, And.left⟩
    · intro haccepted
      have hdigits := hok.mp haccepted
      have hfits := (value_lt_iff hdigits).mpr (hzeros hdigits)
      have hval := hextointFrom_val hxs hdigits ⟨false, 0#32, false⟩ (j := 0) (by decide)
        (by simpa using hfits)
      simpa using hval

theorem converts_long (h : IsString mem s xs) (hlen : 2 ^ 31 < xs.length) :
    Converts xs (hextoint mem s) ↔ ∀ c ∈ xs, c = 0x30#8 := by
  rw [hextoint_long h hlen]
  constructor
  · rintro ⟨p, hp, hiff, hval⟩
    obtain rfl := Option.some.inj hp
    exact (value_eq_zero (hiff.mp rfl).1).mp (hval rfl).symm
  · intro hzeros
    have hdigits : ∀ c ∈ xs, IsHexDigit c := fun c hc => hzeros c hc ▸ (by decide)
    have hzero := (value_eq_zero hdigits).mpr hzeros
    refine ⟨_, rfl, iff_of_true rfl ⟨hdigits, ?_⟩, fun _ => hzero.symm⟩
    rw [hzero]
    norm_num

/-- **Exactly the convertible strings are converted.** -/
theorem converts_iff (h : IsString mem s xs) : Converts xs (hextoint mem s) ↔ Convertible xs := by
  unfold Convertible
  rcases Nat.lt_or_ge (2 ^ 31) xs.length with hlen | hlen
  · rw [converts_long h hlen, and_iff_right hlen,
      or_iff_right fun hshort => absurd hlen (Nat.not_lt.mpr hshort.1)]
  · rw [converts_short h hlen, and_iff_right hlen,
      or_iff_left fun hlong => absurd hlong.1 (Nat.not_lt.mpr hlen)]

/-- C defines what becomes of a string if it ends with no more than eight digits. -/
theorem wide_iff (h : IsString mem s xs) (hlen : xs.length ≤ 2 ^ 31) :
    (∃ p, hextoint mem s = some p ∧ p.wide = true) ↔
      8 < (xs.reverse.takeWhile (IsHexDigit ·)).length := by
  have hwide := hextointFrom_wide (holds_append.mp h.holds).1 ⟨false, 0#32, false⟩ (j := 0) rfl
  rw [Nat.zero_add] at hwide
  rw [hextoint_short h hlen]
  constructor
  · rintro ⟨p, hp, hwide'⟩
    obtain rfl := Option.some.inj hp
    exact of_decide_eq_true (hwide.symm.trans hwide')
  · intro hmany
    exact ⟨_, rfl, hwide.trans (decide_eq_true hmany)⟩

end Filestick.Hexdump
