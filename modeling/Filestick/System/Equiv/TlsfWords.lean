import Filestick.System.Equiv.StackArgs
import Filestick.System.Tlsf

/-!
# Words of the heap

The heap is looked at word by word.  The places of its words are numbers below `2 ^ 32`.

* `word_put_self`, `word_put_of_ne`: a word behind a store.
* `byte_congr`: bytes follow their words.
* `sizeOf`, `isFree`, `isPrevFree`: the three parts of the field `size`; the lemmas behind them say
  what the functions that change it do to each.
-/

namespace Filestick.Tlsf

open Elf (Addr Mem wordBytes)
open Filestick.Ring (holds_writeAll writeAll_outside)
open SpiBlock (loadWord storeWord)

/-! ### Loads and stores -/

/-- The word at a place. -/
def word (mem : Mem) (a : ℕ) : BitVec 32 := loadWord mem (BitVec.ofNat 32 a)

/-- A word is stored at a place. -/
def put (mem : Mem) (a : ℕ) (x : BitVec 32) : Mem := storeWord mem (BitVec.ofNat 32 a) x

theorem loadWord_ofNat (mem : Mem) (a : ℕ) : loadWord mem (BitVec.ofNat 32 a) = word mem a := rfl

theorem storeWord_ofNat (mem : Mem) (a : ℕ) (x : BitVec 32) :
    storeWord mem (BitVec.ofNat 32 a) x = put mem a x := rfl

section Stores

variable {mem mem' : Mem} {a b n : ℕ} {x : BitVec 32}

theorem put_outside (ha : a + 4 ≤ 2 ^ 32) (hn : n < 2 ^ 32) (h : n < a ∨ a + 4 ≤ n) :
    put mem a x (BitVec.ofNat 32 n) = mem (BitVec.ofNat 32 n) := by
  refine writeAll_outside _ (by simp [Elf.length_wordBytes]) ?_
  rw [Elf.length_wordBytes, BitVec.toNat_sub, BitVec.toNat_ofNat, BitVec.toNat_ofNat]
  omega

theorem word_put_self (mem : Mem) (a : ℕ) (x : BitVec 32) : word (put mem a x) a = x :=
  Elf.wordAt_of_holds (holds_writeAll mem _ (by simp [Elf.length_wordBytes]))

/-- A word is made of the bytes behind its place. -/
theorem word_congr (h : ∀ i < 4, mem' (BitVec.ofNat 32 (a + i)) = mem (BitVec.ofNat 32 (a + i))) :
    word mem' a = word mem a := by
  have h0 := h 0 (by omega)
  have h1 := h 1 (by omega)
  have h2 := h 2 (by omega)
  have h3 := h 3 (by omega)
  simp only [BitVec.ofNat_add] at h0 h1 h2 h3
  rw [BitVec.add_zero] at h0
  unfold word loadWord
  rw [h0, h1, h2, h3]

theorem word_put_of_ne (ha : a % 4 = 0) (ha' : a < 2 ^ 32) (hb : b % 4 = 0) (hb' : b < 2 ^ 32)
    (hab : b ≠ a) : word (put mem a x) b = word mem b := by
  apply word_congr
  intro i hi
  exact put_outside (by omega) (by omega) (by omega)

theorem getLsbD_append_four (w z y x : BitVec 8) {j : ℕ} (hj : j < 8) :
    (w ++ z ++ y ++ x).getLsbD j = x.getLsbD j ∧
      (w ++ z ++ y ++ x).getLsbD (8 + j) = y.getLsbD j ∧
      (w ++ z ++ y ++ x).getLsbD (16 + j) = z.getLsbD j ∧
      (w ++ z ++ y ++ x).getLsbD (24 + j) = w.getLsbD j := by
  simp only [BitVec.getLsbD_append]
  refine ⟨if_pos hj, ?_, ?_, ?_⟩
  · rw [if_neg (by omega), if_pos (by omega), show 8 + j - 8 = j by omega]
  · rw [if_neg (by omega), if_neg (by omega), if_pos (by omega), show 16 + j - 8 - 8 = j by omega]
  · rw [if_neg (by omega), if_neg (by omega), if_neg (by omega),
      show 24 + j - 8 - 8 - 8 = j by omega]

/-- Bytes follow their words. -/
theorem byte_congr (h : word mem' a = word mem a) {i : ℕ} (hi : i < 4) :
    mem' (BitVec.ofNat 32 (a + i)) = mem (BitVec.ofNat 32 (a + i)) := by
  have hbit (j : ℕ) := congrArg (fun x : BitVec 32 => x.getLsbD j) h
  unfold word loadWord at hbit
  refine BitVec.eq_of_getLsbD_eq fun j hj => ?_
  obtain ⟨h0, h1, h2, h3⟩ := getLsbD_append_four (mem (BitVec.ofNat 32 a + 3#32))
    (mem (BitVec.ofNat 32 a + 2#32)) (mem (BitVec.ofNat 32 a + 1#32)) (mem (BitVec.ofNat 32 a)) hj
  obtain ⟨h0', h1', h2', h3'⟩ := getLsbD_append_four (mem' (BitVec.ofNat 32 a + 3#32))
    (mem' (BitVec.ofNat 32 a + 2#32)) (mem' (BitVec.ofNat 32 a + 1#32)) (mem' (BitVec.ofNat 32 a))
    hj
  rw [BitVec.ofNat_add]
  interval_cases i
  · rw [BitVec.add_zero, ← h0, ← h0']
    exact hbit _
  · rw [← h1, ← h1']
    exact hbit _
  · rw [← h2, ← h2']
    exact hbit _
  · rw [← h3, ← h3']
    exact hbit _

end Stores

/-! ### The field `size` -/

/-- The two low bits. -/
def flagBits : BitVec 32 := blockHeaderFreeBit ||| blockHeaderPrevFreeBit

/-- The size in the field `size`. -/
def sizeOf (x : BitVec 32) : ℕ := (x &&& ~~~flagBits).toNat

/-- The bit of a block that is free. -/
def isFree (x : BitVec 32) : Bool := x.getLsbD 0

/-- The bit of a block behind one that is free. -/
def isPrevFree (x : BitVec 32) : Bool := x.getLsbD 1

theorem getLsbD_one (i : ℕ) : (1#32).getLsbD i = decide (i = 0) := by
  rw [BitVec.getLsbD_ofNat]
  rcases i with _ | i
  · rfl
  · simp [Nat.testBit_add_one]

theorem getLsbD_two (i : ℕ) : (2#32).getLsbD i = decide (i = 1) := by
  rw [BitVec.getLsbD_ofNat]
  rcases i with _ | _ | i
  · rfl
  · rfl
  · simp [Nat.testBit_add_one]

theorem getLsbD_flagBits (i : ℕ) : flagBits.getLsbD i = (decide (i = 0) || decide (i = 1)) := by
  rw [flagBits, BitVec.getLsbD_or, blockHeaderFreeBit, blockHeaderPrevFreeBit, getLsbD_one,
    getLsbD_two]

/-- The size is what is left of the word without its two low bits. -/
theorem sizeOf_eq (x : BitVec 32) : sizeOf x = x.toNat / 4 * 4 := by
  have hmask : x &&& ~~~flagBits = (x >>> 2) <<< 2 := by
    ext i hi
    have hflag := getLsbD_flagBits i
    rw [BitVec.getLsbD_eq_getElem hi] at hflag
    rcases i with _ | _ | i
    · simp [hflag]
    · simp [hflag]
    · simp [hflag, show ¬(i + 1 + 1 < 2) by omega, Nat.add_comm 2 i]
      rw [← BitVec.getLsbD_eq_getElem hi]
  rw [sizeOf, hmask, BitVec.toNat_shiftLeft, BitVec.toNat_ushiftRight, Nat.shiftLeft_eq,
    Nat.shiftRight_eq_div_pow, Nat.mod_eq_of_lt]
  have := x.isLt
  omega

theorem sizeOf_mod (x : BitVec 32) : sizeOf x % 4 = 0 := by
  rw [sizeOf_eq]
  omega

theorem sizeOf_congr {x y : BitVec 32} (h : ∀ i, 2 ≤ i → x.getLsbD i = y.getLsbD i) :
    sizeOf x = sizeOf y := by
  unfold sizeOf
  congr 1
  refine BitVec.eq_of_getLsbD_eq fun i _ => ?_
  rw [BitVec.getLsbD_and, BitVec.getLsbD_and, BitVec.getLsbD_not, getLsbD_flagBits]
  by_cases hi : 2 ≤ i
  · rw [h i hi]
  · rcases (by omega : i = 0 ∨ i = 1) with rfl | rfl
    · simp
    · simp

section Flags

variable (x : BitVec 32)

@[simp] theorem sizeOf_or_free : sizeOf (x ||| blockHeaderFreeBit) = sizeOf x := by
  apply sizeOf_congr
  intro i hi
  rw [BitVec.getLsbD_or, blockHeaderFreeBit, getLsbD_one, decide_eq_false (by omega), Bool.or_false]

@[simp] theorem isFree_or_free : isFree (x ||| blockHeaderFreeBit) = true := by
  simp [isFree, blockHeaderFreeBit]

@[simp] theorem isPrevFree_or_free : isPrevFree (x ||| blockHeaderFreeBit) = isPrevFree x := by
  simp [isPrevFree, blockHeaderFreeBit]

@[simp] theorem sizeOf_or_prevFree : sizeOf (x ||| blockHeaderPrevFreeBit) = sizeOf x := by
  apply sizeOf_congr
  intro i hi
  rw [BitVec.getLsbD_or, blockHeaderPrevFreeBit, getLsbD_two, decide_eq_false (by omega),
    Bool.or_false]

@[simp] theorem isFree_or_prevFree : isFree (x ||| blockHeaderPrevFreeBit) = isFree x := by
  simp [isFree, blockHeaderPrevFreeBit]

@[simp] theorem isPrevFree_or_prevFree : isPrevFree (x ||| blockHeaderPrevFreeBit) = true := by
  simp [isPrevFree, blockHeaderPrevFreeBit]

@[simp] theorem sizeOf_and_not_free : sizeOf (x &&& ~~~blockHeaderFreeBit) = sizeOf x := by
  apply sizeOf_congr
  intro i hi
  by_cases h32 : i < 32
  · rw [BitVec.getLsbD_and, BitVec.getLsbD_not, blockHeaderFreeBit, getLsbD_one,
      decide_eq_false (by omega : ¬i = 0), decide_eq_true h32, Bool.not_false, Bool.and_true,
      Bool.and_true]
  · rw [BitVec.getLsbD_of_ge _ _ (Nat.not_lt.mp h32), BitVec.getLsbD_of_ge _ _ (Nat.not_lt.mp h32)]

@[simp] theorem isFree_and_not_free : isFree (x &&& ~~~blockHeaderFreeBit) = false := by
  simp [isFree, blockHeaderFreeBit]

@[simp] theorem isPrevFree_and_not_free :
    isPrevFree (x &&& ~~~blockHeaderFreeBit) = isPrevFree x := by
  simp [isPrevFree, blockHeaderFreeBit]

@[simp] theorem sizeOf_and_not_prevFree : sizeOf (x &&& ~~~blockHeaderPrevFreeBit) = sizeOf x := by
  apply sizeOf_congr
  intro i hi
  by_cases h32 : i < 32
  · rw [BitVec.getLsbD_and, BitVec.getLsbD_not, blockHeaderPrevFreeBit, getLsbD_two,
      decide_eq_false (by omega : ¬i = 1), decide_eq_true h32, Bool.not_false, Bool.and_true,
      Bool.and_true]
  · rw [BitVec.getLsbD_of_ge _ _ (Nat.not_lt.mp h32), BitVec.getLsbD_of_ge _ _ (Nat.not_lt.mp h32)]

@[simp] theorem isFree_and_not_prevFree : isFree (x &&& ~~~blockHeaderPrevFreeBit) = isFree x := by
  simp [isFree, blockHeaderPrevFreeBit]

@[simp] theorem isPrevFree_and_not_prevFree :
    isPrevFree (x &&& ~~~blockHeaderPrevFreeBit) = false := by
  simp [isPrevFree, blockHeaderPrevFreeBit]

end Flags

/-! ### A new size -/

section Sizes

variable {s : ℕ} (hs : s % 4 = 0) (hlt : s < 2 ^ 32) (x : BitVec 32)

include hs in
/-- The low bits of a size are clear. -/
theorem getLsbD_ofNat_of_lt {i : ℕ} (hi : i < 2) : (BitVec.ofNat 32 s).getLsbD i = false := by
  obtain ⟨q, rfl⟩ := Nat.dvd_of_mod_eq_zero hs
  have hge : ¬2 ≤ i := Nat.not_le.mpr hi
  rw [BitVec.getLsbD_ofNat, show 4 * q = 2 ^ 2 * q from rfl, Nat.testBit_two_pow_mul,
    decide_eq_false hge, Bool.false_and, Bool.and_false]

include hs hlt in
/-- `block_set_size` sets the size. -/
theorem sizeOf_setSize : sizeOf (BitVec.ofNat 32 s ||| (x &&& flagBits)) = s := by
  calc sizeOf (BitVec.ofNat 32 s ||| (x &&& flagBits)) = sizeOf (BitVec.ofNat 32 s) := by
        apply sizeOf_congr
        intro i hi
        rw [BitVec.getLsbD_or, BitVec.getLsbD_and, getLsbD_flagBits,
          decide_eq_false (by omega : ¬i = 0), decide_eq_false (by omega : ¬i = 1), Bool.or_false,
          Bool.and_false, Bool.or_false]
    _ = s := by
        rw [sizeOf_eq, BitVec.toNat_ofNat, Nat.mod_eq_of_lt hlt]
        omega

include hs in
/-- `block_set_size` keeps the two bits. -/
theorem isFree_setSize : isFree (BitVec.ofNat 32 s ||| (x &&& flagBits)) = isFree x := by
  unfold isFree
  rw [BitVec.getLsbD_or, getLsbD_ofNat_of_lt hs (by omega), BitVec.getLsbD_and, getLsbD_flagBits]
  simp

include hs in
theorem isPrevFree_setSize :
    isPrevFree (BitVec.ofNat 32 s ||| (x &&& flagBits)) = isPrevFree x := by
  unfold isPrevFree
  rw [BitVec.getLsbD_or, getLsbD_ofNat_of_lt hs (by omega), BitVec.getLsbD_and, getLsbD_flagBits]
  simp

include hs in
/-- `block_absorb` adds to the size. -/
theorem sizeOf_add (h : sizeOf x + s < 2 ^ 32) : sizeOf (x + BitVec.ofNat 32 s) = sizeOf x + s := by
  rw [sizeOf_eq] at *
  rw [sizeOf_eq, BitVec.toNat_add, BitVec.toNat_ofNat]
  have := x.isLt
  omega

theorem isFree_eq (x : BitVec 32) : isFree x = decide (x.toNat % 2 = 1) := Nat.testBit_zero x.toNat

theorem isPrevFree_eq (x : BitVec 32) : isPrevFree x = decide (x.toNat / 2 % 2 = 1) :=
  Nat.testBit_succ x.toNat 0 |>.trans (Nat.testBit_zero _)

include hs in
theorem isFree_add : isFree (x + BitVec.ofNat 32 s) = isFree x := by
  rw [isFree_eq, isFree_eq, BitVec.toNat_add, BitVec.toNat_ofNat]
  congr 1
  apply propext
  omega

include hs in
theorem isPrevFree_add : isPrevFree (x + BitVec.ofNat 32 s) = isPrevFree x := by
  rw [isPrevFree_eq, isPrevFree_eq, BitVec.toNat_add, BitVec.toNat_ofNat]
  congr 1
  apply propext
  omega

end Sizes

/-! ### The functions that look at a header -/

section Headers

variable (mem : Mem) (b : ℕ)

theorem sizeField_ofNat : sizeField (BitVec.ofNat 32 b) = BitVec.ofNat 32 (b + 4) :=
  (BitVec.ofNat_add b 4).symm

theorem nextFree_ofNat : nextFree (BitVec.ofNat 32 b) = BitVec.ofNat 32 (b + 8) :=
  (BitVec.ofNat_add b 8).symm

theorem prevFree_ofNat : prevFree (BitVec.ofNat 32 b) = BitVec.ofNat 32 (b + 12) :=
  (BitVec.ofNat_add b 12).symm

theorem blockToPtr_ofNat : blockToPtr (BitVec.ofNat 32 b) = BitVec.ofNat 32 (b + 8) :=
  (BitVec.ofNat_add b 8).symm

theorem blockFromPtr_ofNat : blockFromPtr (BitVec.ofNat 32 (b + 8)) = BitVec.ofNat 32 b := by
  rw [blockFromPtr, BitVec.ofNat_add]
  exact BitVec.add_sub_cancel ..

theorem blockSize_ofNat :
    blockSize mem (BitVec.ofNat 32 b) = BitVec.ofNat 32 (sizeOf (word mem (b + 4))) := by
  rw [blockSize, sizeField_ofNat, sizeOf, BitVec.ofNat_toNat, BitVec.setWidth_eq]
  rfl

theorem blockIsFree_ofNat : blockIsFree mem (BitVec.ofNat 32 b) = isFree (word mem (b + 4)) := by
  rw [blockIsFree, sizeField_ofNat, loadWord_ofNat, isFree_eq]
  congr 1
  have hmod : (word mem (b + 4) &&& blockHeaderFreeBit).toNat = (word mem (b + 4)).toNat % 2 := by
    rw [BitVec.toNat_and]
    exact Nat.and_two_pow_sub_one_eq_mod _ 1
  apply propext
  rw [ne_eq, BitVec.toNat_eq, hmod, BitVec.toNat_ofNat]
  omega

theorem blockIsPrevFree_ofNat :
    blockIsPrevFree mem (BitVec.ofNat 32 b) = isPrevFree (word mem (b + 4)) := by
  rw [blockIsPrevFree, sizeField_ofNat, loadWord_ofNat, isPrevFree]
  have hbit : word mem (b + 4) &&& blockHeaderPrevFreeBit =
      if (word mem (b + 4)).getLsbD 1 then 2#32 else 0#32 := by
    refine BitVec.eq_of_getLsbD_eq fun i _ => ?_
    rw [BitVec.getLsbD_and, blockHeaderPrevFreeBit, getLsbD_two]
    by_cases hi : i = 1
    · subst hi
      cases (word mem (b + 4)).getLsbD 1 <;> rfl
    · rw [decide_eq_false hi, Bool.and_false]
      split
      · rw [getLsbD_two, decide_eq_false hi]
      · rw [BitVec.getLsbD_zero]
  rw [hbit]
  cases (word mem (b + 4)).getLsbD 1 <;> rfl

/-- The block behind a block. -/
theorem blockNext_ofNat :
    blockNext mem (BitVec.ofNat 32 b) =
      BitVec.ofNat 32 (b + 4 + sizeOf (word mem (b + 4))) := by
  rw [blockNext, blockSize_ofNat, blockToPtr_ofNat, offsetToBlock, blockHeaderOverhead,
    Nat.add_right_comm, BitVec.ofNat_add, BitVec.ofNat_add, BitVec.ofNat_add]
  bv_omega

theorem blockSetSize_ofNat (s : ℕ) :
    blockSetSize mem (BitVec.ofNat 32 b) (BitVec.ofNat 32 s) =
      put mem (b + 4) (BitVec.ofNat 32 s ||| (word mem (b + 4) &&& flagBits)) := by
  rw [blockSetSize, sizeField_ofNat]
  rfl

theorem blockSetFree_ofNat :
    blockSetFree mem (BitVec.ofNat 32 b) =
      put mem (b + 4) (word mem (b + 4) ||| blockHeaderFreeBit) := by
  rw [blockSetFree, sizeField_ofNat]
  rfl

theorem blockSetUsed_ofNat :
    blockSetUsed mem (BitVec.ofNat 32 b) =
      put mem (b + 4) (word mem (b + 4) &&& ~~~blockHeaderFreeBit) := by
  rw [blockSetUsed, sizeField_ofNat]
  rfl

theorem blockSetPrevFree_ofNat :
    blockSetPrevFree mem (BitVec.ofNat 32 b) =
      put mem (b + 4) (word mem (b + 4) ||| blockHeaderPrevFreeBit) := by
  rw [blockSetPrevFree, sizeField_ofNat]
  rfl

theorem blockSetPrevUsed_ofNat :
    blockSetPrevUsed mem (BitVec.ofNat 32 b) =
      put mem (b + 4) (word mem (b + 4) &&& ~~~blockHeaderPrevFreeBit) := by
  rw [blockSetPrevUsed, sizeField_ofNat]
  rfl

end Headers

end Filestick.Tlsf
