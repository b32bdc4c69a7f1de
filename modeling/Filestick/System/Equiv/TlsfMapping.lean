import Filestick.Lib.SizeClass
import Filestick.System.Tlsf
import Mathlib.Data.Nat.Bitwise
import Mathlib.Tactic.Positivity

/-!
# Finding a free list

* `tlsfFls_eq`, `tlsfFfs_eq`: the highest and the lowest bit of a word.
* `mappingInsert_eq`, `mappingSearch_eq`: the list of a size, and the one that a search starts with,
  are those of the size classes.
* `mappingSearch_sufficient`: whatever is in a list that a search looks at is large enough.
-/

namespace Filestick.Tlsf

open SizeClass

/-! ### Words without their low bits -/

theorem getLsbD_ones_shiftLeft (n i : ℕ) :
    (~~~0#32 <<< n).getLsbD i = (decide (i < 32) && decide (n ≤ i)) := by
  rw [BitVec.getLsbD_shiftLeft, BitVec.getLsbD_not, BitVec.getLsbD_zero, Bool.not_false,
    Bool.and_true]
  by_cases hi : i < 32
  · by_cases hn : n ≤ i
    · rw [decide_eq_true hi, decide_eq_true hn, decide_eq_false (Nat.not_lt.mpr hn),
        decide_eq_true (Nat.lt_of_le_of_lt (Nat.sub_le i n) hi)]
      rfl
    · rw [decide_eq_true hi, decide_eq_false hn, decide_eq_true (Nat.not_le.mp hn)]
      rfl
  · rw [decide_eq_false hi]
    rfl

/-- A word without its low bits is 0 if there are none above them. -/
theorem and_ones_shiftLeft_eq_zero (w : BitVec 32) (n : ℕ) :
    w &&& (~~~0#32 <<< n) = 0#32 ↔ w.toNat < 2 ^ n := by
  have hbit (i : ℕ) : (w &&& (~~~0#32 <<< n)).getLsbD i = (w.getLsbD i && decide (n ≤ i)) := by
    rw [BitVec.getLsbD_and, getLsbD_ones_shiftLeft]
    by_cases hi : i < 32
    · rw [decide_eq_true hi, Bool.true_and]
    · rw [BitVec.getLsbD_of_ge _ _ (Nat.not_lt.mp hi), Bool.false_and, Bool.false_and]
  constructor
  · intro h
    refine Nat.lt_pow_two_of_testBit _ fun i hi => ?_
    have hi' := hbit i
    rw [h, BitVec.getLsbD_zero, decide_eq_true hi, Bool.and_true] at hi'
    exact hi'.symm
  · intro h
    refine BitVec.eq_of_getLsbD_eq fun i _ => ?_
    rw [hbit, BitVec.getLsbD_zero]
    by_cases hi : n ≤ i
    · have hlt : w.toNat < 2 ^ i := h.trans_le (Nat.pow_le_pow_right Nat.two_pos hi)
      rw [BitVec.getLsbD, Nat.testBit_lt_two_pow hlt, Bool.false_and]
    · rw [decide_eq_false hi, Bool.and_false]

/-! ### The highest bit -/

/-- What the lines of `tlsf_fls_generic` keep: the word has been shifted by `32 - bit`, without a
loss, and one of its `n` high bits is set. -/
structure Shifted (word : BitVec 32) (n : ℕ) (s : BitVec 32 × ℤ) : Prop where
  shift : ∃ k : ℕ, s.2 = 32 - k ∧ s.1.toNat = word.toNat * 2 ^ k
  high : 2 ^ (32 - n) ≤ s.1.toNat

/-- A line that looks at half of the bits. -/
theorem Shifted.step {word mask : BitVec 32} {n : ℕ} {s : BitVec 32 × ℤ}
    (h : Shifted word (2 * n) s) (hn : 2 * n ≤ 32) (hmask : mask = ~~~0#32 <<< (32 - n)) :
    Shifted word n (flsStep mask n s) := by
  obtain ⟨⟨k, hbit, hword⟩, hhigh⟩ := h
  rw [flsStep]
  by_cases hlt : s.1.toNat < 2 ^ (32 - n)
  · rw [if_pos (by rwa [hmask, and_ones_shiftLeft_eq_zero])]
    have hshift : (s.1 <<< n).toNat = s.1.toNat * 2 ^ n := by
      rw [BitVec.toNat_shiftLeft, Nat.shiftLeft_eq, Nat.mod_eq_of_lt]
      calc s.1.toNat * 2 ^ n < 2 ^ (32 - n) * 2 ^ n :=
            Nat.mul_lt_mul_of_pos_right hlt (Nat.two_pow_pos n)
        _ = 2 ^ 32 := by rw [← pow_add, Nat.sub_add_cancel (by omega)]
    constructor
    · refine ⟨k + n, ?_, ?_⟩
      · rw [hbit, Nat.cast_add]
        omega
      · rw [hshift, hword, pow_add, Nat.mul_assoc]
    · rw [hshift]
      calc 2 ^ (32 - n) = 2 ^ (32 - 2 * n) * 2 ^ n := by
            rw [← pow_add]
            congr 1
            omega
        _ ≤ s.1.toNat * 2 ^ n := Nat.mul_le_mul_right _ hhigh
  · rw [if_neg (by rwa [hmask, and_ones_shiftLeft_eq_zero])]
    exact ⟨⟨k, hbit, hword⟩, Nat.not_lt.mp hlt⟩

/-- **`tlsf_fls` is the highest bit of a word.** -/
theorem tlsfFls_eq {word : BitVec 32} (h : word ≠ 0#32) : tlsfFls word = Nat.log 2 word.toNat := by
  have hpos : 0 < word.toNat := by
    rcases Nat.eq_zero_or_pos word.toNat with h0 | hpos
    · exact absurd (BitVec.eq_of_toNat_eq h0) h
    · exact hpos
  have h0 : Shifted word 32 (word, 32) := by
    refine ⟨⟨0, ?_, ?_⟩, hpos⟩
    · omega
    · rw [pow_zero, Nat.mul_one]
  have h1 := (h0.step (by decide) rfl : Shifted word 16 (flsStep 0xFFFF0000#32 16 _))
  have h2 := (h1.step (by decide) rfl : Shifted word 8 (flsStep 0xFF000000#32 8 _))
  have h3 := (h2.step (by decide) rfl : Shifted word 4 (flsStep 0xF0000000#32 4 _))
  have h4 := (h3.step (by decide) rfl : Shifted word 2 (flsStep 0xC0000000#32 2 _))
  have h5 := (h4.step (by decide) rfl : Shifted word 1 (flsStep 0x80000000#32 1 _))
  obtain ⟨⟨k, hbit, hword⟩, hhigh⟩ := h5
  have hgen : tlsfFlsGeneric word = 32 - k := by
    rw [tlsfFlsGeneric, if_neg h]
    exact hbit
  -- the word that has been shifted has 32 bits
  have hlog : Nat.log 2 (word.toNat * 2 ^ k) = 31 := by
    refine (Nat.log_eq_iff (Or.inl (by decide))).mpr ⟨?_, ?_⟩
    · rw [← hword]
      exact hhigh
    · rw [← hword]
      exact BitVec.isLt _
  have hmul : Nat.log 2 (word.toNat * 2 ^ k) = Nat.log 2 word.toNat + k := by
    have hself := Nat.pow_log_le_self 2 hpos.ne'
    have hsucc := Nat.lt_pow_succ_log_self Nat.one_lt_two word.toNat
    rw [Nat.log_eq_iff (Or.inr ⟨Nat.one_lt_two, by positivity⟩), pow_add, Nat.add_right_comm,
      pow_add]
    exact ⟨Nat.mul_le_mul_right _ hself, Nat.mul_lt_mul_of_pos_right hsucc (Nat.two_pow_pos k)⟩
  rw [tlsfFls, hgen]
  omega

/-! ### The lowest bit -/

/-- Of a word and its negation, only the lowest bit of the word is left. -/
theorem and_neg_eq_twoPow {word : BitVec 32} {i : ℕ} (hi : word.getLsbD i = true)
    (hlow : ∀ j < i, word.getLsbD j = false) :
    word &&& (~~~word + 1#32) = BitVec.twoPow 32 i := by
  have hi32 : i < 32 := BitVec.lt_of_getLsbD hi
  refine BitVec.eq_of_getLsbD_eq fun j hj => ?_
  rw [← BitVec.neg_eq_not_add, BitVec.getLsbD_and, BitVec.getLsbD_neg, BitVec.getLsbD_twoPow,
    decide_eq_true hi32, decide_eq_true hj, Bool.true_and, Bool.true_and]
  rcases Nat.lt_trichotomy j i with hlt | rfl | hgt
  · rw [hlow j hlt, Bool.false_and, decide_eq_false hlt.ne']
  · have hno : ¬∃ k < j, word.getLsbD k = true := by
      rintro ⟨k, hk, htrue⟩
      exact absurd (hlow k hk) (by rw [htrue]; decide)
    rw [hi, decide_eq_false hno, decide_eq_true rfl]
    rfl
  · have hsome : ∃ k < j, word.getLsbD k = true := ⟨i, hgt, hi⟩
    rw [decide_eq_true hsome, decide_eq_false hgt.ne, Bool.xor_true, Bool.and_not_self]

/-- **`tlsf_ffs` is the lowest bit of a word.** -/
theorem tlsfFfs_eq {word : BitVec 32} {i : ℕ} (hi : word.getLsbD i = true)
    (hlow : ∀ j < i, word.getLsbD j = false) : tlsfFfs word = i := by
  have hi32 : i < 32 := BitVec.lt_of_getLsbD hi
  have hnat : (BitVec.twoPow 32 i).toNat = 2 ^ i := by
    rw [BitVec.toNat_twoPow, Nat.mod_eq_of_lt (Nat.pow_lt_pow_right Nat.one_lt_two hi32)]
  have hne : BitVec.twoPow 32 i ≠ 0#32 := by
    intro h0
    rw [h0] at hnat
    exact (Nat.two_pow_pos i).ne hnat
  calc tlsfFfs word = tlsfFls (BitVec.twoPow 32 i) := by
        rw [tlsfFfs, and_neg_eq_twoPow hi hlow, tlsfFls]
    _ = Nat.log 2 (2 ^ i) := by rw [tlsfFls_eq hne, hnat]
    _ = i := by rw [Nat.log_pow Nat.one_lt_two]

/-- A word that is not 0 has a lowest bit. -/
theorem exists_tlsfFfs {word : BitVec 32} (h : word ≠ 0#32) :
    ∃ i : ℕ, i < 32 ∧ tlsfFfs word = i ∧ word.getLsbD i = true ∧
      ∀ j < i, word.getLsbD j = false := by
  have hex : ∃ i, word.getLsbD i = true := by
    by_contra hnone
    refine h (BitVec.eq_of_getLsbD_eq fun i _ => ?_)
    rw [BitVec.getLsbD_zero, ← Bool.not_eq_true]
    exact fun htrue => hnone ⟨i, htrue⟩
  have hlow (j : ℕ) (hj : j < Nat.find hex) : word.getLsbD j = false :=
    Bool.eq_false_iff.mpr (Nat.find_min hex hj)
  exact ⟨Nat.find hex, BitVec.lt_of_getLsbD (Nat.find_spec hex),
    tlsfFfs_eq (Nat.find_spec hex) hlow, Nat.find_spec hex, hlow⟩

/-! ### The lists of the sizes -/

/-- The number of the list `fl`, `sl`. -/
def listIndex (i : ℕ × ℕ) : ℕ := 32 * i.1 + i.2

/-- The class of a size. -/
def sizeClass (n : ℕ) : ℕ := index 5 2 n

/-- The class that a search for a size starts with. -/
def searchClass (n : ℕ) : ℕ := index 5 2 (roundUp 5 2 n)

theorem xor_thirty_two {x : ℕ} (h : 32 ≤ x) (h' : x < 64) : x ^^^ 32 = x - 32 := by
  revert x
  decide

/-- A size that is divided is at least `SMALL_BLOCK_SIZE`. -/
theorem lt_smallBlockSize (size : BitVec 32) :
    size < smallBlockSize ↔ size.toNat < 2 ^ (5 + 2) := BitVec.lt_def

/-- **`mapping_insert` finds the class of a size.** -/
theorem mappingInsert_eq (size : BitVec 32) :
    listIndex (mappingInsert size) = sizeClass size.toNat ∧ (mappingInsert size).2 < 32 := by
  rw [mappingInsert, sizeClass]
  by_cases hsmall : size < smallBlockSize
  · have hlt := (lt_smallBlockSize size).mp hsmall
    rw [if_pos hsmall, index_of_lt hlt, listIndex]
    exact ⟨Nat.zero_add _, Nat.div_lt_of_lt_mul hlt⟩
  · have hge := Nat.not_lt.mp (mt (lt_smallBlockSize size).mpr hsmall)
    have hne : size ≠ 0#32 := by
      rintro rfl
      exact absurd hge (by decide)
    rw [if_neg hsmall, tlsfFls_eq hne, Int.toNat_natCast, index_eq_mul_add hge]
    obtain ⟨hlo, hhi⟩ := div_width_bounds hge
    have hlog : 7 ≤ Nat.log 2 size.toNat := by
      refine (Nat.le_log_iff_pow_le Nat.one_lt_two ?_).mpr hge
      exact fun h0 => hne (BitVec.eq_of_toNat_eq h0)
    have hlevel : level 5 2 size.toNat = Nat.log 2 size.toNat - 7 := rfl
    have hquot : (size >>> (Nat.log 2 size.toNat - slIndexCountLog2)).toNat =
        size.toNat / width 5 2 size.toNat := by
      rw [BitVec.toNat_ushiftRight, Nat.shiftRight_eq_div_pow, width, hlevel, slIndexCountLog2,
        show Nat.log 2 size.toNat - 7 + 2 = Nat.log 2 size.toNat - 5 by omega]
    have hxor : size.toNat / width 5 2 size.toNat ^^^ 1 <<< slIndexCountLog2 =
        size.toNat / width 5 2 size.toNat - 32 := xor_thirty_two hlo hhi
    have hpow5 : 2 ^ 5 = 32 := rfl
    have hpow6 : 2 ^ (5 + 1) = 64 := rfl
    dsimp only
    rw [hquot, hxor, listIndex, hlevel, flIndexShift]
    constructor <;> omega

/-- **`mapping_search` finds the class that a search starts with**, for the sizes that are asked
for. -/
theorem mappingSearch_eq {size : BitVec 32} (h : size < blockSizeMax) :
    listIndex (mappingSearch size) = searchClass size.toNat ∧ (mappingSearch size).2 < 32 := by
  have hmax : size.toNat < 2 ^ 30 := BitVec.lt_def.mp h
  rw [mappingSearch, searchClass, roundUp]
  by_cases hsmall : size < smallBlockSize
  · rw [if_neg (BitVec.not_le.mpr hsmall), if_pos ((lt_smallBlockSize size).mp hsmall)]
    exact mappingInsert_eq size
  · have hge := Nat.not_lt.mp (mt (lt_smallBlockSize size).mpr hsmall)
    have hne : size ≠ 0#32 := by
      rintro rfl
      exact absurd hge (by decide)
    rw [if_pos (BitVec.not_lt.mp hsmall), if_neg (Nat.not_lt.mpr hge), tlsfFls_eq hne,
      Int.toNat_natCast]
    have hlog : Nat.log 2 size.toNat < 30 :=
      Nat.log_lt_of_lt_pow (fun h0 => hne (BitVec.eq_of_toNat_eq h0)) hmax
    have hlog7 : 7 ≤ Nat.log 2 size.toNat :=
      (Nat.le_log_iff_pow_le Nat.one_lt_two fun h0 => hne (BitVec.eq_of_toNat_eq h0)).mpr hge
    have hwidth : width 5 2 size.toNat = 2 ^ (Nat.log 2 size.toNat - slIndexCountLog2) := by
      rw [width, level, slIndexCountLog2,
        show Nat.log 2 size.toNat - (5 + 2) + 2 = Nat.log 2 size.toNat - 5 by omega]
    have hwlt : width 5 2 size.toNat ≤ 2 ^ 25 := by
      rw [hwidth]
      exact Nat.pow_le_pow_right Nat.two_pos (by rw [slIndexCountLog2]; omega)
    have hwpos := width_pos 5 2 size.toNat
    have hone : (1#32 <<< (Nat.log 2 size.toNat - slIndexCountLog2)).toNat =
        width 5 2 size.toNat := by
      rw [BitVec.toNat_shiftLeft, Nat.shiftLeft_eq, BitVec.toNat_ofNat, ← hwidth]
      omega
    have hsum : (size + (1#32 <<< (Nat.log 2 size.toNat - slIndexCountLog2) - 1#32)).toNat =
        size.toNat + (width 5 2 size.toNat - 1) := by
      rw [BitVec.toNat_add, BitVec.toNat_sub, hone, BitVec.toNat_ofNat]
      omega
    rw [← hsum]
    exact mappingInsert_eq _

/-- What is in the lists from the one on that a search starts with is large enough. -/
theorem mappingSearch_sufficient {size : BitVec 32} (h : size < blockSizeMax)
    (halign : size.toNat % 4 = 0) {n : ℕ} (hn : listIndex (mappingSearch size) ≤ sizeClass n) :
    size.toNat ≤ n := by
  rw [(mappingSearch_eq h).1] at hn
  exact le_of_index_roundUp_le (Nat.dvd_of_mod_eq_zero halign) hn

/-- The lists are enough for the sizes below `block_size_max`. -/
theorem sizeClass_lt {n : ℕ} (h : n < 2 ^ 30) : sizeClass n < 768 := by
  by_contra hge
  have hlower := lower_le_iff.mpr (Nat.not_lt.mp hge)
  rw [show lower 5 2 768 = 2 ^ 30 by decide] at hlower
  omega

/-- The list of a size, by its two numbers. -/
theorem exists_mappingInsert {n : ℕ} (h : n < 2 ^ 30) :
    ∃ fl sl, fl < 24 ∧ sl < 32 ∧ 32 * fl + sl = sizeClass n ∧
      mappingInsert (BitVec.ofNat 32 n) = (fl, sl) := by
  obtain ⟨hindex, hsl⟩ := mappingInsert_eq (BitVec.ofNat 32 n)
  rw [BitVec.toNat_ofNat, Nat.mod_eq_of_lt (by omega)] at hindex
  have hclass := sizeClass_lt h
  rw [← hindex, listIndex] at hclass
  refine ⟨_, _, ?_, hsl, hindex, rfl⟩
  omega

/-- **What a search finds**: the blocks in the lists from the one on that it starts with are those
from its size on, rounded up to a multiple of the width of its list. -/
theorem mappingSearch_le_mappingInsert_iff {size : BitVec 32} (h : size < blockSizeMax)
    (halign : size.toNat % 4 = 0) (block : BitVec 32) :
    listIndex (mappingSearch size) ≤ listIndex (mappingInsert block) ↔
      (size.toNat + (width 5 2 size.toNat - 1)) / width 5 2 size.toNat * width 5 2 size.toNat ≤
        block.toNat := by
  rw [(mappingSearch_eq h).1, (mappingInsert_eq block).1, searchClass, sizeClass, ← lower_le_iff,
    lower_index_roundUp (Nat.dvd_of_mod_eq_zero halign)]

theorem mappingSearch_le_mappingInsert_iff_thousand :
    listIndex (mappingSearch 1000#32) ≤ listIndex (mappingInsert 1008#32) ↔
      (1000 + (width 5 2 1000 - 1)) / width 5 2 1000 * width 5 2 1000 ≤ 1008 :=
  mappingSearch_le_mappingInsert_iff (by decide) (by decide) 1008#32

/-- **`tlsf_fls` and `tlsf_ffs`** find the highest and the lowest bit that is set; they are -1 when
there is none. -/
theorem tlsfFls_tlsfFfs (word : BitVec 32) :
    (word = 0#32 → tlsfFls word = -1 ∧ tlsfFfs word = -1) ∧
      (word ≠ 0#32 → ∃ hi lo : ℕ, tlsfFls word = hi ∧ tlsfFfs word = lo ∧
        word.getLsbD hi = true ∧ (∀ j, hi < j → word.getLsbD j = false) ∧
        word.getLsbD lo = true ∧ ∀ j < lo, word.getLsbD j = false) := by
  constructor
  · rintro rfl
    decide
  · intro h
    obtain ⟨lo, -, hlo, hbit, hbelow⟩ := exists_tlsfFfs h
    have hne : word.toNat ≠ 0 := fun h0 => h (BitVec.eq_of_toNat_eq h0)
    refine ⟨_, lo, tlsfFls_eq h, hlo, ?_, ?_, hbit, hbelow⟩
    · have hlog := Nat.testBit_log2 hne
      rwa [Nat.log2_eq_log_two] at hlog
    · intro j hj
      exact Nat.testBit_lt_two_pow (Nat.lt_pow_of_log_lt Nat.one_lt_two hj)

end Filestick.Tlsf
