import Filestick.System.Equiv.Strings
import Filestick.System.Memcpy

/-!
# The two loops of `memcpy`

* `wordBytes_loadWord`: a word that is loaded and stored again is a copy of four bytes.
* `wordLoop_eq`, `byteLoop_eq`: the loops copy chunks of four bytes and of one.
* `memcpy_refines`: `memcpy` copies the chunks that the drivers count on.
* `memcpy_copies`: without an overlap, it agrees with the loop over the bytes.
-/

namespace Filestick.Memcpy

open Elf (Addr Mem Apart copyChunks)
open Filestick.Ring
open SpiBlock (loadWord storeWord)

/-! ### The loops -/

theorem wordBytes_loadWord (mem : Mem) (a : Addr) :
    Elf.wordBytes (loadWord mem a) = slice mem a 4 := by
  apply List.map_congr_left
  intro i hi
  rw [List.mem_range] at hi
  have hbits (k : ℕ) :
      (mem (a + 3#32) ++ mem (a + 2#32) ++ mem (a + 1#32) ++ mem a).getLsbD k =
        if k < 8 then (mem a).getLsbD k
        else if k - 8 < 8 then (mem (a + 1#32)).getLsbD (k - 8)
        else if k - 8 - 8 < 8 then (mem (a + 2#32)).getLsbD (k - 8 - 8)
        else (mem (a + 3#32)).getLsbD (k - 8 - 8 - 8) := by
    rw [BitVec.getLsbD_append, BitVec.getLsbD_append, BitVec.getLsbD_append]
  ext j hj
  rw [BitVec.getElem_extractLsb', ← BitVec.getLsbD_eq_getElem]
  refine (hbits _).trans ?_
  interval_cases i
  · rw [if_pos (by omega), Nat.mul_zero, Nat.zero_add, BitVec.add_zero]
  · rw [if_neg (by omega), if_pos (by omega)]
    congr 1
    omega
  · rw [if_neg (by omega), if_neg (by omega), if_pos (by omega)]
    congr 1
    omega
  · rw [if_neg (by omega), if_neg (by omega), if_neg (by omega)]
    congr 1
    omega

theorem copyChunks_append (mem : Mem) (cs cs' : List ℕ) (dest src : Addr) :
    copyChunks mem (cs ++ cs') dest src =
      copyChunks (copyChunks mem cs dest src) cs' (dest + BitVec.ofNat 32 cs.sum)
        (src + BitVec.ofNat 32 cs.sum) := by
  induction cs generalizing mem dest src with
  | nil =>
    rw [List.sum_nil, BitVec.add_zero, BitVec.add_zero]
    rfl
  | cons c cs ih =>
    rw [List.cons_append, copyChunks, ih, copyChunks, List.sum_cons, BitVec.ofNat_add,
      BitVec.add_assoc, BitVec.add_assoc]

/-- What a loop leaves that copies chunks of the sizes `cs`. -/
def Copy.chunks (c : Copy) (cs : List ℕ) : Copy :=
  { d := c.d + BitVec.ofNat 32 cs.sum
    s := c.s + BitVec.ofNat 32 cs.sum
    mem := copyChunks c.mem cs c.d c.s
    stored := c.stored ++ slice id c.d cs.sum }

theorem chunks_nil (c : Copy) : c.chunks [] = c := by
  obtain ⟨d, s, mem, stored⟩ := c
  unfold Copy.chunks
  rw [List.sum_nil, BitVec.add_zero, BitVec.add_zero]
  exact congrArg (Copy.mk d s mem) (List.append_nil stored)

theorem chunks_append (c : Copy) (cs cs' : List ℕ) :
    c.chunks (cs ++ cs') = (c.chunks cs).chunks cs' := by
  unfold Copy.chunks
  dsimp only
  rw [copyChunks_append, List.sum_append, BitVec.ofNat_add, ← BitVec.add_assoc, ← BitVec.add_assoc,
    slice_add, List.append_assoc]

theorem word_eq (c : Copy) : c.word = c.chunks [4] := by
  unfold Copy.word Copy.chunks storeWord
  rw [wordBytes_loadWord]
  rfl

theorem byte_eq (c : Copy) : c.byte = c.chunks [1] := by
  have hslice : slice c.mem c.s 1 = [c.mem c.s] := by
    show [c.mem (c.s + 0#32)] = [c.mem c.s]
    rw [BitVec.add_zero]
  have hstored : slice id c.d 1 = [c.d] := by
    show [c.d + 0#32] = [c.d]
    rw [BitVec.add_zero]
  unfold Copy.byte Copy.chunks
  rw [List.sum_singleton, hstored, copyChunks, hslice]
  rfl

theorem wordLoop_eq (n : ℕ) (c : Copy) : wordLoop n c = c.chunks (List.replicate n 4) := by
  induction n generalizing c with
  | zero => exact (chunks_nil c).symm
  | succ n ih =>
    rw [wordLoop, ih, word_eq, ← chunks_append]
    rfl

theorem byteLoop_eq (n : ℕ) (c : Copy) : byteLoop n c = c.chunks (List.replicate n 1) := by
  induction n generalizing c with
  | zero => exact (chunks_nil c).symm
  | succ n ih =>
    rw [byteLoop, ih, byte_eq, ← chunks_append]
    rfl

/-! ### `memcpy` -/

section Copies

variable (mem : Mem) (dest src : Addr) (n : BitVec 32)

theorem unaligned_eq_false_iff :
    unaligned dest src = false ↔ dest.extractLsb' 0 2 ||| src.extractLsb' 0 2 = 0#2 := by
  have hlow (x : Addr) : x &&& 3#32 = (x.extractLsb' 0 2).setWidth 32 := by
    apply BitVec.eq_of_toNat_eq
    rw [BitVec.toNat_and, BitVec.toNat_setWidth, BitVec.extractLsb'_toNat, Nat.shiftRight_zero,
      Nat.mod_eq_of_lt (by omega)]
    exact Nat.and_two_pow_sub_one_eq_mod x.toNat 2
  unfold unaligned
  rw [decide_eq_false_iff_not, not_not, hlow, hlow, ← BitVec.setWidth_or]
  constructor
  · intro hzero
    bv_omega
  · intro hzero
    rw [hzero]
    rfl

/-- **`memcpy` copies chunks**, whatever the alignment is. -/
theorem memcpy_refines :
    memcpy mem dest src n =
      (dest, (Copy.mk dest src mem []).chunks (RawEconet.memcpyChunks dest src n.toNat)) := by
  have hwords : (n >>> 2).toNat = n.toNat / 4 := by
    rw [BitVec.toNat_ushiftRight, Nat.shiftRight_eq_div_pow]
  have hrest : (n &&& 3#32).toNat = n.toNat % 4 := by
    rw [BitVec.toNat_and]
    exact Nat.and_two_pow_sub_one_eq_mod n.toNat 2
  have hfast : (!unaligned dest src && 4#32 ≤ n) = true ↔
      dest.extractLsb' 0 2 ||| src.extractLsb' 0 2 = 0#2 ∧ 4 ≤ n.toNat := by
    rw [Bool.and_eq_true, Bool.not_eq_true', unaligned_eq_false_iff, decide_eq_true_eq]
    exact Iff.rfl
  unfold memcpy RawEconet.memcpyChunks
  dsimp only
  rw [hwords, hrest, wordLoop_eq, byteLoop_eq, ← chunks_append, byteLoop_eq]
  by_cases h : dest.extractLsb' 0 2 ||| src.extractLsb' 0 2 = 0#2 ∧ 4 ≤ n.toNat
  · rw [if_pos (hfast.mpr h), if_pos h]
  · rw [if_neg (mt hfast.mp h), if_neg h]

variable {mem dest src n}

/-- **The word loop and the byte loop meet**: without an overlap, the bytes are copied, they are all
that is stored to, and all is as the loop over the bytes leaves it. -/
theorem memcpy_copies (hapart : Apart dest src n.toNat) :
    let r := memcpy mem dest src n
    r.1 = dest ∧
      (∀ k < n.toNat, r.2.mem (dest + BitVec.ofNat 32 k) = mem (src + BitVec.ofNat 32 k)) ∧
      r.2.stored = (List.range n.toNat).map (fun k => dest + BitVec.ofNat 32 k) ∧
      (∀ a, a ∉ r.2.stored → r.2.mem a = mem a) ∧
      r.2 = byteLoop n.toNat ⟨dest, src, mem, []⟩ := by
  have hn : n.toNat ≤ 2 ^ 32 := n.isLt.le
  have hbytes : byteLoop n.toNat ⟨dest, src, mem, []⟩ =
      (Copy.mk dest src mem []).chunks (List.replicate n.toNat 1) := byteLoop_eq _ _
  have hsum : (List.replicate n.toNat 1).sum = n.toNat := by simp
  have hsum' := RawEconet.sum_memcpyChunks dest src n.toNat
  have hmem : copyChunks mem (RawEconet.memcpyChunks dest src n.toNat) dest src =
      writeAll mem dest (slice mem src n.toNat) := Elf.memcpy_eq mem hn hapart
  have hmem' : copyChunks mem (List.replicate n.toNat 1) dest src =
      writeAll mem dest (slice mem src n.toNat) := by
    have hcopy := Elf.copyChunks_eq mem (List.replicate n.toNat 1) dest src
    rw [hsum] at hcopy
    exact hcopy hn hapart
  rw [memcpy_refines, hbytes]
  unfold Copy.chunks
  dsimp only
  rw [hsum, hsum', hmem, hmem', List.nil_append]
  have hlen : (slice mem src n.toNat).length = n.toNat := length_slice mem src n.toNat
  refine ⟨rfl, ?_, rfl, ?_, rfl⟩
  · intro k hk
    rw [holds_writeAll mem dest (hlen.trans_le hn) k (hk.trans_eq hlen.symm)]
    simp [slice]
  · intro a ha
    apply writeAll_outside _ (hlen.trans_le hn)
    rw [hlen]
    by_contra hlt
    apply ha
    rw [slice, List.mem_map]
    refine ⟨(a - dest).toNat, List.mem_range.mpr (not_le.mp hlt), ?_⟩
    exact start_add_sub dest a

end Copies

/-- Five bytes between aligned addresses: a word and a byte. -/
theorem five_bytes_copied :
    (memcpy (fun a => (a >>> 8).setWidth 8) 0x1000#32 0x2000#32 5#32).2.mem 0x1004#32 = 0x20#8 := by
  have hapart : Apart 0x1000#32 0x2000#32 (5#32).toNat := by
    intro i j hi hj
    have hi' : i < 5 := hi
    have hj' : j < 5 := hj
    bv_omega
  exact ((memcpy_copies hapart).2.1 4 (by decide)).trans (by decide)

end Filestick.Memcpy
