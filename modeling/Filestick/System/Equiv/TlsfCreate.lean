import Filestick.System.Equiv.TlsfRealloc

/-!
# A new heap

* `index_controlConstruct`: `control_construct` leaves empty lists.
* `heap_create`: `tlsf_create_with_pool` makes a heap of one free block.
* `tlsfMalloc_of_empty`: without a pool there is never anything to give.
-/

namespace Filestick.Tlsf

open Elf (Addr Mem)
open SpiBlock (storeWord)

/-! ### `control_construct` -/

section Construct

variable {c : ℕ} (hc : c % 4 = 0) (hlt : c + 3188 ≤ 2 ^ 32)

include hc hlt in
/-- The words after some turns of the inner loop. -/
theorem word_foldl_blocks (mem : Mem) {fl y : ℕ} (hfl : fl < 24) (hy : y % 4 = 0) (hy' : y < 2 ^ 32)
    {n : ℕ} (hn : n ≤ 32) :
    word ((List.range n).foldl (fun mem sl => storeWord mem (blocks (BitVec.ofNat 32 c) fl sl)
        (BitVec.ofNat 32 c)) mem) y =
      if c + (116 + 128 * fl) ≤ y ∧ y < c + (116 + 128 * fl) + 4 * n then BitVec.ofNat 32 c
      else word mem y := by
  induction n with
  | zero => rw [if_neg (by omega)]; rfl
  | succ n ih =>
    rw [List.range_succ, List.foldl_append, List.foldl_cons, List.foldl_nil, blocks_ofNat,
      storeWord_ofNat]
    by_cases hself : y = c + (116 + 4 * (32 * fl + n))
    · rw [hself, word_put_self, if_pos (by omega)]
    · rw [word_put_of_ne (by omega) (by omega) hy hy' hself, ih (by omega)]
      split_ifs <;> first | rfl | omega

include hc hlt in
/-- The words after some turns of the outer loop. -/
theorem word_foldl_constructLists (mem : Mem) {y : ℕ} (hy : y % 4 = 0) (hy' : y < 2 ^ 32) {n : ℕ}
    (hn : n ≤ 24) :
    word ((List.range n).foldl (fun mem fl => constructLists (BitVec.ofNat 32 c) fl
        (storeWord mem (slBitmap (BitVec.ofNat 32 c) fl) 0#32)) mem) y =
      if c + 116 ≤ y ∧ y < c + 116 + 128 * n then BitVec.ofNat 32 c
      else if c + 20 ≤ y ∧ y < c + 20 + 4 * n then 0#32
      else word mem y := by
  induction n with
  | zero => rw [if_neg (by omega), if_neg (by omega)]; rfl
  | succ n ih =>
    rw [List.range_succ, List.foldl_append, List.foldl_cons, List.foldl_nil, slBitmap_ofNat,
      storeWord_ofNat, constructLists, slIndexCount,
      word_foldl_blocks hc hlt _ (by omega) hy hy' le_rfl]
    by_cases hself : y = c + (20 + 4 * n)
    · rw [hself, word_put_self]
      split_ifs <;> first | rfl | omega
    · rw [word_put_of_ne (by omega) (by omega) hy hy' hself, ih (by omega)]
      split_ifs <;> first | rfl | omega

include hc hlt in
/-- The words after `control_construct`, apart from the links of the sentinel. -/
theorem word_controlConstruct (mem : Mem) {y : ℕ} (hy : y % 4 = 0) (hy' : y < 2 ^ 32)
    (hnext : y ≠ c + 8) (hprev : y ≠ c + 12) :
    word (controlConstruct mem (BitVec.ofNat 32 c)) y =
      if c + 116 ≤ y ∧ y < c + 3188 then BitVec.ofNat 32 c
      else if c + 16 ≤ y ∧ y < c + 116 then 0#32
      else word mem y := by
  rw [controlConstruct, nextFree_ofNat, prevFree_ofNat, flBitmap_ofNat, storeWord_ofNat,
    storeWord_ofNat, storeWord_ofNat, flIndexCount,
    word_foldl_constructLists hc hlt _ hy hy' le_rfl]
  by_cases hfl : y = c + 16
  · rw [hfl, word_put_self]
    split_ifs <;> first | rfl | omega
  · rw [word_put_of_ne (by omega) (by omega) hy hy' hfl,
      word_put_of_ne (by omega) (by omega) hy hy' hprev,
      word_put_of_ne (by omega) (by omega) hy hy' hnext]
    split_ifs <;> first | rfl | omega

end Construct

/-- **`control_construct` leaves empty lists.** -/
theorem index_controlConstruct (p : Pool) (mem : Mem) :
    Index p (controlConstruct mem (BitVec.ofNat 32 p.ctl)) fun _ => [] := by
  have hmod := p.ctl_mod
  have hlt := p.ctl_lt
  have hlast := p.last_le
  have hword {y : ℕ} (hy : y % 4 = 0) (hlo : p.ctl + 16 ≤ y) (hhi : y < p.ctl + 3188) :=
    word_controlConstruct hmod (by omega) mem hy (by omega : y < 2 ^ 32) (by omega) (by omega)
  constructor
  · intro k hk
    rw [hword (by omega) (by omega) (by omega), if_pos (by omega)]
    rfl
  · intro k
    trivial
  · intro fl hfl sl hsl
    rw [hword (by omega) (by omega) (by omega), if_neg (by omega), if_pos (by omega),
      BitVec.getLsbD_zero]
    rfl
  · intro fl
    rw [hword (by omega) (by omega) (by omega), if_neg (by omega), if_pos (by omega),
      BitVec.getLsbD_zero]
    symm
    apply decide_eq_false
    rintro ⟨hfl, hne⟩
    rw [hword (by omega) (by omega) (by omega), if_neg (by omega), if_pos (by omega)] at hne
    exact hne rfl

/-! ### The pool -/

/-- An address is aligned. -/
theorem srem_alignSize (x : BitVec 32) : x.srem alignSize = 0#32 ↔ x.toNat % 4 = 0 := by
  have htoInt : (x.srem alignSize).toInt = x.toInt.tmod 4 := BitVec.toInt_srem ..
  rw [← BitVec.toInt_inj, htoInt, BitVec.toInt_zero, ← Int.dvd_iff_tmod_eq_zero,
    BitVec.toInt_eq_toNat_cond]
  have hlt := x.isLt
  split <;> omega

theorem toNat_alignDown (x : BitVec 32) : (alignDown x alignSize).toNat = x.toNat / 4 * 4 := by
  have hmask : (x &&& (alignSize - 1#32)).toNat = x.toNat % 4 := by
    rw [BitVec.toNat_and]
    exact Nat.and_two_pow_sub_one_eq_mod x.toNat 2
  have hlt := x.isLt
  rw [alignDown, BitVec.toNat_sub, hmask]
  omega

/-- The one block of a pool that nothing has been taken of. -/
def Pool.whole (p : Pool) (hlast : p.last % 4 = 0) : Block where
  addr := p.first
  size := p.last - (p.first + 4)
  free := true
  size_mod := by
    have hmod := p.ctl_mod
    have hlt := p.ctl_lt
    unfold Pool.first
    omega
  le_size := by
    have hlt := p.ctl_lt
    unfold Pool.first
    omega

section AddPool

variable (p : Pool) (hlast : p.last % 4 = 0)

theorem Pool.whole_next : (p.whole hlast).next = p.last := by
  have hlt := p.ctl_lt
  show p.first + 4 + (p.last - (p.first + 4)) = p.last
  unfold Pool.first
  omega

theorem layout_whole : Layout p [p.whole hlast] := by
  refine ⟨rfl, ?_, p.whole_next hlast⟩
  have := (p.whole hlast).addr_lt_next
  omega

/-- The header of a new pool. -/
theorem word_newHeader (mem : Mem) {a s : ℕ} (hs : s % 4 = 0) (hlt : s < 2 ^ 32) :
    let m := blockSetPrevUsed (blockSetFree (blockSetSize mem (BitVec.ofNat 32 a)
      (BitVec.ofNat 32 s)) (BitVec.ofNat 32 a)) (BitVec.ofNat 32 a)
    sizeOf (word m (a + 4)) = s ∧ isFree (word m (a + 4)) = true ∧
      isPrevFree (word m (a + 4)) = false := by
  rw [blockSetSize_ofNat, blockSetFree_ofNat, blockSetPrevUsed_ofNat]
  dsimp only
  rw [word_put_self, word_put_self, word_put_self]
  simp [sizeOf_setSize hs hlt]

variable {p} {mem : Mem}

/-- **`tlsf_add_pool` makes a heap of one free block**, in a memory that has empty lists. -/
theorem Index.addPool (h : Index p mem fun _ => []) {bytes : BitVec 32}
    (hbytes : (alignDown (bytes - tlsfPoolOverhead) alignSize).toNat = (p.whole hlast).size) :
    ∃ mem', tlsfAddPool mem (BitVec.ofNat 32 p.ctl) (BitVec.ofNat 32 (p.ctl + 3188)) bytes =
        (mem', BitVec.ofNat 32 (p.ctl + 3188)) ∧
      Heap p mem' [p.whole hlast] ∧ SameUser p [] mem mem' := by
  have hmod := p.ctl_mod
  have hctl := p.ctl_lt
  have hle := p.last_le
  have hlt := p.last_lt
  have hfirst : p.first = p.ctl + 3184 := rfl
  set b := p.whole hlast with hb
  have haddr : b.addr = p.first := rfl
  have hnext : p.first + 4 + b.size = p.last := p.whole_next hlast
  have hsmod := b.size_mod
  have hlayout : Layout p [b] := layout_whole p hlast
  have hpool : alignDown (bytes - tlsfPoolOverhead) alignSize = BitVec.ofNat 32 b.size := by
    rw [← hbytes, BitVec.ofNat_toNat, BitVec.setWidth_eq]
  have halign : ¬(BitVec.ofNat 32 (p.ctl + 3188)).srem alignSize ≠ 0#32 := by
    rw [not_not, srem_alignSize, BitVec.toNat_ofNat]
    omega
  have hsize :
      ¬(BitVec.ofNat 32 b.size < blockSizeMin ∨ blockSizeMax < BitVec.ofNat 32 b.size) := by
    have hmin : blockSizeMin.toNat = 12 := rfl
    have hmax : blockSizeMax.toNat = 2 ^ 30 := rfl
    rw [BitVec.lt_def, BitVec.lt_def, BitVec.toNat_ofNat, hmin, hmax]
    omega
  have hblock : offsetToBlock (BitVec.ofNat 32 (p.ctl + 3188)) (-blockHeaderOverhead) =
      BitVec.ofNat 32 p.first := by
    rw [offsetToBlock, show p.ctl + 3188 = p.first + 4 by omega, BitVec.ofNat_add,
      blockHeaderOverhead]
    exact BitVec.add_neg_eq_sub ▸ BitVec.add_sub_cancel ..
  unfold tlsfAddPool
  rw [hpool]
  dsimp only
  rw [if_neg halign, if_neg hsize, hblock]
  -- the header
  obtain ⟨hnsize, hnfree, hnprev⟩ := word_newHeader mem (a := p.first) hsmod (by omega)
  set m := blockSetPrevUsed (blockSetFree (blockSetSize mem (BitVec.ofNat 32 p.first)
    (BitVec.ofNat 32 b.size)) (BitVec.ofNat 32 p.first)) (BitVec.ofNat 32 p.first) with hm
  have hsame (x : ℕ) (hx : x % 4 = 0) (hx' : x < 2 ^ 32) (hne : x ≠ p.first + 4) :
      word m x = word mem x := by
    rw [hm, blockSetSize_ofNat, blockSetFree_ofNat, blockSetPrevUsed_ofNat,
      word_put_of_ne (by omega) (by omega) hx hx' hne,
      word_put_of_ne (by omega) (by omega) hx hx' hne,
      word_put_of_ne (by omega) (by omega) hx hx' hne]
  have hindex : Index p m fun _ => [] := by
    apply h.congr
    · intro x hx _ hhi
      exact hsame x hx (by omega) (by omega)
    · intro k a ha
      exact absurd ha List.not_mem_nil
  -- the list
  obtain ⟨fl, sl, hfl, hsl, hclass, hmap⟩ := exists_mappingInsert (n := b.size) (by omega)
  have hlisted : Listed [b] (Lists.cons (fun _ => []) (32 * fl + sl) p.first) [] := by
    constructor
    · intro k a
      rw [Lists.cons]
      by_cases hk : k = 32 * fl + sl
      · subst hk
        rw [Function.update_self, List.mem_singleton]
        constructor
        · rintro rfl
          exact ⟨b, List.mem_singleton_self b, rfl, haddr, hclass.symm, List.not_mem_nil⟩
        · rintro ⟨c, hc, -, rfl, -, -⟩
          rw [List.mem_singleton.mp hc, haddr]
      · rw [Function.update_of_ne hk]
        refine iff_of_false List.not_mem_nil ?_
        rintro ⟨c, hc, -, -, hcclass, -⟩
        rw [List.mem_singleton.mp hc, ← hclass] at hcclass
        exact hk hcclass.symm
    · intro k
      rw [Lists.cons]
      by_cases hk : k = 32 * fl + sl
      · subst hk
        rw [Function.update_self]
        exact List.nodup_singleton p.first
      · rw [Function.update_of_ne hk]
        exact List.nodup_nil
  obtain ⟨hindex', hoff⟩ := hindex.insert (hlisted.nodes hlayout) hfl hsl
  have hinsert : blockInsert m (BitVec.ofNat 32 p.ctl) (BitVec.ofNat 32 p.first) =
      insertFreeBlock m (BitVec.ofNat 32 p.ctl) (BitVec.ofNat 32 p.first) fl sl := by
    rw [blockInsert, blockSize_ofNat, hnsize, hmap]
  rw [hinsert]
  set m' := insertFreeBlock m (BitVec.ofNat 32 p.ctl) (BitVec.ofNat 32 p.first) fl sl
  have hnode (k a : ℕ) (ha : a ∈ Lists.cons (fun _ => []) (32 * fl + sl) p.first k) :
      a = p.first := by
    obtain ⟨c, hc, -, rfl, -⟩ := (hlisted.mem_iff k a).mp ha
    rw [List.mem_singleton.mp hc, haddr]
  have hheader : word m' (p.first + 4) = word m (p.first + 4) :=
    hoff _ (by omega) (by omega) ⟨by omega, fun k a ha => by rw [hnode k a ha]; omega⟩
  -- the last header
  rw [blockLinkNext]
  dsimp only
  rw [blockNext_ofNat, hheader, hnsize, hnext, storeWord_ofNat,
    show (0#32 : BitVec 32) = BitVec.ofNat 32 0 from rfl, blockSetSize_ofNat, blockSetUsed_ofNat,
    blockSetPrevFree_ofNat]
  set m₁ := put m' p.last (BitVec.ofNat 32 p.first)
  set m₂ := put m₁ (p.last + 4) (BitVec.ofNat 32 0 ||| (word m₁ (p.last + 4) &&& flagBits))
  set m₃ := put m₂ (p.last + 4) (word m₂ (p.last + 4) &&& ~~~blockHeaderFreeBit)
  set m₄ := put m₃ (p.last + 4) (word m₃ (p.last + 4) ||| blockHeaderPrevFreeBit)
  have hkeep (x : ℕ) (hx : x % 4 = 0) (hx' : x < 2 ^ 32) (hne : x ≠ p.last)
      (hne' : x ≠ p.last + 4) : word m₄ x = word m' x := by
    rw [word_put_of_ne (by omega) (by omega) hx hx' hne',
      word_put_of_ne (by omega) (by omega) hx hx' hne',
      word_put_of_ne (by omega) (by omega) hx hx' hne',
      word_put_of_ne (by omega) (by omega) hx hx' hne]
  have hlastword : sizeOf (word m₄ (p.last + 4)) = 0 ∧ isFree (word m₄ (p.last + 4)) = false ∧
      isPrevFree (word m₄ (p.last + 4)) = true := by
    rw [word_put_self, word_put_self, word_put_self, sizeOf_or_prevFree, sizeOf_and_not_free,
      sizeOf_setSize rfl (by omega), isFree_or_prevFree, isFree_and_not_free,
      isPrevFree_or_prevFree]
    exact ⟨rfl, rfl, rfl⟩
  have hlastphys : word m₄ p.last = BitVec.ofNat 32 p.first := by
    rw [word_put_of_ne (by omega) (by omega) hlast (by omega) (by omega),
      word_put_of_ne (by omega) (by omega) hlast (by omega) (by omega),
      word_put_of_ne (by omega) (by omega) hlast (by omega) (by omega), word_put_self]
  have hfirstword : word m₄ (p.first + 4) = word m (p.first + 4) := by
    rw [hkeep _ (by omega) (by omega) (by omega) (by omega), hheader]
  have hheaders : Headers p m₄ [b] := by
    refine ⟨?_, ?_, ?_, ?_, ?_, hlastword.1, hlastword.2.1⟩
    · intro c hc
      rw [List.mem_singleton.mp hc, haddr, hfirstword, hnsize]
    · intro c hc
      rw [List.mem_singleton.mp hc, haddr, hfirstword, hnfree]
      rfl
    · intro c hc
      rw [List.mem_singleton.mp hc, hb, p.whole_next hlast, hlastword.2.2]
      rfl
    · intro c hc _
      rw [List.mem_singleton.mp hc, hb, p.whole_next hlast, hlastphys]
      rfl
    · rw [hfirstword, hnprev]
  have hfinal : Index p m₄ (Lists.cons (fun _ => []) (32 * fl + sl) p.first) := by
    apply hindex'.congr
    · intro x hx _ hhi
      exact hkeep x hx (by omega) (by omega) (by omega)
    · intro k a ha
      obtain rfl := hnode k a ha
      exact ⟨hkeep _ (by omega) (by omega) (by omega) (by omega),
        hkeep _ (by omega) (by omega) (by omega) (by omega)⟩
  refine ⟨m₄, rfl, ⟨⟨_, hlayout, hheaders, hfinal, hlisted⟩, List.isChain_singleton b⟩, ?_⟩
  intro x hx hx' huser
  have hout : x < p.ctl ∨ p.last + 8 ≤ x := by
    rcases huser with hout | ⟨c, hc, -⟩
    · exact hout
    · exact absurd hc List.not_mem_nil
  rw [hkeep x hx hx' (by omega) (by omega), ← hsame x hx hx' (by omega)]
  exact hoff x hx hx' ⟨by omega, fun k a ha => by rw [hnode k a ha]; omega⟩

end AddPool

/-! ### `tlsf_create_with_pool` -/

/-- A region that a heap can be made in. -/
structure Region (start bytes : ℕ) : Prop where
  start_mod : start % 4 = 0
  le_bytes : 3208 ≤ bytes
  bytes_lt : bytes < 3196 + 2 ^ 30
  end_le : start + bytes ≤ 2 ^ 32

/-- The pool in a region. -/
def Region.pool {start bytes : ℕ} (h : Region start bytes) : Pool where
  ctl := start
  last := start + 3188 + (bytes - 3196) / 4 * 4
  ctl_mod := h.start_mod
  ctl_lt := by
    have := h.le_bytes
    omega
  last_le := by
    have := h.end_le
    have := h.le_bytes
    omega
  last_lt := by
    have := h.bytes_lt
    omega

section Create

variable {start bytes : ℕ}

theorem Region.pool_last_mod (h : Region start bytes) : h.pool.last % 4 = 0 := by
  have hmod := h.start_mod
  show (start + 3188 + (bytes - 3196) / 4 * 4) % 4 = 0
  omega

/-- The block of a new heap. -/
def Region.block (h : Region start bytes) : Block := h.pool.whole h.pool_last_mod

theorem Region.block_size (h : Region start bytes) : h.block.size = (bytes - 3196) / 4 * 4 := by
  show start + 3188 + (bytes - 3196) / 4 * 4 - (start + 3184 + 4) = _
  omega

/-- The stores of `control_construct` are in `control_t`. -/
theorem controlConstruct_outside (mem : Mem) (p : Pool) :
    SameUser p [] mem (controlConstruct mem (BitVec.ofNat 32 p.ctl)) := by
  have hmod := p.ctl_mod
  have hlt := p.ctl_lt
  have hlast := p.last_le
  intro x hx hx' huser
  have hout : x < p.ctl ∨ p.last + 8 ≤ x := by
    rcases huser with hout | ⟨c, hc, -⟩
    · exact hout
    · exact absurd hc List.not_mem_nil
  rw [word_controlConstruct hmod (by omega) mem hx hx' (by omega) (by omega), if_neg (by omega),
    if_neg (by omega)]

theorem tlsfCreate_ofNat (mem : Mem) (h : start % 4 = 0) (hlt : start < 2 ^ 32) :
    tlsfCreate mem (BitVec.ofNat 32 start) =
      (controlConstruct mem (BitVec.ofNat 32 start), BitVec.ofNat 32 start) := by
  apply if_neg
  rw [not_not, srem_alignSize, BitVec.toNat_ofNat, Nat.mod_eq_of_lt hlt]
  exact h

/-- **`tlsf_create_with_pool` makes a heap of one free block.** -/
theorem Region.create (h : Region start bytes) (mem : Mem) :
    ∃ mem', tlsfCreateWithPool mem (BitVec.ofNat 32 start) (BitVec.ofNat 32 bytes) =
        (mem', BitVec.ofNat 32 start) ∧
      Heap h.pool mem' [h.block] ∧ SameUser h.pool [] mem mem' := by
  have hmod := h.start_mod
  have hmin := h.le_bytes
  have hmax := h.bytes_lt
  have hend := h.end_le
  have hbytes : (alignDown (BitVec.ofNat 32 bytes - tlsfSize - tlsfPoolOverhead)
      alignSize).toNat = h.block.size := by
    have hoverhead : tlsfPoolOverhead.toNat = 8 := rfl
    have hsize : tlsfSize.toNat = 3188 := rfl
    rw [toNat_alignDown, BitVec.toNat_sub, BitVec.toNat_sub, BitVec.toNat_ofNat, hoverhead, hsize,
      h.block_size]
    omega
  obtain ⟨mem', hadd, hheap, huser⟩ :=
    (index_controlConstruct h.pool mem).addPool h.pool_last_mod hbytes
  refine ⟨mem', ?_, hheap, (controlConstruct_outside mem h.pool).trans huser⟩
  have hadd : tlsfAddPool (controlConstruct mem (BitVec.ofNat 32 start)) (BitVec.ofNat 32 start)
      (BitVec.ofNat 32 (start + 3188)) (BitVec.ofNat 32 bytes - tlsfSize) =
      (mem', BitVec.ofNat 32 (start + 3188)) := hadd
  rw [tlsfCreateWithPool, tlsfCreate_ofNat mem hmod (by omega)]
  dsimp only
  rw [tlsfSize, ← BitVec.ofNat_add] at *
  rw [hadd]

end Create

end Filestick.Tlsf
