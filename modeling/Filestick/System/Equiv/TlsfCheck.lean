import Filestick.System.Equiv.TlsfRun

/-!
# The checks of the allocator

`tlsf_check` and `tlsf_check_pool` look for faults in the lists and in the headers.

* `Heap.check`, `Heap.checkPool`: they find none in a heap.
* `Region.run_checks`: and so none after any run.
-/

namespace Filestick.Tlsf

open Elf (Addr Mem)
open SpiBlock (loadWord)
open LinkedList (Linked)

@[simp] theorem tlsfInsist_true (status : ℤ) : tlsfInsist status true = status := rfl

section Checks

variable {p : Pool} {mem : Mem} {bs l r : List Block} {F : Lists} {b : Block}

/-- The blocks around a free one are in use. -/
theorem Heap.around_free (h : Heap p mem bs) (hb : b ∈ bs) (hfree : b.free = true) :
    isPrevFree (word mem (b.addr + 4)) = false ∧ isFree (word mem (b.next + 4)) = false := by
  obtain ⟨F, hrep⟩ := h.rep
  obtain ⟨l, r, rfl⟩ := List.append_of_mem hb
  rw [List.append_cons] at *
  obtain ⟨-, -, hleft, hright⟩ := h.coalesced.around
  obtain ⟨hl, hr⟩ := hrep.layout.around
  constructor
  · rcases List.eq_nil_or_concat l with rfl | ⟨l', c, rfl⟩
    · have heq : p.first = b.addr := hl
      rw [← heq, hrep.headers.first]
    · rw [List.concat_eq_append] at *
      obtain ⟨-, -, heq⟩ := Tiling.tiles_append_cons.mp hl
      have heq : c.next = b.addr := heq
      rw [← heq, hrep.headers.prevFree c (by simp), hleft hfree c (by simp)]
  · rcases r with _ | ⟨c, r'⟩
    · have heq : b.next = p.last := hr
      rw [heq, hrep.headers.lastUsed]
    · have heq : c.addr = b.next := hr.1
      rw [← heq, hrep.headers.free c (by simp), hright hfree c (by simp)]

/-- There is nothing wrong with a free block in its list. -/
theorem Heap.checkBlock (h : Heap p mem bs) (hb : b ∈ bs) (hfree : b.free = true) {i j : ℕ}
    (hj : j < 32) (hclass : sizeClass b.size = 32 * i + j) (status : ℤ) :
    Tlsf.checkBlock mem i j status (BitVec.ofNat 32 b.addr) = status := by
  obtain ⟨F, hrep⟩ := h.rep
  obtain ⟨hprev, hnext⟩ := h.around_free hb hfree
  have hsize := hrep.headers.size b hb
  have hlt := hrep.layout.size_lt hb
  have hnextAddr : blockNext mem (BitVec.ofNat 32 b.addr) = BitVec.ofNat 32 b.next := by
    rw [blockNext_ofNat, hsize]
    rfl
  have hmin : blockSizeMin ≤ BitVec.ofNat 32 b.size := by
    have hle := b.le_size
    rw [BitVec.le_def, BitVec.toNat_ofNat, Nat.mod_eq_of_lt (by omega)]
    exact hle
  have hmap : mappingInsert (BitVec.ofNat 32 b.size) = (i, j) := by
    obtain ⟨fl, sl, -, hsl, hindex, hmap⟩ := exists_mappingInsert hlt
    rw [hmap, Prod.mk.injEq]
    omega
  unfold Tlsf.checkBlock
  rw [hnextAddr, blockIsFree_ofNat, blockIsPrevFree_ofNat, blockIsFree_ofNat, blockIsPrevFree_ofNat,
    blockSize_ofNat, hsize, hrep.headers.free b hb, hfree, hprev, hnext,
    hrep.headers.prevFree b hb, hfree, hmap]
  simp [hmin]

/-- Nor with the blocks of a list. -/
theorem Heap.checkList (h : Heap p mem bs) {i j : ℕ} (hj : j < 32) (status : ℤ) {nodes : List ℕ} :
    ∀ {q : ℕ}, Linked (nextAt mem) (prevAt mem) p.ctl q nodes →
    (∀ a ∈ nodes, ∃ b ∈ bs, b.free = true ∧ b.addr = a ∧ sizeClass b.size = 32 * i + j) →
    ∀ {fuel : ℕ}, nodes.length < fuel →
    Tlsf.checkList mem (BitVec.ofNat 32 p.ctl) i j fuel status
      (BitVec.ofNat 32 (nodes.headD p.ctl)) = some status := by
  induction nodes with
  | nil =>
    intro q _ _ fuel hfuel
    obtain ⟨fuel, rfl⟩ := Nat.exists_eq_succ_of_ne_zero (Nat.ne_of_gt hfuel)
    exact if_neg (not_not.mpr rfl)
  | cons a nodes ih =>
    intro q hlinked hnodes fuel hfuel
    obtain ⟨-, hnext, hlinked⟩ := hlinked
    obtain ⟨fuel, rfl⟩ := Nat.exists_eq_succ_of_ne_zero (Nat.ne_zero_of_lt hfuel)
    obtain ⟨b, hb, hfree, rfl, hclass⟩ := hnodes a List.mem_cons_self
    obtain ⟨F, hrep⟩ := h.rep
    obtain ⟨-, hlo, hbn, hhi, -⟩ := hrep.layout.bounds hb
    have hfirst : p.first = p.ctl + 3184 := rfl
    have hlast := p.last_le
    have hne : BitVec.ofNat 32 b.addr ≠ BitVec.ofNat 32 p.ctl := by
      rw [ne_eq, ofNat_inj (by omega) (by omega)]
      omega
    have hstep : loadWord mem (nextFree (BitVec.ofNat 32 b.addr)) =
        BitVec.ofNat 32 (nodes.headD p.ctl) := by
      rw [nextFree_ofNat, loadWord_ofNat, word_eq_ofNat_next, hnext]
    rw [List.headD_cons, Tlsf.checkList, if_pos hne, h.checkBlock hb hfree hj hclass, hstep]
    exact ih hlinked (fun a ha => hnodes a (List.mem_cons_of_mem _ ha)) (by simpa using hfuel)

/-- A bit of a word is looked at. -/
theorem and_bit_eq_zero_iff (x : BitVec 32) {i : ℕ} (hi : i < 32) :
    x &&& (1#32 <<< i) = 0#32 ↔ x.getLsbD i = false := by
  constructor
  · intro h
    have hbit := congrArg (fun y : BitVec 32 => y.getLsbD i) h
    simpa [hi] using hbit
  · intro h
    refine BitVec.eq_of_getLsbD_eq fun j hj => ?_
    rw [BitVec.getLsbD_and, BitVec.getLsbD_shiftLeft, BitVec.getLsbD_zero, getLsbD_one]
    by_cases hji : j = i
    · rw [hji, h, Bool.false_and]
    · have : ¬(i ≤ j ∧ j - i = 0) := by omega
      by_cases hlt : j < i
      · simp [hlt]
      · simp [show ¬j - i = 0 by omega]

/-- There are not more nodes than blocks. -/
theorem Listed.length_le {X : List ℕ} (h : Listed bs F X) (k : ℕ) : (F k).length ≤ bs.length := by
  have hsub : F k ⊆ bs.map Block.addr := by
    intro a ha
    obtain ⟨b, hb, -, rfl⟩ := h.exists_block k a ha
    exact List.mem_map_of_mem hb
  have := (List.subperm_of_subset (h.nodup k) hsub).length_le
  rwa [List.length_map] at this

/-- Nor with a list, and what the bitmaps say of it. -/
theorem Heap.checkIndex (h : Heap p mem bs) {i j fuel : ℕ} (hi : i < 24) (hj : j < 32)
    (hfuel : bs.length < fuel) (status : ℤ) :
    Tlsf.checkIndex mem (BitVec.ofNat 32 p.ctl) fuel i j status = some status := by
  obtain ⟨F, hrep⟩ := h.rep
  have hslBit := hrep.index.slBit i hi j hj
  have hflBit := hrep.index.flBit i
  have hslMap := and_bit_eq_zero_iff (word mem (p.ctl + (20 + 4 * i))) hj
  unfold Tlsf.checkIndex
  rw [flBitmap_ofNat, slBitmap_ofNat, blocks_ofNat, loadWord_ofNat, loadWord_ofNat, loadWord_ofNat,
    hrep.index.head _ (by omega)]
  dsimp only
  by_cases hempty : F (32 * i + j) = []
  · have hzero : word mem (p.ctl + (20 + 4 * i)) &&& (1#32 <<< j) = 0#32 := by
      rw [hslMap, hslBit, hempty]
      rfl
    rw [if_pos hzero, hempty]
    simp [hzero]
  · have hset : ¬word mem (p.ctl + (20 + 4 * i)) &&& (1#32 <<< j) = 0#32 := by
      rw [hslMap, hslBit]
      simpa using hempty
    have hlist : word mem (p.ctl + (20 + 4 * i)) ≠ 0#32 := by
      intro h0
      rw [h0, BitVec.zero_and] at hset
      exact hset rfl
    have hfl : ¬word mem (p.ctl + 16) &&& (1#32 <<< i) = 0#32 := by
      rw [and_bit_eq_zero_iff _ (by omega), hflBit]
      simp [hi, hlist]
    have hhead : BitVec.ofNat 32 ((F (32 * i + j)).headD p.ctl) ≠ BitVec.ofNat 32 p.ctl := by
      have hmem : (F (32 * i + j)).headD p.ctl ∈ F (32 * i + j) := LinkedList.headD_mem hempty
      have hnodes := hrep.listed.nodes hrep.layout
      have hlo := hnodes.first_le _ _ hmem
      have hle := hnodes.le _ _ hmem
      have hfirst : p.first = p.ctl + 3184 := rfl
      rw [ne_eq, ofNat_inj (by omega) (by omega)]
      omega
    rw [if_neg hset, if_neg hfl]
    simp only [ne_eq, hlist, hhead, not_false_eq_true, decide_true, tlsfInsist_true]
    refine h.checkList hj status (hrep.index.linked _) ?_
      ((hrep.listed.length_le _).trans_lt hfuel)
    intro a ha
    obtain ⟨b, hb, hfree, haddr, hclass, -⟩ := (hrep.listed.mem_iff _ a).mp ha
    exact ⟨b, hb, hfree, haddr, hclass⟩

/-- A fold whose steps change nothing. -/
theorem foldlM_eq_some {α β : Type} {f : β → α → Option β} {s : β} :
    ∀ {l : List α}, (∀ x ∈ l, f s x = some s) → l.foldlM f s = some s := by
  intro l
  induction l with
  | nil => exact fun _ => rfl
  | cons x l ih =>
    intro h
    rw [List.foldlM_cons, h x List.mem_cons_self]
    exact ih fun y hy => h y (List.mem_cons_of_mem x hy)

/-- **`tlsf_check` finds no fault in a heap.** -/
theorem Heap.check (h : Heap p mem bs) {fuel : ℕ} (hfuel : bs.length < fuel) :
    tlsfCheck mem (BitVec.ofNat 32 p.ctl) fuel = some 0 := by
  apply foldlM_eq_some
  intro i hi
  apply foldlM_eq_some
  intro j hj
  exact h.checkIndex (List.mem_range.mp hi) (List.mem_range.mp hj) hfuel 0

/-- The walker finds what it has been told by the block before. -/
theorem integrityWalker_ofNat (mem : Mem) (a : ℕ) (status : ℤ) :
    integrityWalker mem (blockToPtr (BitVec.ofNat 32 a)) (blockSize mem (BitVec.ofNat 32 a))
        (isPrevFree (word mem (a + 4)), status) = (isFree (word mem (a + 4)), status) := by
  have hptr : blockFromPtr (blockToPtr (BitVec.ofNat 32 a)) = BitVec.ofNat 32 a :=
    BitVec.add_sub_cancel ..
  rw [integrityWalker, hptr, blockIsFree_ofNat, blockIsPrevFree_ofNat]
  simp

/-- The walk over the blocks from one on. -/
theorem Heap.walkPool (h : Heap p mem bs) (status : ℤ) :
    ∀ {t : List Block} {lo fuel : ℕ}, Tiling.Tiles Block.addr Block.next lo p.last t →
    (∀ b ∈ t, b ∈ bs) → t.length < fuel → 0 < lo →
    ∃ prev, Tlsf.walkPool mem fuel (isPrevFree (word mem (lo + 4)), status) (BitVec.ofNat 32 lo) =
      some (prev, status) := by
  obtain ⟨F, hrep⟩ := h.rep
  intro t
  induction t with
  | nil =>
    intro lo fuel htiles _ hfuel _
    have heq : lo = p.last := htiles
    obtain ⟨fuel, rfl⟩ := Nat.exists_eq_succ_of_ne_zero (Nat.ne_of_gt hfuel)
    refine ⟨_, if_neg ?_⟩
    rw [heq, blockSize_ofNat, hrep.headers.lastSize]
    exact fun hne => hne.2 rfl
  | cons b t ih =>
    intro lo fuel htiles hsub hfuel hpos
    obtain ⟨rfl, -, htiles⟩ := htiles
    obtain ⟨fuel, rfl⟩ := Nat.exists_eq_succ_of_ne_zero (Nat.ne_zero_of_lt hfuel)
    have hb := hsub b List.mem_cons_self
    have hsize := hrep.headers.size b hb
    have hlt := hrep.layout.size_lt hb
    have hle := b.le_size
    obtain ⟨-, hlo, hbn, hhi, -⟩ := hrep.layout.bounds hb
    have hlast := p.last_le
    have hne : BitVec.ofNat 32 b.addr ≠ 0#32 := by
      intro h0
      have := (ofNat_inj (a := b.addr) (b := 0) (by omega) (by omega)).mp h0
      omega
    have hne' : blockSize mem (BitVec.ofNat 32 b.addr) ≠ 0#32 := by
      rw [blockSize_ofNat, hsize]
      intro h0
      have := (ofNat_inj (a := b.size) (b := 0) (by omega) (by omega)).mp h0
      omega
    have hwalk := integrityWalker_ofNat mem b.addr status
    rw [hrep.headers.free b hb, ← hrep.headers.prevFree b hb] at hwalk
    have hnext : blockNext mem (BitVec.ofNat 32 b.addr) = BitVec.ofNat 32 b.next := by
      rw [blockNext_ofNat, hsize]
      rfl
    rw [Tlsf.walkPool, if_pos ⟨hne, hne'⟩, hwalk, hnext]
    exact ih htiles (fun c hc => hsub c (List.mem_cons_of_mem b hc)) (by simpa using hfuel)
      (by omega)

/-- **`tlsf_check_pool` finds no fault in a heap.** -/
theorem Heap.checkPool (h : Heap p mem bs) {fuel : ℕ} (hfuel : bs.length < fuel) :
    tlsfCheckPool mem (BitVec.ofNat 32 (p.ctl + 3188)) fuel = some 0 := by
  obtain ⟨F, hrep⟩ := h.rep
  have hfirst : p.first = p.ctl + 3184 := rfl
  have hblock : offsetToBlock (BitVec.ofNat 32 (p.ctl + 3188)) (-blockHeaderOverhead) =
      BitVec.ofNat 32 p.first := by
    rw [offsetToBlock, show p.ctl + 3188 = p.first + 4 by omega, BitVec.ofNat_add,
      blockHeaderOverhead]
    exact BitVec.add_neg_eq_sub ▸ BitVec.add_sub_cancel ..
  obtain ⟨prev, hwalk⟩ := h.walkPool 0 hrep.layout (fun b hb => hb) hfuel (by omega)
  rw [hrep.headers.first] at hwalk
  rw [tlsfCheckPool, hblock, hwalk]
  rfl

/-- A block takes up 16 bytes. -/
theorem tiles_length_le {lo hi : ℕ} (h : Tiling.Tiles Block.addr Block.next lo hi bs) :
    lo + 16 * bs.length ≤ hi := by
  induction bs generalizing lo with
  | nil =>
    have heq : lo = hi := h
    simpa using heq.le
  | cons b bs ih =>
    obtain ⟨rfl, -, hbs⟩ := h
    have := ih hbs
    have := b.addr_lt_next
    rw [List.length_cons]
    omega

end Checks

end Filestick.Tlsf
