import Filestick.System.Equiv.TlsfBlocks

/-!
# Splitting and merging

What the functions do to the blocks that the memory stands for, one after the other.

* `Rep.markFree`, `Rep.markUsed`: a block becomes free, or is used.
* `Rep.absorb`, `Rep.grow`: a block takes in the one behind it.
* `Rep.splitFree`, `Rep.splitUsed`: the second part of a block becomes a free block.
-/

namespace Filestick.Tlsf

open Elf (Mem)
open Tiling (Tiles tiles_append tiles_append_cons)

/-! ### Parts of blocks -/

/-- The first part of a block. -/
def Block.front (b : Block) (n : ℕ) (hmod : n % 4 = 0) (hle : 12 ≤ n) : Block :=
  ⟨b.addr, n, b.free, hmod, hle⟩

/-- The block behind the first part. -/
def Block.back (b : Block) (n : ℕ) (hmod : n % 4 = 0) (hle : n + 16 ≤ b.size) : Block where
  addr := b.addr + 4 + n
  size := b.size - n - 4
  free := true
  size_mod := by
    have := b.size_mod
    omega
  le_size := by omega

/-- Two blocks as one. -/
def Block.join (b c : Block) : Block where
  addr := b.addr
  size := b.size + 4 + c.size
  free := b.free
  size_mod := by
    have := b.size_mod
    have := c.size_mod
    omega
  le_size := by
    have := b.le_size
    omega

section Around

variable {p : Pool} {l r : List Block} {b c : Block}

/-- The blocks around a block. -/
theorem Layout.around (h : Layout p (l ++ [b] ++ r)) :
    Tiles Block.addr Block.next p.first b.addr l ∧ Tiles Block.addr Block.next b.next p.last r := by
  rw [List.append_assoc] at h
  obtain ⟨hl, -, hr⟩ := tiles_append_cons.mp h
  exact ⟨hl, hr⟩

/-- The blocks around two blocks. -/
theorem Layout.around_two (h : Layout p (l ++ [b, c] ++ r)) :
    Tiles Block.addr Block.next p.first b.addr l ∧ c.addr = b.next ∧
      Tiles Block.addr Block.next c.next p.last r := by
  rw [List.append_assoc] at h
  obtain ⟨hl, -, hc, -, hr⟩ := tiles_append_cons.mp h
  exact ⟨hl, hc, hr⟩

/-- Places of a block. -/
theorem Layout.bounds' (h : Layout p (l ++ [b] ++ r)) :
    b.addr % 4 = 0 ∧ b.next % 4 = 0 ∧ b.addr + 16 ≤ b.next ∧ b.next + 8 ≤ 2 ^ 32 := by
  obtain ⟨hmod, -, hnext, hlast, hmod'⟩ := h.bounds (b := b) (by simp)
  have := p.last_le
  exact ⟨hmod, hmod', hnext, by omega⟩

end Around

/-! ### Marks -/

section Marks

variable {p : Pool} {mem : Mem} {l r : List Block} {F : Lists} {b : Block}

theorem blockMarkAsFree_ofNat (mem : Mem) {a s : ℕ} (hs : sizeOf (word mem (a + 4)) = s) :
    blockMarkAsFree mem (BitVec.ofNat 32 a) =
      let m := put mem (a + 4 + s) (BitVec.ofNat 32 a)
      let m := put m (a + 4 + s + 4) (word m (a + 4 + s + 4) ||| blockHeaderPrevFreeBit)
      put m (a + 4) (word m (a + 4) ||| blockHeaderFreeBit) := by
  unfold blockMarkAsFree blockLinkNext
  dsimp only
  rw [blockNext_ofNat, hs, storeWord_ofNat, blockSetPrevFree_ofNat, blockSetFree_ofNat]

theorem blockMarkAsUsed_ofNat (mem : Mem) {a s : ℕ} (hs : sizeOf (word mem (a + 4)) = s) :
    blockMarkAsUsed mem (BitVec.ofNat 32 a) =
      let m := put mem (a + 4 + s + 4)
        (word mem (a + 4 + s + 4) &&& ~~~blockHeaderPrevFreeBit)
      put m (a + 4) (word m (a + 4) &&& ~~~blockHeaderFreeBit) := by
  unfold blockMarkAsUsed
  dsimp only
  rw [blockNext_ofNat, hs, blockSetPrevUsed_ofNat, blockSetUsed_ofNat]

/-- **A block becomes free**, and is in no list yet. -/
theorem Rep.markFree (h : Rep p mem (l ++ [b] ++ r) F []) (hused : b.free = false) :
    Rep p (blockMarkAsFree mem (BitVec.ofNat 32 b.addr)) (l ++ [b.mark true] ++ r) F [b.addr] ∧
      SameUser p (l ++ r) mem (blockMarkAsFree mem (BitVec.ofNat 32 b.addr)) := by
  obtain ⟨hl, hr⟩ := h.layout.around
  obtain ⟨hmod, hnmod, hnext, hle⟩ := h.layout.bounds'
  have hsize := h.headers.size b (by simp)
  rw [blockMarkAsFree_ofNat mem hsize, show b.addr + 4 + b.size = b.next from rfl]
  dsimp only
  have hnextword : word (put mem b.next (BitVec.ofNat 32 b.addr)) (b.next + 4) =
      word mem (b.next + 4) :=
    word_put_of_ne (by omega) (by omega) (by omega) (by omega) (by omega)
  rw [hnextword]
  have haddrword : word (put (put mem b.next (BitVec.ofNat 32 b.addr)) (b.next + 4)
      (word mem (b.next + 4) ||| blockHeaderPrevFreeBit)) (b.addr + 4) = word mem (b.addr + 4) := by
    rw [word_put_of_ne (by omega) (by omega) (by omega) (by omega) (by omega),
      word_put_of_ne (by omega) (by omega) (by omega) (by omega) (by omega)]
  rw [haddrword]
  have htile : Tiles Block.addr Block.next b.addr b.next [b] :=
    ⟨rfl, by have := b.addr_lt_next; omega, rfl⟩
  refine h.splice htile htile hnext hl hr ?_ ?_ ?_ ?_ ?_ ?_ ?_ ?_ ?_
  · simp [hused]
  · simp [Block.mark]
  · simp
  · simp
    omega
  · intro x hx hx' hside
    rw [word_put_of_ne (by omega) (by omega) hx hx' (by omega),
      word_put_of_ne (by omega) (by omega) hx hx' (by omega),
      word_put_of_ne (by omega) (by omega) hx hx' (by omega)]
  · intro c hc
    obtain rfl := List.mem_singleton.mp hc
    have hb := h.headers.of_mem (b := b) (by simp)
    refine ⟨?_, ?_, ?_, fun _ => ?_⟩
    · show sizeOf (word _ (b.addr + 4)) = b.size
      rw [word_put_self, sizeOf_or_free, hb.size]
    · show isFree (word _ (b.addr + 4)) = true
      rw [word_put_self, isFree_or_free]
    · show isPrevFree (word _ (b.next + 4)) = true
      rw [word_put_of_ne (by omega) (by omega) (by omega) (by omega) (by omega), word_put_self,
        isPrevFree_or_prevFree]
    · show word _ b.next = BitVec.ofNat 32 b.addr
      rw [word_put_of_ne (by omega) (by omega) (by omega) (by omega) (by omega),
        word_put_of_ne (by omega) (by omega) (by omega) (by omega) (by omega), word_put_self]
  · rw [word_put_self, isPrevFree_or_free]
  · rw [word_put_of_ne (by omega) (by omega) (by omega) (by omega) (by omega), word_put_self,
      sizeOf_or_prevFree]
  · rw [word_put_of_ne (by omega) (by omega) (by omega) (by omega) (by omega), word_put_self,
      isFree_or_prevFree]

/-- **A block that is in no list is used.** -/
theorem Rep.markUsed (h : Rep p mem (l ++ [b] ++ r) F [b.addr]) :
    Rep p (blockMarkAsUsed mem (BitVec.ofNat 32 b.addr)) (l ++ [b.mark false] ++ r) F [] ∧
      SameUser p (l ++ r) mem (blockMarkAsUsed mem (BitVec.ofNat 32 b.addr)) := by
  obtain ⟨hl, hr⟩ := h.layout.around
  obtain ⟨hmod, hnmod, hnext, hle⟩ := h.layout.bounds'
  have hsize := h.headers.size b (by simp)
  rw [blockMarkAsUsed_ofNat mem hsize, show b.addr + 4 + b.size = b.next from rfl]
  dsimp only
  rw [word_put_of_ne (b := b.addr + 4) (by omega) (by omega) (by omega) (by omega) (by omega)]
  have htile : Tiles Block.addr Block.next b.addr b.next [b] :=
    ⟨rfl, by have := b.addr_lt_next; omega, rfl⟩
  refine h.splice htile htile hnext hl hr ?_ ?_ ?_ ?_ ?_ ?_ ?_ ?_ ?_
  · simp
  · simp [Block.mark]
  · simp
    omega
  · simp
  · intro x hx hx' hside
    rw [word_put_of_ne (by omega) (by omega) hx hx' (by omega),
      word_put_of_ne (by omega) (by omega) hx hx' (by omega)]
  · intro c hc
    obtain rfl := List.mem_singleton.mp hc
    have hb := h.headers.of_mem (b := b) (by simp)
    refine ⟨?_, ?_, ?_, ?_⟩
    · show sizeOf (word _ (b.addr + 4)) = b.size
      rw [word_put_self, sizeOf_and_not_free, hb.size]
    · show isFree (word _ (b.addr + 4)) = false
      rw [word_put_self, isFree_and_not_free]
    · show isPrevFree (word _ (b.next + 4)) = false
      rw [word_put_of_ne (by omega) (by omega) (by omega) (by omega) (by omega), word_put_self,
        isPrevFree_and_not_prevFree]
    · exact fun htrue => absurd htrue Bool.false_ne_true
  · rw [word_put_self, isPrevFree_and_not_free]
  · rw [word_put_of_ne (by omega) (by omega) (by omega) (by omega) (by omega), word_put_self,
      sizeOf_and_not_prevFree]
  · rw [word_put_of_ne (by omega) (by omega) (by omega) (by omega) (by omega), word_put_self,
      isFree_and_not_prevFree]

end Marks

/-! ### Merging -/

section Merge

variable {p : Pool} {mem : Mem} {l r : List Block} {F : Lists} {X : List ℕ} {b c : Block}

/-- `block_absorb`, as stores of words. -/
theorem blockAbsorb_ofNat (mem : Mem) {a a' s s' : ℕ} (hs : sizeOf (word mem (a + 4)) = s)
    (hs' : sizeOf (word mem (a' + 4)) = s') (hlt : s + (s' + 4) < 2 ^ 32) :
    blockAbsorb mem (BitVec.ofNat 32 a) (BitVec.ofNat 32 a') =
      (put (put mem (a + 4) (word mem (a + 4) + BitVec.ofNat 32 (s' + 4)))
        (a + 4 + (s + (s' + 4))) (BitVec.ofNat 32 a), BitVec.ofNat 32 a) := by
  have hmod := sizeOf_mod (word mem (a' + 4))
  unfold blockAbsorb blockLinkNext
  dsimp only
  rw [blockSize_ofNat, hs', sizeField_ofNat, loadWord_ofNat, storeWord_ofNat, blockHeaderOverhead,
    ← BitVec.ofNat_add, blockNext_ofNat, word_put_self, sizeOf_add (by omega) _ (by omega), hs,
    storeWord_ofNat]

/-- The words that `block_absorb` changes. -/
theorem Rep.absorb_words (h : Rep p mem (l ++ [b, c] ++ r) F X) :
    blockAbsorb mem (BitVec.ofNat 32 b.addr) (BitVec.ofNat 32 c.addr) =
      (put (put mem (b.addr + 4) (word mem (b.addr + 4) + BitVec.ofNat 32 (c.size + 4))) c.next
        (BitVec.ofNat 32 b.addr), BitVec.ofNat 32 b.addr) := by
  obtain ⟨-, hc, -⟩ := h.layout.around_two
  have hb := h.layout.size_lt (b := b) (by simp)
  have hc' := h.layout.size_lt (b := c) (by simp)
  rw [blockAbsorb_ofNat mem (h.headers.size b (by simp)) (h.headers.size c (by simp)) (by omega)]
  have hplace : b.addr + 4 + (b.size + (c.size + 4)) = c.next := by
    unfold Block.next at *
    omega
  rw [hplace]

theorem Block.join_next (hc : c.addr = b.next) : (b.join c).next = c.next := by
  unfold Block.join Block.next at *
  dsimp only
  omega

/-- Places of two blocks. -/
theorem Layout.bounds_two (h : Layout p (l ++ [b, c] ++ r)) :
    b.addr % 4 = 0 ∧ c.addr % 4 = 0 ∧ c.next % 4 = 0 ∧ b.addr + 16 ≤ c.addr ∧
      c.addr + 16 ≤ c.next ∧ c.next + 8 ≤ 2 ^ 32 := by
  obtain ⟨hmod, -, hnext, -, -⟩ := h.bounds (b := b) (by simp)
  obtain ⟨hcmod, -, hcnext, hclast, hcnmod⟩ := h.bounds (b := c) (by simp)
  obtain ⟨-, hc, -⟩ := h.around_two
  have := p.last_le
  exact ⟨hmod, hcmod, hcnmod, by omega, hcnext, by omega⟩

/-- **Two free blocks that are in no list become one.** -/
theorem Rep.absorb (h : Rep p mem (l ++ [b, c] ++ r) F X) (hb : b.free = true) (hc : c.free = true)
    (hX : ∀ x, x ∈ X ↔ x = b.addr ∨ x = c.addr) :
    Rep p (blockAbsorb mem (BitVec.ofNat 32 b.addr) (BitVec.ofNat 32 c.addr)).1
        (l ++ [b.join c] ++ r) F [b.addr] ∧
      SameUser p (l ++ r) mem
        (blockAbsorb mem (BitVec.ofNat 32 b.addr) (BitVec.ofNat 32 c.addr)).1 := by
  obtain ⟨hl, hcb, hr⟩ := h.layout.around_two
  obtain ⟨hmod, hcmod, hnmod, hbc, hcn, hle⟩ := h.layout.bounds_two
  have hbsize := h.headers.size b (by simp)
  have hblt := h.layout.size_lt (b := b) (by simp)
  have hclt := h.layout.size_lt (b := c) (by simp)
  have hcmod4 := c.size_mod
  have hjoin := Block.join_next hcb
  rw [h.absorb_words]
  dsimp only
  refine h.splice ⟨rfl, by omega, hcb, by omega, rfl⟩ ⟨rfl, ?_, hjoin⟩ (by omega) hl hr ?_ ?_ ?_ ?_
    ?_ ?_ ?_ ?_ ?_
  · rw [hjoin]
    show b.addr < c.next
    omega
  · intro x hx _
    rcases List.mem_cons.mp hx with rfl | hx
    · exact (hX _).mpr (Or.inl rfl)
    · obtain rfl := List.mem_singleton.mp hx
      exact (hX _).mpr (Or.inr rfl)
  · simp [Block.join]
  · intro x hx
    rcases (hX x).mp hx with rfl | rfl <;> omega
  · simp
    omega
  · intro x hx hx' hside
    rw [word_put_of_ne (by omega) (by omega) hx hx' (by omega),
      word_put_of_ne (by omega) (by omega) hx hx' (by omega)]
  · intro x hx
    obtain rfl := List.mem_singleton.mp hx
    have hheader := h.headers.of_mem (b := b) (by simp)
    have hheader' := h.headers.of_mem (b := c) (by simp)
    refine ⟨?_, ?_, ?_, fun _ => ?_⟩
    · show sizeOf (word _ (b.addr + 4)) = b.size + 4 + c.size
      rw [word_put_of_ne (by omega) (by omega) (by omega) (by omega) (by omega), word_put_self,
        sizeOf_add (by omega) _ (by omega), hbsize]
      omega
    · show isFree (word _ (b.addr + 4)) = b.free
      rw [word_put_of_ne (by omega) (by omega) (by omega) (by omega) (by omega), word_put_self,
        isFree_add (by omega), hheader.free]
    · rw [hjoin]
      show isPrevFree (word _ (c.next + 4)) = b.free
      rw [word_put_of_ne (by omega) (by omega) (by omega) (by omega) (by omega),
        word_put_of_ne (by omega) (by omega) (by omega) (by omega) (by omega), hheader'.prevFree,
        hb, hc]
    · rw [hjoin]
      exact word_put_self ..
  · rw [word_put_of_ne (by omega) (by omega) (by omega) (by omega) (by omega), word_put_self,
      isPrevFree_add (by omega)]
  · rw [word_put_of_ne (by omega) (by omega) (by omega) (by omega) (by omega),
      word_put_of_ne (by omega) (by omega) (by omega) (by omega) (by omega)]
  · rw [word_put_of_ne (by omega) (by omega) (by omega) (by omega) (by omega),
      word_put_of_ne (by omega) (by omega) (by omega) (by omega) (by omega)]

/-- **A block in use takes in the free one behind it**, which is in no list. -/
theorem Rep.grow (h : Rep p mem (l ++ [b, c] ++ r) F [c.addr]) (hb : b.free = false) :
    Rep p (blockMarkAsUsed (blockAbsorb mem (BitVec.ofNat 32 b.addr) (BitVec.ofNat 32 c.addr)).1
        (BitVec.ofNat 32 b.addr)) (l ++ [b.join c] ++ r) F [] ∧
      SameUser p (l ++ [b] ++ r) mem
        (blockMarkAsUsed (blockAbsorb mem (BitVec.ofNat 32 b.addr) (BitVec.ofNat 32 c.addr)).1
          (BitVec.ofNat 32 b.addr)) := by
  obtain ⟨hl, hcb, hr⟩ := h.layout.around_two
  obtain ⟨hmod, hcmod, hnmod, hbc, hcn, hle⟩ := h.layout.bounds_two
  have hbsize := h.headers.size b (by simp)
  have hblt := h.layout.size_lt (b := b) (by simp)
  have hclt := h.layout.size_lt (b := c) (by simp)
  have hcmod4 := c.size_mod
  have hjoin := Block.join_next hcb
  have hjoin' : b.addr + 4 + (b.size + (c.size + 4)) = c.next := by
    unfold Block.next at *
    omega
  rw [h.absorb_words]
  dsimp only
  set m := put (put mem (b.addr + 4) (word mem (b.addr + 4) + BitVec.ofNat 32 (c.size + 4))) c.next
    (BitVec.ofNat 32 b.addr) with hm
  have hmb : word m (b.addr + 4) = word mem (b.addr + 4) + BitVec.ofNat 32 (c.size + 4) := by
    rw [hm, word_put_of_ne (by omega) (by omega) (by omega) (by omega) (by omega), word_put_self]
  have hmn : word m (c.next + 4) = word mem (c.next + 4) := by
    rw [hm, word_put_of_ne (by omega) (by omega) (by omega) (by omega) (by omega),
      word_put_of_ne (by omega) (by omega) (by omega) (by omega) (by omega)]
  have hmsize : sizeOf (word m (b.addr + 4)) = b.size + (c.size + 4) := by
    rw [hmb, sizeOf_add (by omega) _ (by omega), hbsize]
  rw [blockMarkAsUsed_ofNat m hmsize, hjoin']
  dsimp only
  rw [hmn, word_put_of_ne (b := b.addr + 4) (by omega) (by omega) (by omega) (by omega) (by omega),
    hmb]
  set m' := put (put m (c.next + 4) (word mem (c.next + 4) &&& ~~~blockHeaderPrevFreeBit))
    (b.addr + 4)
    ((word mem (b.addr + 4) + BitVec.ofNat 32 (c.size + 4)) &&& ~~~blockHeaderFreeBit) with hm'
  have hsame (x : ℕ) (hx : x % 4 = 0) (hx' : x < 2 ^ 32)
      (hside : x ≠ b.addr + 4 ∧ x ≠ c.next ∧ x ≠ c.next + 4) : word m' x = word mem x := by
    rw [hm', word_put_of_ne (by omega) (by omega) hx hx' (by omega),
      word_put_of_ne (by omega) (by omega) hx hx' (by omega), hm,
      word_put_of_ne (by omega) (by omega) hx hx' (by omega),
      word_put_of_ne (by omega) (by omega) hx hx' (by omega)]
  have hmn' : word m' (c.next + 4) = word mem (c.next + 4) &&& ~~~blockHeaderPrevFreeBit := by
    rw [hm', word_put_of_ne (by omega) (by omega) (by omega) (by omega) (by omega), word_put_self]
  have hmb' : word m' (b.addr + 4) =
      (word mem (b.addr + 4) + BitVec.ofNat 32 (c.size + 4)) &&& ~~~blockHeaderFreeBit :=
    word_put_self ..
  have hrep : Rep p m' (l ++ [b.join c] ++ r) F [] ∧ SameUser p (l ++ r) mem m' := by
    refine h.splice ⟨rfl, by omega, hcb, by omega, rfl⟩ ⟨rfl, ?_, hjoin⟩ (by omega) hl hr ?_ ?_ ?_
      ?_ ?_ ?_ ?_ ?_ ?_
    · rw [hjoin]
      show b.addr < c.next
      omega
    · simp [hb]
    · simp [Block.join, hb]
    · simp
      omega
    · simp
    · intro x hx hx' hside
      exact hsame x hx hx' (by omega)
    · intro x hx
      obtain rfl := List.mem_singleton.mp hx
      have hheader := h.headers.of_mem (b := b) (by simp)
      refine ⟨?_, ?_, ?_, ?_⟩
      · show sizeOf (word _ (b.addr + 4)) = b.size + 4 + c.size
        rw [hmb', sizeOf_and_not_free, sizeOf_add (by omega) _ (by omega), hbsize]
        omega
      · show isFree (word _ (b.addr + 4)) = b.free
        rw [hmb', isFree_and_not_free, hb]
      · rw [hjoin]
        show isPrevFree (word _ (c.next + 4)) = b.free
        rw [hmn', isPrevFree_and_not_prevFree, hb]
      · show b.free = true → _
        simp [hb]
    · rw [hmb', isPrevFree_and_not_free, isPrevFree_add (by omega)]
    · rw [hmn', sizeOf_and_not_prevFree]
    · rw [hmn', isFree_and_not_prevFree]
  refine ⟨hrep.1, ?_⟩
  -- the words of the block itself stay
  intro x hx hx' huser
  apply hsame x hx hx'
  have hlast := p.last_le
  have hctl := p.ctl_lt
  have hfirst : p.first = p.ctl + 3184 := rfl
  have hfirstle := hl.le
  have hlastle := hr.le
  rcases huser with hout | ⟨d, hd, -, hlo, hhi⟩
  · omega
  · have hdnext := d.addr_lt_next
    rcases List.mem_append.mp hd with hd | hd
    · rcases List.mem_append.mp hd with hd | hd
      · have := (hl.mem_bounds hd).2.2
        omega
      · obtain rfl := List.mem_singleton.mp hd
        omega
    · have := (hr.mem_bounds hd).1
      omega

end Merge

/-! ### Splitting -/

section Split

variable {p : Pool} {mem : Mem} {l r : List Block} {F : Lists} {X : List ℕ} {b : Block} {n : ℕ}
  (hmod : n % 4 = 0) (hn : 12 ≤ n) (hle : n + 16 ≤ b.size)

/-- The words after `block_split`, which changes four of them. -/
structure SplitWords (mem mem' : Mem) (b : Block) (n : ℕ) : Prop where
  front : word mem' (b.addr + 4) = BitVec.ofNat 32 n ||| (word mem (b.addr + 4) &&& flagBits)
  backSize : sizeOf (word mem' (b.addr + 4 + n + 4)) = b.size - n - 4
  backFree : isFree (word mem' (b.addr + 4 + n + 4)) = true
  phys : word mem' b.next = BitVec.ofNat 32 (b.addr + 4 + n)
  next : word mem' (b.next + 4) = word mem (b.next + 4) ||| blockHeaderPrevFreeBit
  same : ∀ x, x % 4 = 0 → x < 2 ^ 32 → x ≠ b.addr + 4 → x ≠ b.addr + 4 + n + 4 → x ≠ b.next →
    x ≠ b.next + 4 → word mem' x = word mem x

include hmod hle in
/-- What `block_split` does to the words. -/
theorem Rep.splitWords (h : Rep p mem (l ++ [b] ++ r) F X) :
    SplitWords mem (blockSplit mem (BitVec.ofNat 32 b.addr) (BitVec.ofNat 32 n)).1 b n ∧
      (blockSplit mem (BitVec.ofNat 32 b.addr) (BitVec.ofNat 32 n)).2 =
        BitVec.ofNat 32 (b.addr + 4 + n) := by
  obtain ⟨hamod, hnmod, hanext, hnle⟩ := h.layout.bounds'
  have hsize := h.headers.size b (by simp)
  have hblt := h.layout.size_lt (b := b) (by simp)
  have hbmod := b.size_mod
  have hnext : b.next = b.addr + 4 + b.size := rfl
  have hrem : offsetToBlock (blockToPtr (BitVec.ofNat 32 b.addr))
      (BitVec.ofNat 32 n - blockHeaderOverhead) = BitVec.ofNat 32 (b.addr + 4 + n) := by
    rw [blockToPtr_ofNat, offsetToBlock, blockHeaderOverhead, BitVec.ofNat_add, BitVec.ofNat_add,
      BitVec.ofNat_add]
    bv_omega
  have hremsize : blockSize mem (BitVec.ofNat 32 b.addr) - (BitVec.ofNat 32 n + blockHeaderOverhead)
      = BitVec.ofNat 32 (b.size - n - 4) := by
    rw [blockSize_ofNat, hsize, blockHeaderOverhead]
    bv_omega
  unfold blockSplit
  dsimp only
  rw [hrem, hremsize, blockSetSize_ofNat, blockSetSize_ofNat]
  refine ⟨?_, rfl⟩
  rw [word_put_of_ne (b := b.addr + 4) (by omega) (by omega) (by omega) (by omega) (by omega)]
  set m := put (put mem (b.addr + 4 + n + 4)
    (BitVec.ofNat 32 (b.size - n - 4) ||| (word mem (b.addr + 4 + n + 4) &&& flagBits)))
    (b.addr + 4) (BitVec.ofNat 32 n ||| (word mem (b.addr + 4) &&& flagBits)) with hm
  have hmback : word m (b.addr + 4 + n + 4) =
      BitVec.ofNat 32 (b.size - n - 4) ||| (word mem (b.addr + 4 + n + 4) &&& flagBits) := by
    rw [hm, word_put_of_ne (by omega) (by omega) (by omega) (by omega) (by omega), word_put_self]
  have hmsame (x : ℕ) (hx : x % 4 = 0) (hx' : x < 2 ^ 32) (h1 : x ≠ b.addr + 4)
      (h2 : x ≠ b.addr + 4 + n + 4) : word m x = word mem x := by
    rw [hm, word_put_of_ne (by omega) (by omega) hx hx' h1,
      word_put_of_ne (by omega) (by omega) hx hx' h2]
  have hmsize : sizeOf (word m (b.addr + 4 + n + 4)) = b.size - n - 4 := by
    rw [hmback, sizeOf_setSize (by omega) (by omega)]
  have hplace : b.addr + 4 + n + 4 + (b.size - n - 4) = b.next := by omega
  rw [blockMarkAsFree_ofNat m hmsize, hplace]
  dsimp only
  rw [word_put_of_ne (b := b.next + 4) (by omega) (by omega) (by omega) (by omega) (by omega),
    hmsame (b.next + 4) (by omega) (by omega) (by omega) (by omega)]
  have hback : word (put (put m b.next (BitVec.ofNat 32 (b.addr + 4 + n))) (b.next + 4)
      (word mem (b.next + 4) ||| blockHeaderPrevFreeBit)) (b.addr + 4 + n + 4) =
      word m (b.addr + 4 + n + 4) := by
    rw [word_put_of_ne (by omega) (by omega) (by omega) (by omega) (by omega),
      word_put_of_ne (by omega) (by omega) (by omega) (by omega) (by omega)]
  rw [hback]
  constructor
  · rw [word_put_of_ne (by omega) (by omega) (by omega) (by omega) (by omega),
      word_put_of_ne (by omega) (by omega) (by omega) (by omega) (by omega),
      word_put_of_ne (by omega) (by omega) (by omega) (by omega) (by omega), hm, word_put_self]
  · rw [word_put_self, sizeOf_or_free, hmsize]
  · rw [word_put_self, isFree_or_free]
  · rw [word_put_of_ne (by omega) (by omega) (by omega) (by omega) (by omega),
      word_put_of_ne (by omega) (by omega) (by omega) (by omega) (by omega), word_put_self]
  · rw [word_put_of_ne (by omega) (by omega) (by omega) (by omega) (by omega), word_put_self]
  · intro x hx hx' h1 h2 h3 h4
    rw [word_put_of_ne (by omega) (by omega) hx hx' h2,
      word_put_of_ne (by omega) (by omega) hx hx' h4,
      word_put_of_ne (by omega) (by omega) hx hx' h3, hmsame x hx hx' h1 h2]

theorem Block.back_next : (b.back n hmod hle).next = b.next := by
  unfold Block.back Block.next
  dsimp only
  omega

/-- The two parts after a split: `mem'` differs from what `block_split` leaves in the header of the
second part only, which says now whether the first one is free. -/
theorem Rep.split {mem₁ mem' : Mem} (h : Rep p mem (l ++ [b] ++ r) F X)
    (hX : ∀ x ∈ X, x = b.addr) (hfree : b.free = true → b.addr ∈ X)
    (hwords : SplitWords mem mem₁ b n)
    (hsame : ∀ x, x % 4 = 0 → x < 2 ^ 32 → x ≠ b.addr + 4 + n → x ≠ b.addr + 4 + n + 4 →
      word mem' x = word mem₁ x)
    (hsize : sizeOf (word mem' (b.addr + 4 + n + 4)) = sizeOf (word mem₁ (b.addr + 4 + n + 4)))
    (hback : isFree (word mem' (b.addr + 4 + n + 4)) = true)
    (hprev : isPrevFree (word mem' (b.addr + 4 + n + 4)) = b.free)
    (hphys : b.free = true → word mem' (b.addr + 4 + n) = BitVec.ofNat 32 b.addr) :
    Rep p mem' (l ++ [b.front n hmod hn, b.back n hmod hle] ++ r) F
        ((b.back n hmod hle).addr :: X) ∧
      SameUser p (l ++ r) mem mem' := by
  obtain ⟨hl, hr⟩ := h.layout.around
  obtain ⟨hamod, hnmod, hanext, hnle⟩ := h.layout.bounds'
  have hblt := h.layout.size_lt (b := b) (by simp)
  have hbmod := b.size_mod
  have hnext : b.next = b.addr + 4 + b.size := rfl
  have hheader := h.headers.of_mem (b := b) (by simp)
  have hbackNext := Block.back_next (b := b) hmod hle
  have hfront : word mem' (b.addr + 4) =
      BitVec.ofNat 32 n ||| (word mem (b.addr + 4) &&& flagBits) := by
    rw [hsame _ (by omega) (by omega) (by omega) (by omega), hwords.front]
  have hnextword : word mem' (b.next + 4) = word mem (b.next + 4) ||| blockHeaderPrevFreeBit := by
    rw [hsame _ (by omega) (by omega) (by omega) (by omega), hwords.next]
  refine h.splice ⟨rfl, by omega, rfl⟩ ⟨rfl, ?_, rfl, ?_, hbackNext⟩ hanext hl hr ?_ ?_ ?_ ?_ ?_ ?_
    ?_ ?_ ?_
  · show b.addr < b.addr + 4 + n
    omega
  · rw [hbackNext]
    show b.addr + 4 + n < b.next
    omega
  · intro c hc hcfree
    obtain rfl := List.mem_singleton.mp hc
    exact hfree hcfree
  · intro c hc hcfree
    rcases List.mem_cons.mp hc with rfl | hc
    · exact List.mem_cons_of_mem _ (hfree hcfree)
    · obtain rfl := List.mem_singleton.mp hc
      exact List.mem_cons_self
  · intro x hx
    rw [hX x hx]
    omega
  · intro x hx
    rcases List.mem_cons.mp hx with rfl | hx
    · show b.addr ≤ b.addr + 4 + n ∧ b.addr + 4 + n < b.next
      omega
    · rw [hX x hx]
      omega
  · intro x hx hx' hside
    rw [hsame x hx hx' (by omega) (by omega), hwords.same x hx hx' (by omega) (by omega) (by omega)
      (by omega)]
  · intro c hc
    rcases List.mem_cons.mp hc with rfl | hc
    · refine ⟨?_, ?_, hprev, hphys⟩
      · show sizeOf (word mem' (b.addr + 4)) = n
        rw [hfront, sizeOf_setSize hmod (by omega)]
      · show isFree (word mem' (b.addr + 4)) = b.free
        rw [hfront, isFree_setSize hmod, hheader.free]
    · obtain rfl := List.mem_singleton.mp hc
      refine ⟨?_, hback, ?_, fun _ => ?_⟩
      · show sizeOf (word mem' (b.addr + 4 + n + 4)) = b.size - n - 4
        rw [hsize, hwords.backSize]
      · rw [hbackNext, hnextword, isPrevFree_or_prevFree]
        rfl
      · rw [hbackNext]
        show word mem' b.next = BitVec.ofNat 32 (b.addr + 4 + n)
        rw [hsame _ (by omega) (by omega) (by omega) (by omega), hwords.phys]
  · rw [hfront, isPrevFree_setSize hmod]
  · rw [hnextword, sizeOf_or_prevFree]
  · rw [hnextword, isFree_or_prevFree]

/-- **A free block that is in no list is split.** -/
theorem Rep.splitFree (h : Rep p mem (l ++ [b] ++ r) F [b.addr]) (hfree : b.free = true) :
    ∃ mem', blockSetPrevFree (blockLinkNext
          (blockSplit mem (BitVec.ofNat 32 b.addr) (BitVec.ofNat 32 n)).1
          (BitVec.ofNat 32 b.addr)).1
        (blockSplit mem (BitVec.ofNat 32 b.addr) (BitVec.ofNat 32 n)).2 = mem' ∧
      Rep p mem' (l ++ [b.front n hmod hn, b.back n hmod hle] ++ r) F
        [(b.back n hmod hle).addr, b.addr] ∧
      SameUser p (l ++ r) mem mem' := by
  obtain ⟨hamod, hnmod, hanext, hnle⟩ := h.layout.bounds'
  have hbmod := b.size_mod
  have hnext : b.next = b.addr + 4 + b.size := rfl
  obtain ⟨hwords, hrem⟩ := h.splitWords hmod hle
  set m := (blockSplit mem (BitVec.ofNat 32 b.addr) (BitVec.ofNat 32 n)).1
  have hfront : sizeOf (word m (b.addr + 4)) = n := by
    rw [hwords.front, sizeOf_setSize hmod (by omega)]
  refine ⟨_, rfl, ?_⟩
  rw [hrem, blockLinkNext, blockNext_ofNat, hfront]
  dsimp only
  rw [storeWord_ofNat, blockSetPrevFree_ofNat,
    word_put_of_ne (b := b.addr + 4 + n + 4) (by omega) (by omega) (by omega) (by omega) (by omega)]
  refine h.split hmod hn hle (by simp) (fun _ => by simp) hwords ?_ ?_ ?_ ?_ fun _ => ?_
  · intro x hx hx' h1 h2
    rw [word_put_of_ne (by omega) (by omega) hx hx' h2,
      word_put_of_ne (by omega) (by omega) hx hx' h1]
  · rw [word_put_self, sizeOf_or_prevFree]
  · rw [word_put_self, isFree_or_prevFree, hwords.backFree]
  · rw [word_put_self, isPrevFree_or_prevFree, hfree]
  · rw [word_put_of_ne (by omega) (by omega) (by omega) (by omega) (by omega), word_put_self]

/-- **A block in use is split**, and keeps its first part as it is. -/
theorem Rep.splitUsed (h : Rep p mem (l ++ [b] ++ r) F []) (hused : b.free = false) :
    ∃ mem', blockSetPrevUsed (blockSplit mem (BitVec.ofNat 32 b.addr) (BitVec.ofNat 32 n)).1
        (blockSplit mem (BitVec.ofNat 32 b.addr) (BitVec.ofNat 32 n)).2 = mem' ∧
      (blockSplit mem (BitVec.ofNat 32 b.addr) (BitVec.ofNat 32 n)).2 =
        BitVec.ofNat 32 (b.back n hmod hle).addr ∧
      Rep p mem' (l ++ [b.front n hmod hn, b.back n hmod hle] ++ r) F
        [(b.back n hmod hle).addr] ∧
      SameUser p (l ++ [b.front n hmod hn] ++ r) mem mem' := by
  obtain ⟨hl, hr⟩ := h.layout.around
  obtain ⟨hamod, hnmod, hanext, hnle⟩ := h.layout.bounds'
  have hbmod := b.size_mod
  have hnext : b.next = b.addr + 4 + b.size := rfl
  obtain ⟨hwords, hrem⟩ := h.splitWords hmod hle
  set m := (blockSplit mem (BitVec.ofNat 32 b.addr) (BitVec.ofNat 32 n)).1
  refine ⟨_, rfl, hrem, ?_⟩
  rw [hrem, blockSetPrevUsed_ofNat]
  have hsame (x : ℕ) (hx : x % 4 = 0) (hx' : x < 2 ^ 32) (h2 : x ≠ b.addr + 4 + n + 4) :
      word (put m (b.addr + 4 + n + 4)
        (word m (b.addr + 4 + n + 4) &&& ~~~blockHeaderPrevFreeBit)) x = word m x :=
    word_put_of_ne (by omega) (by omega) hx hx' h2
  have hrep := h.split hmod hn hle (by simp) (by simp [hused]) hwords
    (fun x hx hx' _ h2 => hsame x hx hx' h2) (by rw [word_put_self, sizeOf_and_not_prevFree])
    (by rw [word_put_self, isFree_and_not_prevFree, hwords.backFree])
    (by rw [word_put_self, isPrevFree_and_not_prevFree, hused]) (by simp [hused])
  refine ⟨hrep.1, ?_⟩
  intro x hx hx' huser
  have hlast := p.last_le
  have hctl := p.ctl_lt
  have hfirst : p.first = p.ctl + 3184 := rfl
  have hfirstle := hl.le
  have hlastle := hr.le
  have hfar : x < b.addr + 4 ∨ (b.addr + 8 ≤ x ∧ x < b.addr + 4 + n + 4) ∨ b.next + 8 ≤ x := by
    rcases huser with hout | ⟨d, hd, -, hlo, hhi⟩
    · omega
    · have hdnext := d.addr_lt_next
      rcases List.mem_append.mp hd with hd | hd
      · rcases List.mem_append.mp hd with hd | hd
        · have := (hl.mem_bounds hd).2.2
          omega
        · obtain rfl := List.mem_singleton.mp hd
          exact Or.inr (Or.inl ⟨hlo, hhi⟩)
      · have := (hr.mem_bounds hd).1
        omega
  rw [hsame x hx hx' (by omega), hwords.same x hx hx' (by omega) (by omega) (by omega) (by omega)]

end Split

end Filestick.Tlsf
