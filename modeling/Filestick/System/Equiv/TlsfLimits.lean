import Filestick.System.Equiv.TlsfRun

/-!
# The limits of the allocator

* `Heap.malloc_eq_zero_iff`: when a request fails; `Region.run_released` for a heap that everything
  has been given back to.
* `tlsfCreateWithPool_rejected`: regions that nothing is ever given from.
* `Heap.malloc_wraps`, `Heap.realloc_huge`: sizes that the rounding, or its failure, makes something
  else of.
-/

namespace Filestick.Tlsf

open Elf (Addr Mem)

/-! ### When there is nothing to give -/

section Failure

variable {p : Pool} {mem : Mem} {bs : List Block} {size : BitVec 32} {n : ℕ}

/-- The size that a block must have at least to be found: the one that is asked for, rounded up to a
multiple of the width of its list. -/
def searchSize (n : ℕ) : ℕ :=
  (n + (SizeClass.width 5 2 n - 1)) / SizeClass.width 5 2 n * SizeClass.width 5 2 n

theorem suits_iff {b : Block} (hn : n % 4 = 0) :
    Suits n b ↔ b.free = true ∧ searchSize n ≤ b.size := by
  rw [Suits, searchClass, sizeClass, ← SizeClass.lower_le_iff,
    SizeClass.lower_index_roundUp (Nat.dvd_of_mod_eq_zero hn), searchSize]

/-- The heap of the kernel before the first call. -/
theorem kernelHeap :
    Heap kernelRegion.pool (newClient (fun _ => 0#8) 131072 8192).mem [kernelRegion.block] :=
  (kernelRegion.newClient_owned _).heap

/-- **`tlsf_malloc` fails** when nothing is looked for, or no free block is large enough. -/
theorem Heap.malloc_eq_zero_iff (h : Heap p mem bs) (size : BitVec 32) :
    (tlsfMalloc mem (BitVec.ofNat 32 p.ctl) size).2 = 0#32 ↔
      adjustRequestSize size alignSize = 0#32 ∨
        ∀ b ∈ bs, b.free = true → b.size < searchSize (adjustRequestSize size alignSize).toNat := by
  have hmod : (adjustRequestSize size alignSize).toNat % 4 = 0 := by
    rcases adjustRequestSize_spec size with h0 | ⟨-, hmod, -, -⟩
    · rw [h0]
      rfl
    · exact hmod
  have hnone : (∀ b ∈ bs, ¬Suits (adjustRequestSize size alignSize).toNat b) ↔
      ∀ b ∈ bs, b.free = true → b.size < searchSize (adjustRequestSize size alignSize).toNat := by
    simp only [suits_iff hmod, not_and, not_le]
  rw [← hnone]
  rcases h.malloc size rfl with
    ⟨l, b, r, c, rest, mem', rfl, hpos, hsuits, -, -, hcall, -, -⟩ | ⟨hn, hcall⟩
  · obtain ⟨F, hrep⟩ := h.rep
    have hb : b ∈ l ++ [b] ++ r := by simp
    have hne : BitVec.ofNat 32 (b.addr + 8) ≠ 0#32 := by
      obtain ⟨-, hlo, hnext, hhi, -⟩ := hrep.layout.bounds hb
      have hlast := p.last_le
      intro h0
      have := (ofNat_inj (a := b.addr + 8) (b := 0) (by omega) (by omega)).mp h0
      omega
    rw [hcall]
    refine iff_of_false hne ?_
    rintro (h0 | hall)
    · rw [h0] at hpos
      exact absurd hpos (by decide)
    · exact hall b hb hsuits
  · rw [hcall]
    exact iff_of_true rfl (hn.imp_left BitVec.eq_of_toNat_eq)

theorem kernel_malloc_eq_zero_iff :
    (tlsfMalloc (newClient (fun _ => 0#8) 131072 8192).mem (BitVec.ofNat 32 131072) 5000#32).2 =
        0#32 ↔
      adjustRequestSize 5000#32 alignSize = 0#32 ∨ ∀ b ∈ [kernelRegion.block], b.free = true →
        b.size < searchSize (adjustRequestSize 5000#32 alignSize).toNat :=
  kernelHeap.malloc_eq_zero_iff 5000#32

/-- When nothing is in use, the heap is one free block again. -/
theorem Heap.eq_whole (h : Heap p mem bs) (hused : used bs = []) (hlast : p.last % 4 = 0) :
    bs = [p.whole hlast] := by
  obtain ⟨F, hrep⟩ := h.rep
  have hlayout := hrep.layout
  have hfree {b : Block} (hb : b ∈ bs) : b.free = true := by
    by_contra hb'
    have := mem_used.mpr ⟨hb, by simpa using hb'⟩
    rw [hused] at this
    exact absurd this List.not_mem_nil
  rcases bs with _ | ⟨b, _ | ⟨c, t⟩⟩
  · have heq : p.first = p.last := hlayout
    have hctl := p.ctl_lt
    have hfirst : p.first = p.ctl + 3184 := rfl
    omega
  · obtain ⟨haddr, -, hnext⟩ := hlayout
    have hnext : b.next = p.last := hnext
    have hb := hfree (List.mem_singleton_self b)
    unfold Block.next at hnext
    have hsize : b.size = p.last - (p.first + 4) := by omega
    congr 1
    exact Block.ext haddr hsize hb
  · have hadjacent := List.isChain_cons_cons.mp h.coalesced
    rw [hfree (b := b) (by simp), hfree (b := c) (by simp)] at hadjacent
    exact absurd hadjacent.1 (by decide)

/-- Nothing is found in empty lists. -/
theorem Index.malloc_none (h : Index p mem fun _ => []) (size : BitVec 32) :
    tlsfMalloc mem (BitVec.ofNat 32 p.ctl) size = (mem, 0#32) := by
  have hlocate : blockLocateFree mem (BitVec.ofNat 32 p.ctl) (adjustRequestSize size alignSize) =
      (mem, 0#32) := by
    unfold blockLocateFree
    by_cases hne : adjustRequestSize size alignSize ≠ 0#32
    · rw [if_pos hne]
      dsimp only
      rcases adjustRequestSize_spec size with h0 | ⟨-, -, hlt, -⟩
      · exact absurd h0 hne
      · obtain ⟨-, hsl⟩ := mappingSearch_eq (BitVec.lt_def.mpr hlt)
        by_cases hfl : (mappingSearch (adjustRequestSize size alignSize)).1 < flIndexCount
        · rw [if_pos hfl]
          rcases h.search hfl hsl with ⟨fl, sl, a, hfound, -⟩ | ⟨-, hsearch⟩
          · have ha := List.mem_of_mem_head? hfound.head
            exact absurd ha List.not_mem_nil
          · rw [hsearch, if_neg (not_not.mpr rfl)]
        · rw [if_neg hfl]
    · rw [if_neg hne]
  rw [tlsfMalloc, hlocate]
  exact if_neg (not_not.mpr rfl)

/-- The sizes of a pool that `tlsf_add_pool` does not take. -/
theorem tlsfAddPool_rejects (mem : Mem) (tlsf pool : Addr) {bytes : BitVec 32}
    (hbytes : bytes.toNat < 3208 ∨ 2 ^ 30 + 3200 ≤ bytes.toNat) :
    tlsfAddPool mem tlsf pool (bytes - tlsfSize) = (mem, 0#32) := by
  have hoverhead : tlsfPoolOverhead.toNat = 8 := rfl
  have hsize : tlsfSize.toNat = 3188 := rfl
  have hmin : blockSizeMin.toNat = 12 := rfl
  have hmax : blockSizeMax.toNat = 2 ^ 30 := rfl
  have hlt := bytes.isLt
  have hpool : alignDown (bytes - tlsfSize - tlsfPoolOverhead) alignSize < blockSizeMin ∨
      blockSizeMax < alignDown (bytes - tlsfSize - tlsfPoolOverhead) alignSize := by
    rw [BitVec.lt_def, BitVec.lt_def, toNat_alignDown, BitVec.toNat_sub, BitVec.toNat_sub,
      hoverhead, hsize, hmin, hmax]
    omega
  unfold tlsfAddPool
  dsimp only
  rw [if_pos hpool]
  split <;> rfl

/-- **A region that is too small, or too large, is taken without a word**: the call returns its
address as for any other, and nothing is ever given from it. -/
theorem tlsfCreateWithPool_rejected {start : ℕ} (hmod : start % 4 = 0)
    (hend : start + 3208 ≤ 2 ^ 32) (mem : Mem) {bytes : BitVec 32}
    (hbytes : bytes.toNat < 3208 ∨ 2 ^ 30 + 3200 ≤ bytes.toNat) :
    ∃ mem', tlsfCreateWithPool mem (BitVec.ofNat 32 start) bytes = (mem', BitVec.ofNat 32 start) ∧
      ∀ size, tlsfMalloc mem' (BitVec.ofNat 32 start) size = (mem', 0#32) := by
  let p : Pool := ⟨start, start + 3200, hmod, by omega, by omega, by omega⟩
  have hlists := index_controlConstruct p mem
  refine ⟨controlConstruct mem (BitVec.ofNat 32 start), ?_, hlists.malloc_none⟩
  rw [tlsfCreateWithPool, tlsfCreate_ofNat mem hmod (by omega)]
  dsimp only
  rw [tlsfAddPool_rejects _ _ _ hbytes]

theorem tlsfCreateWithPool_rejected_hundred :
    ∃ mem', tlsfCreateWithPool (fun _ => 0#8) (BitVec.ofNat 32 131072) 100#32 =
        (mem', BitVec.ofNat 32 131072) ∧
      ∀ size, tlsfMalloc mem' (BitVec.ofNat 32 131072) size = (mem', 0#32) :=
  tlsfCreateWithPool_rejected (by decide) (by decide) _ (Or.inl (by decide))

end Failure

/-! ### Sizes that become something else -/

section Sizes

variable {p : Pool} {mem : Mem} {bs : List Block} {size : BitVec 32} {b : Block}

/-- The rounding goes past the last address. -/
theorem adjustRequestSize_wraps (h : 2 ^ 32 ≤ size.toNat + 3) :
    adjustRequestSize size alignSize = blockSizeMin := by
  have halign := toNat_alignUp size
  have hlt := size.isLt
  have hzero : alignUp size alignSize = 0#32 := by
    apply BitVec.eq_of_toNat_eq
    rw [halign, BitVec.toNat_ofNat]
    omega
  have hne : size ≠ 0#32 := by
    rintro rfl
    exact absurd h (by decide)
  rw [adjustRequestSize, if_pos hne, hzero]
  rfl

/-- **The largest requests are met with the smallest blocks**: one of the last three sizes succeeds
whenever anything is free, and gives fewer than 28 bytes. -/
theorem Heap.malloc_wraps (h : Heap p mem bs) (hsize : 2 ^ 32 ≤ size.toNat + 3)
    (hfree : ∃ b ∈ bs, b.free = true) :
    ∃ c bs' mem', tlsfMalloc mem (BitVec.ofNat 32 p.ctl) size = (mem', BitVec.ofNat 32 c.ptr) ∧
      Heap p mem' bs' ∧ c ∈ used bs' ∧ c.size < 28 := by
  have hn : (adjustRequestSize size alignSize).toNat = 12 := by
    rw [adjustRequestSize_wraps hsize]
    rfl
  rcases h.malloc size hn with
    ⟨l, b, r, c, rest, mem', rfl, -, -, -, hcarved, hcall, hheap, -⟩ | ⟨hnone, -⟩
  · refine ⟨c, _, mem', ?_, hheap, ?_, hcarved.lt⟩
    · rw [hcall, Block.ptr, hcarved.addr]
    · rw [used_append, used_append, used_cons_used hcarved.used]
      simp
  · obtain ⟨d, hd, hdfree⟩ := hfree
    refine absurd ?_ ((hnone.resolve_left (by decide)) d hd)
    rw [suits_iff (by decide)]
    exact ⟨hdfree, d.le_size⟩

theorem kernel_malloc_wraps :
    ∃ c bs' mem', tlsfMalloc (newClient (fun _ => 0#8) 131072 8192).mem
        (BitVec.ofNat 32 kernelRegion.pool.ctl) 0xFFFFFFFF#32 = (mem', BitVec.ofNat 32 c.ptr) ∧
      Heap kernelRegion.pool mem' bs' ∧ c ∈ used bs' ∧ c.size < 28 :=
  kernelHeap.malloc_wraps (by decide) ⟨_, List.mem_singleton_self _, rfl⟩

/-- The first call gets something. -/
theorem kernel_malloc_hundred :
    ∃ c bs' mem', tlsfMalloc (newClient (fun _ => 0#8) 131072 8192).mem
        (BitVec.ofNat 32 kernelRegion.pool.ctl) 100#32 = (mem', BitVec.ofNat 32 c.ptr) ∧
      Heap kernelRegion.pool mem' bs' ∧ c ∈ used bs' ∧ 100 ≤ c.size := by
  rcases kernelHeap.malloc_change 100#32 rfl with
    ⟨c, bs', mem', hcall, -, hle, hchange⟩ | ⟨hnone, -⟩
  · exact ⟨c, bs', mem', hcall, hchange.heap, (hchange.used_iff c).mpr (Or.inl rfl), hle⟩
  · refine absurd ?_ ((hnone.resolve_left (by decide)) _ (List.mem_singleton_self _))
    rw [suits_iff (by decide)]
    exact ⟨rfl, by rw [kernelRegion.block_size]; decide⟩

end Sizes

/-! ### A block of nothing -/

section Nothing

variable {p : Pool} {mem : Mem} {bs l r : List Block} {F : Lists} {b : Block} {size : BitVec 32}

/-- Fewer nodes. -/
theorem Nodes.mono {F' : Lists} (h : Nodes p F) (hsub : ∀ k, (F' k).Sublist (F k)) :
    Nodes p F' where
  mod k a ha := h.mod k a ((hsub k).subset ha)
  first_le k a ha := h.first_le k a ((hsub k).subset ha)
  le k a ha := h.le k a ((hsub k).subset ha)
  far k a ha k' b hb := h.far k a ((hsub k).subset ha) k' b ((hsub k').subset hb)
  nodup k := (h.nodup k).sublist (hsub k)
  unique k a ha k' ha' := h.unique k a ((hsub k).subset ha) k' ((hsub k').subset ha')

theorem Lists.erase_sublist (F : Lists) (k a k' : ℕ) : (F.erase k a k').Sublist (F k') := by
  rw [Lists.erase]
  by_cases hk : k' = k
  · subst hk
    rw [Function.update_self]
    exact List.erase_sublist
  · rw [Function.update_of_ne hk]

/-- One more node, apart from the others. -/
theorem Nodes.cons {a : ℕ} (h : Nodes p F) (k : ℕ) (hmod : a % 4 = 0) (hfirst : p.first ≤ a)
    (hle : a + 16 ≤ 2 ^ 32) (hfar : ∀ k, ∀ x ∈ F k, x + 16 ≤ a ∨ a + 16 ≤ x) :
    Nodes p (F.cons k a) := by
  have hmem (k' x : ℕ) (hx : x ∈ F.cons k a k') : (x = a ∧ k' = k) ∨ x ∈ F k' := by
    rw [Lists.cons] at hx
    by_cases hk : k' = k
    · subst hk
      rw [Function.update_self] at hx
      exact (List.mem_cons.mp hx).imp_left fun heq => ⟨heq, rfl⟩
    · rw [Function.update_of_ne hk] at hx
      exact Or.inr hx
  have hnot (k' : ℕ) : a ∉ F k' := by
    intro hx
    have := hfar k' a hx
    omega
  constructor
  · intro k' x hx
    rcases hmem k' x hx with ⟨rfl, -⟩ | hx
    · exact hmod
    · exact h.mod k' x hx
  · intro k' x hx
    rcases hmem k' x hx with ⟨rfl, -⟩ | hx
    · exact hfirst
    · exact h.first_le k' x hx
  · intro k' x hx
    rcases hmem k' x hx with ⟨rfl, -⟩ | hx
    · exact hle
    · exact h.le k' x hx
  · intro k' x hx k'' y hy
    rcases hmem k' x hx with ⟨rfl, -⟩ | hx
    · rcases hmem k'' y hy with ⟨rfl, -⟩ | hy
      · exact Or.inl rfl
      · exact Or.inr (hfar k'' y hy).symm
    · rcases hmem k'' y hy with ⟨heq, -⟩ | hy
      · rw [heq]
        exact Or.inr (hfar k' x hx)
      · exact h.far k' x hx k'' y hy
  · intro k'
    rw [Lists.cons]
    by_cases hk : k' = k
    · subst hk
      rw [Function.update_self]
      exact List.nodup_cons.mpr ⟨hnot _, h.nodup _⟩
    · rw [Function.update_of_ne hk]
      exact h.nodup k'
  · intro k' x hx k'' hx'
    rcases hmem k' x hx with ⟨rfl, rfl⟩ | hx
    · rcases hmem k'' x hx' with ⟨-, rfl⟩ | hx'
      · rfl
      · exact absurd hx' (hnot k'')
    · rcases hmem k'' x hx' with ⟨heq, -⟩ | hx'
      · rw [heq] at hx
        exact absurd hx (hnot k')
      · exact h.unique k' x hx k'' hx'

/-- A word in front of a place that is apart from the nodes is none of theirs. -/
theorem offIndex_front {a : ℕ} (hfirst : p.first ≤ a)
    (hfar : ∀ k, ∀ x ∈ F k, x = a + 4 ∨ x + 16 ≤ a + 4 ∨ a + 20 ≤ x) : OffIndex p F (a + 4) := by
  refine ⟨Or.inr (by omega), fun k x hx => ?_⟩
  rcases hfar k x hx with h | h | h <;> omega

/-- **`block_trim_used` with a size of 0** leaves a block of no bytes: the rest of it is put into a
list, with its header where the owner's first word is. -/
theorem Rep.trimZero (h : Rep p mem (l ++ [b] ++ r) F []) (hused : b.free = false)
    (hle : 0 + 16 ≤ b.size) :
    sizeOf (word (blockTrimUsed mem (BitVec.ofNat 32 p.ctl) (BitVec.ofNat 32 b.addr)
      (BitVec.ofNat 32 0)) (b.addr + 4)) = 0 := by
  have hlast := p.last_le
  have hfirst : p.first = p.ctl + 3184 := rfl
  obtain ⟨hamod, hnmod, hanext, hnle⟩ := h.layout.bounds'
  obtain ⟨-, htile⟩ := h.layout.around
  have hblo := (h.layout.bounds (b := b) (by simp)).2.1
  have hblt := h.layout.size_lt (b := b) (by simp)
  have hsmod := b.size_mod
  have hnext : b.next = b.addr + 4 + b.size := rfl
  -- the nodes are apart from the block
  have hfar (k x : ℕ) (hx : x ∈ F k) : x % 4 = 0 ∧ (x + 16 ≤ b.addr ∨ b.next ≤ x) := by
    obtain ⟨c, hc, hcfree, rfl, -⟩ := (h.listed.mem_iff k x).mp hx
    have hcb : c ≠ b := by
      rintro rfl
      rw [hused] at hcfree
      exact absurd hcfree Bool.false_ne_true
    have hcnext := c.addr_lt_next
    refine ⟨(h.layout.bounds hc).1, ?_⟩
    rcases h.layout.far hc (by simp : b ∈ l ++ [b] ++ r) hcb with hside | hside <;> omega
  have hnodes := h.listed.nodes h.layout
  obtain ⟨hwords, hrem⟩ := h.splitWords (n := 0) rfl hle
  have hcan : blockCanSplit mem (BitVec.ofNat 32 b.addr) (BitVec.ofNat 32 0) = true := by
    rw [blockCanSplit, blockSize_ofNat, h.headers.size b (by simp), blockHeaderBytes]
    apply decide_eq_true
    rw [BitVec.le_def, BitVec.toNat_ofNat, Nat.mod_eq_of_lt (by omega)]
    exact hle
  unfold blockTrimUsed
  rw [if_pos hcan]
  dsimp only
  rw [hrem, blockSetPrevUsed_ofNat]
  set m := (blockSplit mem (BitVec.ofNat 32 b.addr) (BitVec.ofNat 32 0)).1
  set m₁ := put m (b.addr + 4 + 0 + 4)
    (word m (b.addr + 4 + 0 + 4) &&& ~~~blockHeaderPrevFreeBit) with hm₁
  have hsame (x : ℕ) (hx : x % 4 = 0) (hx' : x < 2 ^ 32) (hne : x ≠ b.addr + 4 + 0 + 4) :
      word m₁ x = word m x := word_put_of_ne (by omega) (by omega) hx hx' hne
  have hzero : sizeOf (word m₁ (b.addr + 4)) = 0 := by
    rw [hsame _ (by omega) (by omega) (by omega), hwords.front,
      sizeOf_setSize rfl (by omega)]
  have hback : sizeOf (word m₁ (b.addr + 4 + 0 + 4)) = b.size - 0 - 4 := by
    rw [hm₁, word_put_self, sizeOf_and_not_prevFree, hwords.backSize]
  have hindex : Index p m₁ F := by
    refine h.index.congr ?_ ?_
    · intro x hx hlo hhi
      rw [hsame x hx (by omega) (by omega),
        hwords.same x hx (by omega) (by omega) (by omega) (by omega) (by omega)]
    · intro k x hx
      obtain ⟨hxmod, hxfar⟩ := hfar k x hx
      have hxle := hnodes.le k x hx
      constructor
      · rw [hsame _ (by omega) (by omega) (by omega),
          hwords.same _ (by omega) (by omega) (by omega) (by omega) (by omega) (by omega)]
      · rw [hsame _ (by omega) (by omega) (by omega),
          hwords.same _ (by omega) (by omega) (by omega) (by omega) (by omega) (by omega)]
  -- the block behind it, when it is free
  have hmerge : ∃ m₂ F', blockMergeNext m₁ (BitVec.ofNat 32 p.ctl)
        (BitVec.ofNat 32 (b.addr + 4 + 0)) = (m₂, BitVec.ofNat 32 (b.addr + 4 + 0)) ∧
      Index p m₂ F' ∧ (∀ k, (F' k).Sublist (F k)) ∧ sizeOf (word m₂ (b.addr + 4)) = 0 ∧
      sizeOf (word m₂ (b.addr + 4 + 0 + 4)) < 2 ^ 30 := by
    have hplace : b.addr + 4 + 0 + 4 + (b.size - 0 - 4) = b.next := by omega
    have hflag : word m₁ (b.next + 4) = word mem (b.next + 4) ||| blockHeaderPrevFreeBit := by
      rw [hsame _ (by omega) (by omega) (by omega), hwords.next]
    unfold blockMergeNext
    dsimp only
    rw [blockNext_ofNat, hback, hplace, blockIsFree_ofNat, hflag, isFree_or_prevFree]
    rcases r with _ | ⟨c, r'⟩
    · have heq : b.next = p.last := htile
      rw [if_neg (by rw [heq, h.headers.lastUsed]; decide)]
      exact ⟨m₁, F, rfl, hindex, fun k => List.Sublist.refl _, hzero, by omega⟩
    · have heq : c.addr = b.next := htile.1
      have hcmem : c ∈ l ++ [b] ++ c :: r' := by simp
      obtain ⟨hcmod, -, hcn, hchi, hcnmod⟩ := h.layout.bounds hcmem
      have hclt := h.layout.size_lt hcmem
      have hcnext : c.next = c.addr + 4 + c.size := rfl
      have hplast := p.last_lt
      have hcsize : sizeOf (word m₁ (c.addr + 4)) = c.size := by
        rw [heq, hflag, sizeOf_or_prevFree, ← heq, h.headers.size c hcmem]
      rw [← heq, h.headers.free c hcmem]
      by_cases hc : c.free = true
      · obtain ⟨fl, sl, hfl, hsl, hclass, hmap⟩ := exists_mappingInsert hclt
        have hcin : c.addr ∈ F (32 * fl + sl) := by
          rw [hclass]
          exact h.mem_list hcmem hc List.not_mem_nil
        obtain ⟨hindex', hoff⟩ := hindex.remove hnodes hfl hsl hcin
        have hremove : Tlsf.blockRemove m₁ (BitVec.ofNat 32 p.ctl) (BitVec.ofNat 32 c.addr) =
            removeFreeBlock m₁ (BitVec.ofNat 32 p.ctl) (BitVec.ofNat 32 c.addr) fl sl := by
          rw [Tlsf.blockRemove, blockSize_ofNat, hcsize, hmap]
        rw [if_pos hc, hremove]
        set m₂ := removeFreeBlock m₁ (BitVec.ofNat 32 p.ctl) (BitVec.ofNat 32 c.addr) fl sl
        have hkeep (x : ℕ) (hx : x % 4 = 0) (hlo : b.addr + 4 ≤ x) (hhi : x < b.next + 8) :
            word m₂ x = word m₁ x := by
          refine hoff x hx (by omega) ⟨by omega, fun k y hy => ?_⟩
          have := hfar k y hy
          omega
        have hsize : sizeOf (word m₂ (b.addr + 4 + 0 + 4)) = b.size - 4 := by
          rw [hkeep _ (by omega) (by omega) (by omega), hback]
          omega
        have hsize' : sizeOf (word m₂ (c.addr + 4)) = c.size := by
          rw [hkeep _ (by omega) (by omega) (by omega), hcsize]
        rw [blockAbsorb_ofNat m₂ hsize hsize' (by omega)]
        refine ⟨_, F.erase (32 * fl + sl) c.addr, rfl, ?_, F.erase_sublist _ _, ?_, ?_⟩
        · refine hindex'.congr ?_ ?_
          · intro x hx _ hhi
            rw [word_put_of_ne (by omega) (by omega) hx (by omega) (by omega),
              word_put_of_ne (by omega) (by omega) hx (by omega) (by omega)]
          · intro k x hx
            have hxin := (F.erase_sublist _ _ k).subset hx
            obtain ⟨hxmod, hxfar⟩ := hfar k x hxin
            have hxle := hnodes.le k x hxin
            have hcsm := c.size_mod
            have hxc : x + 16 ≤ c.next ∨ c.next ≤ x := by
              obtain ⟨d, hd, -, rfl, -⟩ := (h.listed.mem_iff k x).mp hxin
              have hdn := d.addr_lt_next
              rcases h.layout.trichotomy hd hcmem with rfl | hside | hside <;> omega
            constructor
            · rw [word_put_of_ne (by omega) (by omega) (by omega) (by omega) (by omega),
                word_put_of_ne (by omega) (by omega) (by omega) (by omega) (by omega)]
            · rw [word_put_of_ne (by omega) (by omega) (by omega) (by omega) (by omega),
                word_put_of_ne (by omega) (by omega) (by omega) (by omega) (by omega)]
        · rw [word_put_of_ne (by omega) (by omega) (by omega) (by omega) (by omega),
            word_put_of_ne (by omega) (by omega) (by omega) (by omega) (by omega),
            hkeep _ (by omega) (by omega) (by omega), hzero]
        · rw [word_put_of_ne (by omega) (by omega) (by omega) (by omega) (by omega), word_put_self,
            sizeOf_add (by have := c.size_mod; omega) _ (by rw [hsize]; omega), hsize]
          omega
      · rw [if_neg hc]
        exact ⟨m₁, F, rfl, hindex, fun k => List.Sublist.refl _, hzero, by omega⟩
  obtain ⟨m₂, F', hmerge, hindex', hsub, hzero', hlt⟩ := hmerge
  rw [hmerge]
  dsimp only
  obtain ⟨fl, sl, hfl, hsl, -, hmap⟩ := exists_mappingInsert hlt
  have hnodes' : Nodes p (F'.cons (32 * fl + sl) (b.addr + 4 + 0)) := by
    refine (hnodes.mono hsub).cons _ (by omega) (by omega) (by omega) fun k x hx => ?_
    have := hfar k x ((hsub k).subset hx)
    omega
  obtain ⟨-, hoff⟩ := hindex'.insert hnodes' hfl hsl
  rw [Tlsf.blockInsert, blockSize_ofNat, hmap]
  dsimp only
  rw [hoff (b.addr + 4) (by omega) (by omega) (offIndex_front hblo fun k x hx => ?_), hzero']
  have hfar' := hnodes'.far k x hx _ _ (F'.mem_cons_self (32 * fl + sl) (b.addr + 4 + 0))
  omega

/-- **A size that cannot be had is taken for none at all**: the call returns the same place, as if
the object had been resized, and the block there has no bytes any more. -/
theorem Heap.realloc_huge (h : Heap p mem bs) (hb : b ∈ used bs) (h16 : 16 ≤ b.size)
    (hlo : 2 ^ 30 - 3 ≤ size.toNat) (hhi : size.toNat + 3 < 2 ^ 32) :
    ∃ mem', tlsfRealloc mem (BitVec.ofNat 32 p.ctl) (BitVec.ofNat 32 b.ptr) size =
        (mem', BitVec.ofNat 32 b.ptr) ∧
      blockSize mem' (BitVec.ofNat 32 b.addr) = 0#32 := by
  obtain ⟨hmem, hused⟩ := mem_used.mp hb
  obtain ⟨l, r, rfl⟩ := List.append_of_mem hmem
  rw [List.append_cons] at *
  obtain ⟨F, hrep⟩ := h.rep
  obtain ⟨hne, -⟩ := h.ptr_ne_zero hb
  have hadjust : adjustRequestSize size alignSize = 0#32 :=
    (adjustRequestSize_eq_zero_iff size).mpr (Or.inr ⟨hlo, hhi⟩)
  have hsize : size ≠ 0#32 := by
    rintro rfl
    exact absurd hlo (by decide)
  unfold tlsfRealloc
  rw [if_neg (fun h0 => hsize h0.2), if_neg hne]
  dsimp only
  rw [Block.ptr, blockFromPtr_ofNat, hadjust]
  have hnot (x : BitVec 32) : ¬x < 0#32 := by simp
  rw [if_neg (fun hlt => hnot _ hlt.1), if_neg (hnot _)]
  refine ⟨_, rfl, ?_⟩
  have hzero := hrep.trimZero hused (by omega)
  rw [blockSize_ofNat, hzero]

theorem kernel_realloc_huge :
    ∃ c bs' mem mem', Heap kernelRegion.pool mem bs' ∧ c ∈ used bs' ∧
      tlsfRealloc mem (BitVec.ofNat 32 kernelRegion.pool.ctl) (BitVec.ofNat 32 c.ptr)
        0x40000000#32 = (mem', BitVec.ofNat 32 c.ptr) ∧
      blockSize mem' (BitVec.ofNat 32 c.addr) = 0#32 := by
  obtain ⟨c, bs', mem, -, hheap, hused, hle⟩ := kernel_malloc_hundred
  obtain ⟨mem', hcall, hsize⟩ :=
    Heap.realloc_huge hheap hused (by omega) (by decide : 2 ^ 30 - 3 ≤ (0x40000000#32).toNat)
      (by decide)
  exact ⟨c, bs', mem, mem', hheap, hused, hcall, hsize⟩

end Nothing

end Filestick.Tlsf
