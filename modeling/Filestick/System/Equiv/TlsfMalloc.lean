import Filestick.System.Equiv.TlsfSplit

/-!
# Allocation and release

* `adjustRequestSize_spec`: the size that is looked for.
* `Rep.locate`, `Rep.prepare`: the two halves of `tlsf_malloc`.
* `Rep.mergePrev`, `Rep.mergeNext`: the two merges of `tlsf_free`.
* `Heap.malloc`, `Heap.free`: what the two functions do to the blocks of a heap without two free
  blocks beside each other.
-/

namespace Filestick.Tlsf

open Elf (Addr Mem)
open Tiling (Tiles tiles_append tiles_append_cons)

/-! ### The size of a request -/

theorem toNat_alignUp (size : BitVec 32) :
    (alignUp size alignSize).toNat = (size.toNat + 3) % 2 ^ 32 / 4 * 4 := by
  have hmask : alignSize - 1#32 = flagBits := by decide
  rw [alignUp, hmask, ← sizeOf, sizeOf_eq, BitVec.toNat_add]
  rfl

/-- The size that is looked for: 0, or a multiple of 4 from 12 on that is at least the size of the
request, unless the rounding has gone past the last address. -/
theorem adjustRequestSize_spec (size : BitVec 32) :
    adjustRequestSize size alignSize = 0#32 ∨
      (12 ≤ (adjustRequestSize size alignSize).toNat ∧
        (adjustRequestSize size alignSize).toNat % 4 = 0 ∧
        (adjustRequestSize size alignSize).toNat < 2 ^ 30 ∧
        (size.toNat + 3 < 2 ^ 32 → size.toNat ≤ (adjustRequestSize size alignSize).toNat)) := by
  have halign := toNat_alignUp size
  unfold adjustRequestSize
  by_cases hzero : size ≠ 0#32
  · rw [if_pos hzero]
    dsimp only
    by_cases hmax : alignUp size alignSize < blockSizeMax
    · have hlt : (alignUp size alignSize).toNat < 2 ^ 30 := BitVec.lt_def.mp hmax
      rw [if_pos hmax]
      by_cases hmin : blockSizeMin < alignUp size alignSize
      · have hgt : 12 < (alignUp size alignSize).toNat := BitVec.lt_def.mp hmin
        rw [if_pos hmin]
        exact Or.inr ⟨hgt.le, by omega, hlt, by omega⟩
      · have hle : ¬12 < (alignUp size alignSize).toNat := fun h12 => hmin (BitVec.lt_def.mpr h12)
        rw [if_neg hmin]
        refine Or.inr ⟨le_rfl, rfl, by decide, fun h => ?_⟩
        show size.toNat ≤ 12
        omega
    · rw [if_neg hmax]
      exact Or.inl rfl
  · rw [if_neg hzero]
    exact Or.inl rfl

/-- The requests that nothing is looked for. -/
theorem adjustRequestSize_eq_zero_iff (size : BitVec 32) :
    adjustRequestSize size alignSize = 0#32 ↔
      size = 0#32 ∨ (2 ^ 30 - 3 ≤ size.toNat ∧ size.toNat + 3 < 2 ^ 32) := by
  have halign := toNat_alignUp size
  have hlt32 := size.isLt
  unfold adjustRequestSize
  by_cases hzero : size ≠ 0#32
  · rw [if_pos hzero]
    dsimp only
    have hmax : alignUp size alignSize < blockSizeMax ↔
        ¬(2 ^ 30 - 3 ≤ size.toNat ∧ size.toNat + 3 < 2 ^ 32) := by
      rw [BitVec.lt_def, halign]
      show _ < 2 ^ 30 ↔ _
      omega
    by_cases hbig : 2 ^ 30 - 3 ≤ size.toNat ∧ size.toNat + 3 < 2 ^ 32
    · rw [if_neg (fun h => hmax.mp h hbig)]
      exact iff_of_true rfl (Or.inr hbig)
    · rw [if_pos (hmax.mpr hbig)]
      refine iff_of_false ?_ (by tauto)
      by_cases hmin : blockSizeMin < alignUp size alignSize
      · rw [if_pos hmin]
        rintro h0
        rw [h0] at hmin
        exact absurd hmin (by decide)
      · rw [if_neg hmin]
        decide
  · rw [if_neg hzero]
    exact iff_of_true rfl (Or.inl (not_not.mp hzero))

/-! ### Heaps -/

/-- No two blocks beside each other are free. -/
def Coalesced (bs : List Block) : Prop := bs.IsChain fun b c => b.free = false ∨ c.free = false

/-- The blocks in use. -/
def used (bs : List Block) : List Block := bs.filter fun b => !b.free

/-- **The memory of a heap stands for the blocks**, no two of which beside each other are free. -/
structure Heap (p : Pool) (mem : Mem) (bs : List Block) : Prop where
  rep : ∃ F, Rep p mem bs F []
  coalesced : Coalesced bs

section Heaps

variable {p : Pool} {mem mem' : Mem} {bs bs' l r : List Block} {b : Block}

theorem mem_used : b ∈ used bs ↔ b ∈ bs ∧ b.free = false := by simp [used]

theorem used_append (l r : List Block) : used (l ++ r) = used l ++ used r := List.filter_append ..

theorem used_cons_free (h : b.free = true) (l : List Block) : used (b :: l) = used l := by
  simp [used, h]

theorem used_cons_used (h : b.free = false) (l : List Block) : used (b :: l) = b :: used l := by
  simp [used, h]

/-- The blocks in use are what a change must not touch. -/
theorem SameUser.of_used (h : SameUser p bs mem mem') (heq : used bs' = used bs) :
    SameUser p bs' mem mem' :=
  h.mono fun _ hb hfree => (mem_used.mp (heq ▸ mem_used.mpr ⟨hb, hfree⟩)).1

theorem coalesced_append :
    Coalesced (l ++ r) ↔ Coalesced l ∧ Coalesced r ∧
      ∀ c ∈ l.getLast?, ∀ d ∈ r.head?, c.free = false ∨ d.free = false :=
  List.isChain_append

/-- Around a block. -/
theorem coalesced_around (hl : Coalesced l) (hr : Coalesced r)
    (hbl : b.free = false ∨ ∀ c ∈ l.getLast?, c.free = false)
    (hbr : b.free = false ∨ ∀ c ∈ r.head?, c.free = false) : Coalesced (l ++ [b] ++ r) := by
  refine coalesced_append.mpr ⟨coalesced_append.mpr ⟨hl, List.isChain_singleton b, ?_⟩, hr, ?_⟩
  · intro c hc d hd
    obtain rfl : b = d := by simpa using hd
    exact hbl.elim Or.inr fun h => Or.inl (h c hc)
  · intro c hc d hd
    obtain rfl : b = c := by simpa using hc
    exact hbr.elim Or.inl fun h => Or.inr (h d hd)

/-- The blocks around one. -/
theorem Coalesced.around (h : Coalesced (l ++ [b] ++ r)) :
    Coalesced l ∧ Coalesced r ∧ (b.free = true → ∀ c ∈ l.getLast?, c.free = false) ∧
      (b.free = true → ∀ c ∈ r.head?, c.free = false) := by
  obtain ⟨hlb, hr, hright⟩ := coalesced_append.mp h
  obtain ⟨hl, -, hleft⟩ := coalesced_append.mp hlb
  refine ⟨hl, hr, fun hfree c hc => ?_, fun hfree c hc => ?_⟩
  · simpa [hfree] using hleft c hc b (by simp)
  · simpa [hfree] using hright b (by simp) c hc

end Heaps

/-! ### Allocation -/

section Malloc

variable {p : Pool} {mem : Mem} {bs l r : List Block} {F : Lists} {b : Block} {n : ℕ}

/-- A block of the lists from the one on that a search for `n` bytes starts with. -/
def Suits (n : ℕ) (b : Block) : Prop := b.free = true ∧ searchClass n ≤ sizeClass b.size

/-- **`block_locate_free`** takes a block out of the first list that has one large enough, or there
is none in the lists that it looks at. -/
theorem Rep.locate (h : Rep p mem bs F []) {size : BitVec 32} (hn : size.toNat = n)
    (hpos : 0 < n) (hmod : n % 4 = 0) (hlt : n < 2 ^ 30) :
    (∃ b ∈ bs, Suits n b ∧ n ≤ b.size ∧
      (∀ c ∈ bs, Suits n c → sizeClass b.size ≤ sizeClass c.size) ∧
      ∃ mem' F', blockLocateFree mem (BitVec.ofNat 32 p.ctl) size = (mem', BitVec.ofNat 32 b.addr) ∧
        Rep p mem' bs F' [b.addr] ∧ SameUser p bs mem mem') ∨
    ((∀ b ∈ bs, ¬Suits n b) ∧
      blockLocateFree mem (BitVec.ofNat 32 p.ctl) size = (mem, 0#32)) := by
  have hne : size ≠ 0#32 := by
    rintro rfl
    exact hpos.ne' hn.symm
  have hmax : size < blockSizeMax := BitVec.lt_def.mpr (hn ▸ hlt)
  obtain ⟨hindex, hsl⟩ := mappingSearch_eq hmax
  rw [hn, listIndex] at hindex
  unfold blockLocateFree
  rw [if_pos hne]
  dsimp only
  by_cases hfl : (mappingSearch size).1 < flIndexCount
  · rw [if_pos hfl]
    rcases h.index.search hfl hsl with ⟨fl, sl, a, hfound, hsearch⟩ | ⟨hnone, hsearch⟩
    · have ha : a ∈ F (32 * fl + sl) := List.mem_of_mem_head? hfound.head
      obtain ⟨b, hb, hfree, rfl, hclass, -⟩ := (h.listed.mem_iff _ _).mp ha
      have hle := hfound.le
      rw [hindex] at hle
      have hsuits : Suits n b := ⟨hfree, by omega⟩
      have hsize : n ≤ b.size := by
        have := mappingSearch_sufficient hmax (hn ▸ hmod) (n := b.size)
          (by rw [(mappingSearch_eq hmax).1, hn]; exact hsuits.2)
        omega
      obtain ⟨-, hblo, -, hbhi, -⟩ := h.layout.bounds hb
      have hlast := p.last_le
      have hbnext := b.addr_lt_next
      have hfirst : p.first = p.ctl + 3184 := rfl
      have hne0 : BitVec.ofNat 32 b.addr ≠ 0#32 := by
        intro h0
        have := (ofNat_inj (a := b.addr) (b := 0) (by omega) (by omega)).mp h0
        omega
      rw [hsearch]
      dsimp only
      rw [if_pos hne0]
      obtain ⟨hrep, huser⟩ := h.removeAt hfound.fl_lt hfound.sl_lt ha
      refine Or.inl ⟨b, hb, hsuits, hsize, ?_, _, _, rfl, hrep, huser⟩
      -- the lists before this one are empty
      intro c hc hcsuits
      by_contra hlt'
      have hcmem := h.mem_list hc hcsuits.1 List.not_mem_nil
      have hcge := hcsuits.2
      rw [hfound.before _ (by omega) (by omega)] at hcmem
      exact List.not_mem_nil hcmem
    · rw [if_neg (not_not.mpr hsearch)]
      refine Or.inr ⟨fun b hb hsuits => ?_, rfl⟩
      have hbmem := h.mem_list hb hsuits.1 List.not_mem_nil
      have hbge := hsuits.2
      rw [hnone _ (by omega) (sizeClass_lt (h.layout.size_lt hb))] at hbmem
      exact List.not_mem_nil hbmem
  · rw [if_neg hfl]
    refine Or.inr ⟨fun b hb hsuits => ?_, rfl⟩
    have hbge := hsuits.2
    have hblt := sizeClass_lt (h.layout.size_lt hb)
    have hfl24 : ¬(mappingSearch size).1 < 24 := hfl
    omega

/-- What becomes of a free block that `n` bytes are taken from: a block in use of that size, with
less than a header more, and the rest. -/
structure Carved (b : Block) (n : ℕ) (c : Block) (rest : List Block) : Prop where
  addr : c.addr = b.addr
  used : c.free = false
  le : n ≤ c.size
  lt : c.size < n + 16
  rest_free : ∀ d ∈ rest, d.free = true
  rest_length : rest.length ≤ 1

/-- **`block_prepare_used`** makes a block of a free one. -/
theorem Rep.prepare (h : Rep p mem (l ++ [b] ++ r) F [b.addr]) (hfree : b.free = true)
    (hmod : n % 4 = 0) (hn : 12 ≤ n) (hle : n ≤ b.size) :
    ∃ c rest mem' F', blockPrepareUsed mem (BitVec.ofNat 32 p.ctl) (BitVec.ofNat 32 b.addr)
          (BitVec.ofNat 32 n) = (mem', BitVec.ofNat 32 (b.addr + 8)) ∧
      Carved b n c rest ∧ Rep p mem' (l ++ [c] ++ (rest ++ r)) F' [] ∧
      SameUser p (l ++ r) mem mem' := by
  obtain ⟨hamod, hnmod, hanext, hnle⟩ := h.layout.bounds'
  have hblo := (h.layout.bounds (b := b) (by simp)).2.1
  have hblt := h.layout.size_lt (b := b) (by simp)
  have hfirst : p.first = p.ctl + 3184 := rfl
  have hne0 : BitVec.ofNat 32 b.addr ≠ 0#32 := by
    intro h0
    have := (ofNat_inj (a := b.addr) (b := 0) (by omega) (by omega)).mp h0
    omega
  have hcan : blockCanSplit mem (BitVec.ofNat 32 b.addr) (BitVec.ofNat 32 n) =
      decide (n + 16 ≤ b.size) := by
    rw [blockCanSplit, blockSize_ofNat, h.headers.size b (by simp), blockHeaderBytes,
      ← BitVec.ofNat_add]
    congr 1
    rw [BitVec.le_def, BitVec.toNat_ofNat, BitVec.toNat_ofNat, Nat.mod_eq_of_lt (by omega),
      Nat.mod_eq_of_lt (by omega), Nat.add_comm]
  unfold blockPrepareUsed blockTrimFree
  rw [if_pos hne0, hcan, blockToPtr_ofNat]
  dsimp only
  by_cases hsplit : n + 16 ≤ b.size
  · rw [if_pos (decide_eq_true hsplit)]
    obtain ⟨m, hm, hrep, huser⟩ := h.splitFree hmod hn hsplit hfree
    obtain ⟨-, hrem⟩ := h.splitWords hmod hsplit
    set c := b.front n hmod hn
    set d := b.back n hmod hsplit
    rw [hm, hrem]
    have hne : d.addr ≠ b.addr := by
      show b.addr + 4 + n ≠ b.addr
      omega
    obtain ⟨F', hrep', huser'⟩ := hrep.blockInsert (b := d) (by simp) rfl (by simpa using hne)
    have hassoc : l ++ [c, d] ++ r = l ++ [c] ++ ([d] ++ r) := by simp
    rw [hassoc] at hrep'
    obtain ⟨hrep'', huser''⟩ := hrep'.markUsed
    refine ⟨c.mark false, [d], _, F', rfl, ⟨rfl, rfl, le_rfl, ?_, ?_, le_rfl⟩, hrep'', ?_⟩
    · show n < n + 16
      omega
    · simp [d, Block.back]
    · have hused : used (l ++ [c, d] ++ r) = used (l ++ r) := by
        rw [used_append, used_append, used_append, used_cons_free (b := c) hfree,
          used_cons_free (b := d) rfl]
        simp [used]
      have hused' : used (l ++ ([d] ++ r)) = used (l ++ r) := by
        rw [used_append, used_append, used_append, used_cons_free (b := d) rfl]
        simp [used]
      exact (huser.trans (huser'.of_used hused.symm)).trans (huser''.of_used hused'.symm)
  · rw [if_neg (by simpa using hsplit)]
    obtain ⟨hrep, huser⟩ := h.markUsed
    refine ⟨b.mark false, [], _, F, rfl, ⟨rfl, rfl, hle, ?_, by simp, by simp⟩, hrep, huser⟩
    show b.size < n + 16
    omega

/-- **`tlsf_malloc`** gives a part of the first block that it finds, or there is none. -/
theorem Heap.malloc (h : Heap p mem bs) (size : BitVec 32)
    (hn : (adjustRequestSize size alignSize).toNat = n) :
    (∃ l b r c rest mem', bs = l ++ [b] ++ r ∧ 0 < n ∧ Suits n b ∧
      (∀ d ∈ bs, Suits n d → sizeClass b.size ≤ sizeClass d.size) ∧ Carved b n c rest ∧
      tlsfMalloc mem (BitVec.ofNat 32 p.ctl) size = (mem', BitVec.ofNat 32 (b.addr + 8)) ∧
      Heap p mem' (l ++ [c] ++ (rest ++ r)) ∧ SameUser p bs mem mem') ∨
    ((n = 0 ∨ ∀ b ∈ bs, ¬Suits n b) ∧
      tlsfMalloc mem (BitVec.ofNat 32 p.ctl) size = (mem, 0#32)) := by
  obtain ⟨F, hrep⟩ := h.rep
  have hadjust : adjustRequestSize size alignSize = BitVec.ofNat 32 n := by
    rw [← hn, BitVec.ofNat_toNat, BitVec.setWidth_eq]
  unfold tlsfMalloc
  dsimp only
  rcases adjustRequestSize_spec size with h0 | ⟨h12, hmod, hlt, -⟩
  · refine Or.inr ⟨Or.inl (by rw [← hn, h0]; rfl), ?_⟩
    rw [h0, blockLocateFree, if_neg (not_not.mpr rfl)]
    exact if_neg (not_not.mpr rfl)
  · rw [hn] at h12 hmod hlt
    rcases hrep.locate hn (by omega) hmod hlt with
      ⟨b, hb, hsuits, hle, hbest, m, F', hlocate, hrep', huser⟩ | ⟨hnone, hlocate⟩
    · obtain ⟨l, r, rfl⟩ := List.append_of_mem hb
      rw [List.append_cons] at *
      obtain ⟨c, rest, m', F'', hprepare, hcarved, hrep'', huser'⟩ :=
        hrep'.prepare hsuits.1 hmod h12 hle
      rw [hlocate]
      dsimp only
      rw [hadjust]
      obtain ⟨hl, hr, hleft, hright⟩ := h.coalesced.around
      have hused : used (l ++ r) = used (l ++ [b] ++ r) := by
        rw [used_append, used_append, used_append, used_cons_free hsuits.1]
        simp [used]
      refine Or.inl ⟨l, b, r, c, rest, m', rfl, by omega, hsuits, hbest, hcarved, hprepare,
        ⟨⟨F'', hrep''⟩, ?_⟩, huser.trans (huser'.of_used hused.symm)⟩
      refine coalesced_around hl ?_ (Or.inl hcarved.used) (Or.inl hcarved.used)
      -- the rest is behind a block in use, and before one
      have hlength := hcarved.rest_length
      rcases rest with _ | ⟨d, _ | ⟨e, t⟩⟩
      · exact hr
      · refine coalesced_append.mpr ⟨List.isChain_singleton d, hr, fun x hx y hy => ?_⟩
        exact Or.inr (hright hsuits.1 y hy)
      · simp at hlength
    · refine Or.inr ⟨Or.inr hnone, ?_⟩
      rw [hlocate]
      exact if_neg (not_not.mpr rfl)

end Malloc

/-! ### Release -/

section Free

variable {p : Pool} {mem : Mem} {bs l r : List Block} {F : Lists} {b : Block}

/-- A block takes in the one before it if that is free; `d` is what it has become. -/
theorem Rep.mergePrev (h : Rep p mem (l ++ [b] ++ r) F [b.addr]) (hfree : b.free = true)
    (hl : Coalesced l) :
    ∃ l' d mem' F', blockMergePrev mem (BitVec.ofNat 32 p.ctl) (BitVec.ofNat 32 b.addr) =
        (mem', BitVec.ofNat 32 d.addr) ∧
      Rep p mem' (l' ++ [d] ++ r) F' [d.addr] ∧ d.free = true ∧ used l' = used l ∧ Coalesced l' ∧
      (∀ c ∈ l'.getLast?, c.free = false) ∧ SameUser p (l ++ r) mem mem' := by
  obtain ⟨htile, -⟩ := h.layout.around
  unfold blockMergePrev
  rw [blockIsPrevFree_ofNat]
  dsimp only
  rcases List.eq_nil_or_concat l with rfl | ⟨l', c, rfl⟩
  · -- the first block
    have heq : p.first = b.addr := htile
    rw [if_neg (by rw [← heq, h.headers.first]; decide)]
    exact ⟨[], b, mem, F, rfl, h, hfree, rfl, hl, by simp, SameUser.refl _ _ _⟩
  · rw [List.concat_eq_append] at *
    obtain ⟨-, -, heq⟩ := tiles_append_cons.mp htile
    have heq : c.next = b.addr := heq
    have hprev := h.headers.prevFree c (by simp)
    rw [heq] at hprev
    rw [hprev]
    obtain ⟨hl', -, hlast⟩ := coalesced_append.mp hl
    by_cases hc : c.free = true
    · have hcb := c.addr_lt_next
      rw [if_pos hc, blockPrev, loadWord_ofNat, ← heq, h.headers.prevPhys c (by simp) hc, heq]
      obtain ⟨F', hrep, huser⟩ := h.blockRemove (b := c) (by simp) hc (by simp; omega)
      have hassoc : l' ++ [c] ++ [b] ++ r = l' ++ [c, b] ++ r := by simp
      rw [hassoc] at hrep huser
      have hwords := hrep.absorb_words
      obtain ⟨hrep', huser'⟩ := hrep.absorb hc hfree (by simp)
      have hused : used (l' ++ [c]) = used l' := by
        rw [used_append, used_cons_free hc]
        simp [used]
      have hused₁ : used (l' ++ [c] ++ r) = used (l' ++ [c, b] ++ r) := by
        simp [used, hc, hfree]
      have hused₂ : used (l' ++ [c] ++ r) = used (l' ++ r) := by
        simp [used, hc]
      refine ⟨l', c.join b, _, F', ?_, hrep', hc, hused.symm, hl', ?_,
        (huser.of_used hused₁).trans (huser'.of_used hused₂)⟩
      · rw [hwords]
        rfl
      · intro x hx
        simpa [hc] using hlast x hx c (by simp)
    · rw [if_neg hc]
      refine ⟨l' ++ [c], b, mem, F, rfl, h, hfree, rfl, hl, ?_, SameUser.refl _ _ _⟩
      intro x hx
      obtain rfl : c = x := by simpa using hx
      simpa using hc

/-- A block takes in the one behind it if that is free. -/
theorem Rep.mergeNext (h : Rep p mem (l ++ [b] ++ r) F [b.addr]) (hfree : b.free = true)
    (hr : Coalesced r) :
    ∃ r' d mem' F', blockMergeNext mem (BitVec.ofNat 32 p.ctl) (BitVec.ofNat 32 b.addr) =
        (mem', BitVec.ofNat 32 d.addr) ∧
      Rep p mem' (l ++ [d] ++ r') F' [d.addr] ∧ d.free = true ∧ used r' = used r ∧ Coalesced r' ∧
      (∀ c ∈ r'.head?, c.free = false) ∧ SameUser p (l ++ r) mem mem' := by
  obtain ⟨-, htile⟩ := h.layout.around
  have hsize := h.headers.size b (by simp)
  unfold blockMergeNext
  rw [blockNext_ofNat, hsize, show b.addr + 4 + b.size = b.next from rfl]
  dsimp only
  rw [blockIsFree_ofNat]
  rcases r with _ | ⟨c, r'⟩
  · have heq : b.next = p.last := htile
    rw [if_neg (by rw [heq, h.headers.lastUsed]; decide)]
    exact ⟨[], b, mem, F, rfl, h, hfree, rfl, hr, by simp, SameUser.refl _ _ _⟩
  · obtain ⟨heq, -, -⟩ := htile
    have heq : c.addr = b.next := heq
    rw [← heq, h.headers.free c (by simp)]
    obtain ⟨-, hr', hhead⟩ := coalesced_append.mp (show Coalesced ([c] ++ r') from hr)
    by_cases hc : c.free = true
    · have hbc := b.addr_lt_next
      rw [if_pos hc]
      obtain ⟨F', hrep, huser⟩ := h.blockRemove (b := c) (by simp) hc (by simp; omega)
      have hassoc : l ++ [b] ++ c :: r' = l ++ [b, c] ++ r' := by simp
      rw [hassoc] at hrep huser
      have hwords := hrep.absorb_words
      obtain ⟨hrep', huser'⟩ := hrep.absorb hfree hc (by simp [or_comm])
      have hused₁ : used (l ++ c :: r') = used (l ++ [b, c] ++ r') := by
        simp [used, hc, hfree]
      have hused₂ : used (l ++ c :: r') = used (l ++ r') := by
        simp [used, hc]
      refine ⟨r', b.join c, _, F', ?_, hrep', hfree, (used_cons_free hc r').symm, hr', ?_,
        (huser.of_used hused₁).trans (huser'.of_used hused₂)⟩
      · rw [hwords]
        rfl
      · intro x hx
        simpa [hc] using hhead c (by simp) x hx
    · rw [if_neg hc]
      refine ⟨c :: r', b, mem, F, rfl, h, hfree, rfl, hr, ?_, SameUser.refl _ _ _⟩
      intro x hx
      obtain rfl : c = x := by simpa using hx
      simpa using hc

/-- A free block that is in no list is put into one, between blocks in use. -/
theorem Rep.insertHeap (h : Rep p mem (l ++ [b] ++ r) F [b.addr]) (hfree : b.free = true)
    (hl : Coalesced l) (hr : Coalesced r) (hleft : ∀ c ∈ l.getLast?, c.free = false)
    (hright : ∀ c ∈ r.head?, c.free = false) :
    Heap p (Tlsf.blockInsert mem (BitVec.ofNat 32 p.ctl) (BitVec.ofNat 32 b.addr)) (l ++ [b] ++ r) ∧
      SameUser p (l ++ r) mem
        (Tlsf.blockInsert mem (BitVec.ofNat 32 p.ctl) (BitVec.ofNat 32 b.addr)) := by
  obtain ⟨F', hrep, huser⟩ := h.blockInsert (by simp) hfree List.not_mem_nil
  refine ⟨⟨⟨F', hrep⟩, coalesced_around hl hr (Or.inr hleft) (Or.inr hright)⟩, huser.of_used ?_⟩
  simp [used, hfree]

/-- **`tlsf_free`** makes a block in use free, with the free ones around it. -/
theorem Heap.free (h : Heap p mem (l ++ [b] ++ r)) (hused : b.free = false) :
    ∃ mem' l' d r', tlsfFree mem (BitVec.ofNat 32 p.ctl) (BitVec.ofNat 32 (b.addr + 8)) = mem' ∧
      Heap p mem' (l' ++ [d] ++ r') ∧ d.free = true ∧ used l' = used l ∧ used r' = used r ∧
      SameUser p (l ++ r) mem mem' := by
  obtain ⟨F, hrep⟩ := h.rep
  obtain ⟨hl, hr, -, -⟩ := h.coalesced.around
  obtain ⟨hamod, hnmod, hanext, hnle⟩ := hrep.layout.bounds'
  have hne : BitVec.ofNat 32 (b.addr + 8) ≠ 0#32 := by
    intro h0
    have := (ofNat_inj (a := b.addr + 8) (b := 0) (by omega) (by omega)).mp h0
    omega
  unfold tlsfFree
  rw [if_pos hne, blockFromPtr_ofNat]
  dsimp only
  obtain ⟨hrep₁, huser₁⟩ := hrep.markFree hused
  obtain ⟨l', d, m₂, F₂, hprev, hrep₂, hdfree, husedl, hl', hleft, huser₂⟩ :=
    hrep₁.mergePrev rfl hl
  have hprev : blockMergePrev (blockMarkAsFree mem (BitVec.ofNat 32 b.addr))
      (BitVec.ofNat 32 p.ctl) (BitVec.ofNat 32 b.addr) = (m₂, BitVec.ofNat 32 d.addr) := hprev
  rw [hprev]
  dsimp only
  obtain ⟨r', e, m₃, F₃, hnext, hrep₃, hefree, husedr, hr', hright, huser₃⟩ :=
    hrep₂.mergeNext hdfree hr
  rw [hnext]
  dsimp only
  obtain ⟨hheap, huser₄⟩ := hrep₃.insertHeap hefree hl' hr' hleft hright
  refine ⟨_, l', e, r', rfl, hheap, hefree, husedl, husedr, ?_⟩
  have hused₃ : used (l ++ r) = used (l' ++ r) := by
    rw [used_append, used_append, husedl]
  have hused₄ : used (l ++ r) = used (l' ++ r') := by
    rw [used_append, used_append, husedl, husedr]
  exact ((huser₁.trans huser₂).trans (huser₃.of_used hused₃)).trans (huser₄.of_used hused₄)

end Free

end Filestick.Tlsf
