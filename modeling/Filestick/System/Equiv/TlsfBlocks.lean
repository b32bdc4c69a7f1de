import Filestick.System.Equiv.TlsfLists

/-!
# Blocks of the heap

What the functions that take blocks apart do to the blocks that the memory stands for.

* `Rep.removeAt`, `Rep.insert`: the lists change, and the blocks stay.
* `Rep.splice`: some blocks that are not in the lists are replaced by others in the same place.
* `Rep.markFree`, `Rep.markUsed`, `Rep.absorb`, `Rep.splitFree`, `Rep.splitUsed`: the ways in which
  the allocator does that.
-/

namespace Filestick.Tlsf

open Elf (Mem)
open Tiling (Tiles tiles_append tiles_append_cons)

/-! ### What is not touched -/

/-- A word outside the pool, or of a block that is in use. -/
def UserWord (p : Pool) (bs : List Block) (x : ℕ) : Prop :=
  (x < p.ctl ∨ p.last + 8 ≤ x) ∨ ∃ b ∈ bs, b.free = false ∧ b.addr + 8 ≤ x ∧ x < b.next + 4

/-- The memory outside the pool, and of the blocks in use, stays. -/
def SameUser (p : Pool) (bs : List Block) (mem mem' : Mem) : Prop :=
  ∀ x, x % 4 = 0 → x < 2 ^ 32 → UserWord p bs x → word mem' x = word mem x

/-- The memory stays, except between the header at `a` and the one at `z`. -/
def SameOutside (a z : ℕ) (mem mem' : Mem) : Prop :=
  ∀ x, x % 4 = 0 → x < 2 ^ 32 → (x < a + 4 ∨ z + 8 ≤ x) → word mem' x = word mem x

section Same

variable {p : Pool} {mem mem' mem'' : Mem} {bs bs' l m r : List Block} {F : Lists} {X : List ℕ}

theorem SameUser.refl (p : Pool) (bs : List Block) (mem : Mem) : SameUser p bs mem mem :=
  fun _ _ _ _ => rfl

theorem SameUser.trans (h : SameUser p bs mem mem') (h' : SameUser p bs mem' mem'') :
    SameUser p bs mem mem'' :=
  fun x hx hx' huser => (h' x hx hx' huser).trans (h x hx hx' huser)

/-- Fewer blocks in use. -/
theorem SameUser.mono (h : SameUser p bs mem mem')
    (hsub : ∀ b ∈ bs', b.free = false → b ∈ bs) : SameUser p bs' mem mem' := by
  intro x hx hx' huser
  apply h x hx hx'
  rcases huser with hout | ⟨b, hb, hused, hlo, hhi⟩
  · exact Or.inl hout
  · exact Or.inr ⟨b, hsub b hb hused, hused, hlo, hhi⟩

/-- A change of the lists does not touch what is in use. -/
theorem SameOff.sameUser (h : SameOff p F mem mem') (hbs : Layout p bs)
    (hF : ∀ k, ∀ a ∈ F k, ∃ b ∈ bs, b.free = true ∧ b.addr = a) : SameUser p bs mem mem' := by
  have hlt := p.ctl_lt
  have hfirst : p.first = p.ctl + 3184 := rfl
  intro x hx hx' huser
  apply h x hx hx'
  constructor
  · rcases huser with hout | ⟨b, hb, -, hlo, -⟩
    · omega
    · have := (hbs.bounds hb).2.1
      omega
  · intro k a ha
    obtain ⟨c, hc, hfree, rfl⟩ := hF k a ha
    obtain ⟨-, hcfirst, hcnext, hclast, -⟩ := hbs.bounds hc
    rcases huser with hout | ⟨b, hb, hused, hlo, hhi⟩
    · omega
    · have hne : b ≠ c := by
        rintro rfl
        rw [hused] at hfree
        exact absurd hfree (by decide)
      have hbnext := b.addr_lt_next
      rcases hbs.far hb hc hne with hle | hle <;> omega

/-- A change of the lists does not touch the headers. -/
theorem SameOff.headers (h : SameOff p F mem mem') (hbs : Layout p bs)
    (hF : ∀ k, ∀ a ∈ F k, ∃ b ∈ bs, b.free = true ∧ b.addr = a) (hh : Headers p mem bs) :
    Headers p mem' bs := by
  have hmod := p.ctl_mod
  have hlt := p.ctl_lt
  have hlast := p.last_le
  have hfirst : p.first = p.ctl + 3184 := rfl
  -- a word at a place that is `d` behind the start or the end of a block
  have hplace (y d : ℕ) (hy : ∃ b ∈ bs, y = b.addr ∨ y = b.next) (hd : d = 4 ∨ d = 0)
      (hge : p.first + 4 ≤ y + d) : word mem' (y + d) = word mem (y + d) := by
    obtain ⟨b, hb, hy⟩ := hy
    obtain ⟨hbmod, -, hbnext, hblast, hbmod'⟩ := hbs.bounds hb
    refine h _ (by omega) (by omega) ⟨by omega, fun k a ha => ?_⟩
    obtain ⟨c, hc, -, rfl⟩ := hF k a ha
    have hcnext := c.addr_lt_next
    by_cases hbc : b = c
    · subst hbc
      omega
    · rcases hbs.far hb hc hbc with hle | hle <;> omega
  have hlastword : word mem' (p.last + 4) = word mem (p.last + 4) := by
    have hlmod := hbs.last_mod
    refine h _ (by omega) (by omega) ⟨by omega, fun k a ha => ?_⟩
    obtain ⟨c, hc, -, rfl⟩ := hF k a ha
    obtain ⟨-, -, hcnext, hclast, -⟩ := hbs.bounds hc
    omega
  have hfirstword : word mem' (p.first + 4) = word mem (p.first + 4) := by
    refine h _ (by omega) (by omega) ⟨by omega, fun k a ha => ?_⟩
    obtain ⟨c, hc, -, rfl⟩ := hF k a ha
    have := (hbs.bounds hc).2.1
    omega
  refine hh.congr ?_ ?_ ?_ hfirstword hlastword
  · intro b hb
    have := (hbs.bounds hb).2.1
    exact hplace b.addr 4 ⟨b, hb, Or.inl rfl⟩ (Or.inl rfl) (by omega)
  · intro b hb
    obtain ⟨-, hbfirst, hbnext, -, -⟩ := hbs.bounds hb
    exact hplace b.next 4 ⟨b, hb, Or.inr rfl⟩ (Or.inl rfl) (by omega)
  · intro b hb _
    obtain ⟨-, hbfirst, hbnext, -, -⟩ := hbs.bounds hb
    exact hplace b.next 0 ⟨b, hb, Or.inr rfl⟩ (Or.inr rfl) (by omega)

theorem Listed.exists_block (h : Listed bs F X) (k a : ℕ) (ha : a ∈ F k) :
    ∃ b ∈ bs, b.free = true ∧ b.addr = a := by
  obtain ⟨b, hb, hfree, heq, -⟩ := (h.mem_iff k a).mp ha
  exact ⟨b, hb, hfree, heq⟩

end Same

/-! ### The lists change -/

section ListOps

variable {p : Pool} {mem : Mem} {bs : List Block} {F : Lists} {X : List ℕ} {b : Block}

/-- The size of a block is small enough for the lists. -/
theorem Layout.size_lt (h : Layout p bs) (hb : b ∈ bs) : b.size < 2 ^ 30 := by
  have hlast := p.last_lt
  have hfirst : p.first = p.ctl + 3184 := rfl
  obtain ⟨-, hlo, -, hhi, -⟩ := h.bounds hb
  unfold Block.next at hhi
  omega

/-- The list of a block. -/
theorem Rep.mappingInsert_eq (h : Rep p mem bs F X) (hb : b ∈ bs) :
    ∃ fl sl, fl < 24 ∧ sl < 32 ∧ 32 * fl + sl = sizeClass b.size ∧
      mappingInsert (blockSize mem (BitVec.ofNat 32 b.addr)) = (fl, sl) := by
  rw [blockSize_ofNat, h.headers.size b hb]
  exact exists_mappingInsert (h.layout.size_lt hb)

/-- A block that is in its list. -/
theorem Rep.mem_list (h : Rep p mem bs F X) (hb : b ∈ bs) (hfree : b.free = true)
    (hX : b.addr ∉ X) : b.addr ∈ F (sizeClass b.size) :=
  (h.listed.mem_iff _ _).mpr ⟨b, hb, hfree, rfl, rfl, hX⟩

/-- **A node is taken out of its list.** -/
theorem Rep.removeAt {fl sl a : ℕ} (h : Rep p mem bs F X) (hfl : fl < 24) (hsl : sl < 32)
    (ha : a ∈ F (32 * fl + sl)) :
    Rep p (removeFreeBlock mem (BitVec.ofNat 32 p.ctl) (BitVec.ofNat 32 a) fl sl) bs
        (F.erase (32 * fl + sl) a) (a :: X) ∧
      SameUser p bs mem
        (removeFreeBlock mem (BitVec.ofNat 32 p.ctl) (BitVec.ofNat 32 a) fl sl) := by
  have hN := h.listed.nodes h.layout
  obtain ⟨hindex, hoff⟩ := h.index.remove hN hfl hsl ha
  refine ⟨⟨h.layout, hoff.headers h.layout h.listed.exists_block h.headers, hindex, ?_⟩,
    hoff.sameUser h.layout h.listed.exists_block⟩
  have hnd := h.listed.nodup (32 * fl + sl)
  constructor
  · intro k x
    rw [Lists.erase]
    by_cases hk : k = 32 * fl + sl
    · subst hk
      rw [Function.update_self, hnd.mem_erase_iff, h.listed.mem_iff]
      constructor
      · rintro ⟨hne, b, hb, hfree, hx, hclass, hX⟩
        exact ⟨b, hb, hfree, hx, hclass, by simp [hne, hX]⟩
      · rintro ⟨b, hb, hfree, hx, hclass, hX⟩
        rw [List.mem_cons, not_or] at hX
        exact ⟨hX.1, b, hb, hfree, hx, hclass, hX.2⟩
    · rw [Function.update_of_ne hk, h.listed.mem_iff]
      constructor
      · rintro ⟨b, hb, hfree, hx, hclass, hX⟩
        have hne : x ≠ a := by
          rintro rfl
          exact hk (hN.unique k x ((h.listed.mem_iff k x).mpr ⟨b, hb, hfree, hx, hclass, hX⟩) _ ha)
        exact ⟨b, hb, hfree, hx, hclass, by simp [hne, hX]⟩
      · rintro ⟨b, hb, hfree, hx, hclass, hX⟩
        exact ⟨b, hb, hfree, hx, hclass, fun hmem => hX (List.mem_cons_of_mem a hmem)⟩
  · intro k
    rw [Lists.erase]
    by_cases hk : k = 32 * fl + sl
    · subst hk
      rw [Function.update_self]
      exact hnd.erase a
    · rw [Function.update_of_ne hk]
      exact h.listed.nodup k

/-- `block_remove` takes a block out of its list. -/
theorem Rep.blockRemove (h : Rep p mem bs F X) (hb : b ∈ bs) (hfree : b.free = true)
    (hX : b.addr ∉ X) :
    ∃ F', Rep p (Tlsf.blockRemove mem (BitVec.ofNat 32 p.ctl) (BitVec.ofNat 32 b.addr)) bs F'
        (b.addr :: X) ∧
      SameUser p bs mem
        (Tlsf.blockRemove mem (BitVec.ofNat 32 p.ctl) (BitVec.ofNat 32 b.addr)) := by
  obtain ⟨fl, sl, hfl, hsl, hclass, hmap⟩ := h.mappingInsert_eq hb
  have ha := h.mem_list hb hfree hX
  rw [← hclass] at ha
  rw [Tlsf.blockRemove, hmap]
  exact ⟨_, h.removeAt hfl hsl ha⟩

/-- **`block_insert` puts a block into its list.** -/
theorem Rep.blockInsert (h : Rep p mem bs F (b.addr :: X)) (hb : b ∈ bs) (hfree : b.free = true)
    (hX : b.addr ∉ X) :
    ∃ F', Rep p (Tlsf.blockInsert mem (BitVec.ofNat 32 p.ctl) (BitVec.ofNat 32 b.addr)) bs F' X ∧
      SameUser p bs mem
        (Tlsf.blockInsert mem (BitVec.ofNat 32 p.ctl) (BitVec.ofNat 32 b.addr)) := by
  obtain ⟨fl, sl, hfl, hsl, hclass, hmap⟩ := h.mappingInsert_eq hb
  have hnot (k : ℕ) : b.addr ∉ F k := by
    intro hmem
    obtain ⟨c, -, -, -, -, hXc⟩ := (h.listed.mem_iff k _).mp hmem
    exact hXc List.mem_cons_self
  have hlisted : Listed bs (F.cons (32 * fl + sl) b.addr) X := by
    constructor
    · intro k x
      rw [Lists.cons]
      by_cases hk : k = 32 * fl + sl
      · subst hk
        rw [Function.update_self, List.mem_cons, h.listed.mem_iff]
        constructor
        · rintro (rfl | ⟨c, hc, hcfree, hx, hcclass, hXc⟩)
          · exact ⟨b, hb, hfree, rfl, hclass.symm, hX⟩
          · exact ⟨c, hc, hcfree, hx, hcclass, fun hmem => hXc (List.mem_cons_of_mem _ hmem)⟩
        · rintro ⟨c, hc, hcfree, hx, hcclass, hXc⟩
          by_cases hxb : x = b.addr
          · exact Or.inl hxb
          · exact Or.inr ⟨c, hc, hcfree, hx, hcclass, by simp [hxb, hXc]⟩
      · rw [Function.update_of_ne hk, h.listed.mem_iff]
        constructor
        · rintro ⟨c, hc, hcfree, hx, hcclass, hXc⟩
          exact ⟨c, hc, hcfree, hx, hcclass, fun hmem => hXc (List.mem_cons_of_mem _ hmem)⟩
        · rintro ⟨c, hc, hcfree, hx, hcclass, hXc⟩
          have hxb : x ≠ b.addr := by
            rintro rfl
            obtain rfl := h.layout.eq_of_addr hc hb hx
            exact hk (hcclass.symm.trans hclass.symm)
          exact ⟨c, hc, hcfree, hx, hcclass, by simp [hxb, hXc]⟩
    · intro k
      rw [Lists.cons]
      by_cases hk : k = 32 * fl + sl
      · subst hk
        rw [Function.update_self]
        exact List.nodup_cons.mpr ⟨hnot _, h.listed.nodup _⟩
      · rw [Function.update_of_ne hk]
        exact h.listed.nodup k
  obtain ⟨hindex, hoff⟩ := h.index.insert (hlisted.nodes h.layout) hfl hsl
  rw [Tlsf.blockInsert, hmap]
  exact ⟨_, ⟨h.layout, hoff.headers h.layout hlisted.exists_block h.headers, hindex, hlisted⟩,
    hoff.sameUser h.layout hlisted.exists_block⟩

end ListOps

/-! ### The blocks change -/

/-- A header of a block, and what the next one says about it. -/
structure HeaderOf (mem : Mem) (b : Block) : Prop where
  size : sizeOf (word mem (b.addr + 4)) = b.size
  free : isFree (word mem (b.addr + 4)) = b.free
  prevFree : isPrevFree (word mem (b.next + 4)) = b.free
  prevPhys : b.free = true → word mem b.next = BitVec.ofNat 32 b.addr

theorem Headers.of_mem {p : Pool} {mem : Mem} {bs : List Block} {b : Block} (h : Headers p mem bs)
    (hb : b ∈ bs) : HeaderOf mem b :=
  ⟨h.size b hb, h.free b hb, h.prevFree b hb, h.prevPhys b hb⟩

section Splice

variable {p : Pool} {mem mem' : Mem} {l m m' r : List Block} {F : Lists} {X X' : List ℕ} {a z : ℕ}

/-- The headers after some blocks have been replaced by others in the same place. -/
theorem Headers.splice (h : Headers p mem (l ++ m ++ r))
    (hl : Tiles Block.addr Block.next p.first a l) (hr : Tiles Block.addr Block.next z p.last r)
    (haz : a + 16 ≤ z) (hfmod : p.first % 4 = 0) (hamod : a % 4 = 0) (hzmod : z % 4 = 0)
    (hsame : SameOutside a z mem mem') (hm' : ∀ b ∈ m', HeaderOf mem' b)
    (ha : isPrevFree (word mem' (a + 4)) = isPrevFree (word mem (a + 4)))
    (hzsize : sizeOf (word mem' (z + 4)) = sizeOf (word mem (z + 4)))
    (hzfree : isFree (word mem' (z + 4)) = isFree (word mem (z + 4))) :
    Headers p mem' (l ++ m' ++ r) := by
  have hlastle := p.last_le
  have hale := hl.le
  have hzle := hr.le
  -- the blocks on the left
  have hleft (b : Block) (hb : b ∈ l) : HeaderOf mem' b := by
    have hb' := h.of_mem (b := b) (by simp [hb])
    obtain ⟨-, -, hnext⟩ := hl.mem_bounds hb
    have hbnext := b.addr_lt_next
    have hbmod := tiles_mod hl hfmod hb
    have hbsize := b.size_mod
    have hnmod : b.next % 4 = 0 := by unfold Block.next; omega
    have hword := hsame (b.addr + 4) (by omega) (by omega) (by omega)
    refine ⟨by rw [hword, hb'.size], by rw [hword, hb'.free], ?_, fun hfree => ?_⟩
    · rcases Nat.eq_or_lt_of_le hnext with heq | hlt
      · rw [← hb'.prevFree, heq, ha]
      · rw [hsame _ (by omega) (by omega) (by omega), hb'.prevFree]
    · rw [hsame _ hnmod (by omega) (by omega), hb'.prevPhys hfree]
  have hright (b : Block) (hb : b ∈ r) : HeaderOf mem' b := by
    have hb' := h.of_mem (b := b) (by simp [hb])
    obtain ⟨haddr, -, hnext⟩ := hr.mem_bounds hb
    have hbnext := b.addr_lt_next
    have hbmod := tiles_mod hr hzmod hb
    have hbsize := b.size_mod
    have hnmod : b.next % 4 = 0 := by unfold Block.next; omega
    have hword : sizeOf (word mem' (b.addr + 4)) = sizeOf (word mem (b.addr + 4)) ∧
        isFree (word mem' (b.addr + 4)) = isFree (word mem (b.addr + 4)) := by
      rcases Nat.eq_or_lt_of_le haddr with heq | hlt
      · rw [← heq]
        exact ⟨hzsize, hzfree⟩
      · rw [hsame _ (by omega) (by omega) (by omega)]
        exact ⟨rfl, rfl⟩
    refine ⟨by rw [hword.1, hb'.size], by rw [hword.2, hb'.free], ?_, fun hfree => ?_⟩
    · rw [hsame _ (by omega) (by omega) (by omega), hb'.prevFree]
    · rw [hsame _ hnmod (by omega) (by omega), hb'.prevPhys hfree]
  have hall (b : Block) (hb : b ∈ l ++ m' ++ r) : HeaderOf mem' b := by
    rcases List.mem_append.mp hb with hb | hb
    · rcases List.mem_append.mp hb with hb | hb
      · exact hleft b hb
      · exact hm' b hb
    · exact hright b hb
  have hlmod : p.last % 4 = 0 := tiles_end_mod hr hzmod
  refine ⟨fun b hb => (hall b hb).size, fun b hb => (hall b hb).free,
    fun b hb => (hall b hb).prevFree, fun b hb => (hall b hb).prevPhys, ?_, ?_, ?_⟩
  · rcases Nat.eq_or_lt_of_le hale with heq | hlt
    · rw [heq, ha, ← heq, h.first]
    · have : p.first + 4 ≤ a := by omega
      rw [hsame _ (by omega) (by omega) (by omega), h.first]
  · rcases Nat.eq_or_lt_of_le hzle with heq | hlt
    · rw [← heq, hzsize, heq, h.lastSize]
    · rw [hsame _ (by omega) (by omega) (by omega), h.lastSize]
  · rcases Nat.eq_or_lt_of_le hzle with heq | hlt
    · rw [← heq, hzfree, heq, h.lastUsed]
    · rw [hsame _ (by omega) (by omega) (by omega), h.lastUsed]

/-- **Blocks that are in no list are replaced by others in the same place.** -/
theorem Rep.splice (h : Rep p mem (l ++ m ++ r) F X)
    (hm : Tiles Block.addr Block.next a z m) (hm' : Tiles Block.addr Block.next a z m')
    (haz : a + 16 ≤ z) (hl : Tiles Block.addr Block.next p.first a l)
    (hr : Tiles Block.addr Block.next z p.last r)
    (hmX : ∀ b ∈ m, b.free = true → b.addr ∈ X) (hmX' : ∀ b ∈ m', b.free = true → b.addr ∈ X')
    (hX : ∀ x ∈ X, a ≤ x ∧ x < z) (hX' : ∀ x ∈ X', a ≤ x ∧ x < z)
    (hsame : SameOutside a z mem mem') (hheaders : ∀ b ∈ m', HeaderOf mem' b)
    (ha : isPrevFree (word mem' (a + 4)) = isPrevFree (word mem (a + 4)))
    (hzsize : sizeOf (word mem' (z + 4)) = sizeOf (word mem (z + 4)))
    (hzfree : isFree (word mem' (z + 4)) = isFree (word mem (z + 4))) :
    Rep p mem' (l ++ m' ++ r) F X' ∧ SameUser p (l ++ r) mem mem' := by
  have hlastle := p.last_le
  have hctllt := p.ctl_lt
  have hfirst : p.first = p.ctl + 3184 := rfl
  have hctlmod := p.ctl_mod
  have hfmod : p.first % 4 = 0 := by omega
  have hale := hl.le
  have hzle := hr.le
  have hamod : a % 4 = 0 := tiles_end_mod hl hfmod
  have hzmod : z % 4 = 0 := tiles_end_mod hm hamod
  -- the blocks around them
  have hside (b : Block) (hb : b ∈ l ++ r) : b.next ≤ a ∨ z ≤ b.addr := by
    rcases List.mem_append.mp hb with hb | hb
    · exact Or.inl (hl.mem_bounds hb).2.2
    · exact Or.inr (hr.mem_bounds hb).1
  have hmem (n : List Block) (b : Block) : b ∈ l ++ n ++ r ↔ b ∈ l ++ r ∨ b ∈ n := by
    simp only [List.mem_append]
    tauto
  have hinside (n : List Block) (hn : Tiles Block.addr Block.next a z n) (b : Block)
      (hb : b ∈ n) : a ≤ b.addr ∧ b.addr < z := by
    obtain ⟨hlo, hlt, hhi⟩ := hn.mem_bounds hb
    omega
  refine ⟨⟨?_, ?_, ?_, ?_⟩, ?_⟩
  · exact tiles_append.mpr ⟨z, tiles_append.mpr ⟨a, hl, hm'⟩, hr⟩
  · exact h.headers.splice hl hr haz hfmod hamod hzmod hsame hheaders ha hzsize hzfree
  · -- the nodes of the lists are around them
    have hnode (k x : ℕ) (hx : x ∈ F k) : x % 4 = 0 ∧ (x + 16 ≤ a ∨ z ≤ x) ∧ x + 16 ≤ 2 ^ 32 := by
      obtain ⟨b, hb, hfree, rfl, -, hXb⟩ := (h.listed.mem_iff k x).mp hx
      obtain ⟨hbmod, -, hbnext, hblast, -⟩ := h.layout.bounds hb
      rcases (hmem m b).mp hb with hb | hb
      · rcases hside b hb with hle | hle <;> omega
      · exact absurd (hmX b hb hfree) hXb
    refine h.index.congr ?_ ?_
    · intro x hx _ hlt
      exact hsame x hx (by omega) (by omega)
    · intro k x hx
      obtain ⟨hxmod, hxside, hxle⟩ := hnode k x hx
      exact ⟨hsame _ (by omega) (by omega) (by omega), hsame _ (by omega) (by omega) (by omega)⟩
  · refine ⟨fun k x => ?_, h.listed.nodup⟩
    rw [h.listed.mem_iff]
    constructor
    · rintro ⟨b, hb, hfree, rfl, hclass, hXb⟩
      rcases (hmem m b).mp hb with hb | hb
      · refine ⟨b, (hmem m' b).mpr (Or.inl hb), hfree, rfl, hclass, fun hmem' => ?_⟩
        have := hX' _ hmem'
        have hbnext := b.addr_lt_next
        rcases hside b hb with hle | hle <;> omega
      · exact absurd (hmX b hb hfree) hXb
    · rintro ⟨b, hb, hfree, rfl, hclass, hXb⟩
      rcases (hmem m' b).mp hb with hb | hb
      · refine ⟨b, (hmem m b).mpr (Or.inl hb), hfree, rfl, hclass, fun hmem' => ?_⟩
        have := hX _ hmem'
        have hbnext := b.addr_lt_next
        rcases hside b hb with hle | hle <;> omega
      · exact absurd (hmX' b hb hfree) hXb
  · intro x hx hx' huser
    apply hsame x hx hx'
    rcases huser with hout | ⟨b, hb, -, hlo, hhi⟩
    · omega
    · rcases hside b hb with hle | hle <;> omega

end Splice

end Filestick.Tlsf
