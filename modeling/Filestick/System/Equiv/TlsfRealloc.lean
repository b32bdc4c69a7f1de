import Filestick.System.Equiv.Memcpy
import Filestick.System.Equiv.TlsfMalloc

/-!
# Reallocation

* `Heap.userWrite`: what the blocks in use hold is not part of the heap.
* `Heap.trimUsed`, `Heap.expand`: a block is resized where it is.
* `Heap.realloc`: what `tlsf_realloc` does to the blocks, for the requests that something is looked
  for.
-/

namespace Filestick.Tlsf

open Elf (Addr Mem)
open Tiling (Tiles tiles_append tiles_append_cons)

/-! ### Bytes of the blocks in use -/

section Bytes

variable {p : Pool} {mem mem' : Mem} {bs : List Block} {F : Lists} {X : List ℕ}

/-- The words that stay leave the blocks of the heap as they are. -/
theorem Rep.congr (h : Rep p mem bs F X)
    (hsame : ∀ x, x % 4 = 0 → x < 2 ^ 32 → p.ctl ≤ x → x < p.last + 8 →
      (∀ b ∈ bs, b.free = false → x < b.addr + 8 ∨ b.next + 4 ≤ x) → word mem' x = word mem x) :
    Rep p mem' bs F X := by
  have hlast := p.last_le
  have hctl := p.ctl_lt
  have hmod := p.ctl_mod
  have hfirst : p.first = p.ctl + 3184 := rfl
  -- headers, and the links of free blocks, are not in a block in use
  have hoff {x : ℕ} {b : Block} (hb : b ∈ bs) (hx : (x = b.addr + 4 ∨ x = b.next + 4) ∨
      (b.free = true ∧ b.addr + 4 ≤ x ∧ x ≤ b.next)) (c : Block) (hc : c ∈ bs)
      (hused : c.free = false) : x < c.addr + 8 ∨ c.next + 4 ≤ x := by
    have hbn := b.addr_lt_next
    have hcn := c.addr_lt_next
    by_cases hbc : b = c
    · subst hbc
      rcases hx with hx | ⟨hfree, -⟩
      · omega
      · rw [hused] at hfree
        exact absurd hfree Bool.false_ne_true
    · rcases h.layout.far hb hc hbc with hle | hle <;> omega
  have hctlword (x : ℕ) (hx : x % 4 = 0) (hlo : p.ctl ≤ x) (hhi : x < p.first + 8) :
      word mem' x = word mem x := by
    refine hsame x hx (by omega) hlo (by omega) fun c hc _ => ?_
    have := (h.layout.bounds hc).2.1
    omega
  refine ⟨h.layout, ?_, ?_, h.listed⟩
  · refine h.headers.congr ?_ ?_ ?_ ?_ ?_
    · intro b hb
      obtain ⟨hbmod, hblo, hbn, hbhi, -⟩ := h.layout.bounds hb
      exact hsame _ (by omega) (by omega) (by omega) (by omega)
        (hoff hb (Or.inl (Or.inl rfl)))
    · intro b hb
      obtain ⟨-, hblo, hbn, hbhi, hbmod⟩ := h.layout.bounds hb
      exact hsame _ (by omega) (by omega) (by omega) (by omega)
        (hoff hb (Or.inl (Or.inr rfl)))
    · intro b hb hfree
      obtain ⟨-, hblo, hbn, hbhi, hbmod⟩ := h.layout.bounds hb
      exact hsame _ hbmod (by omega) (by omega) (by omega)
        (hoff hb (Or.inr ⟨hfree, by omega, le_rfl⟩))
    · exact hctlword _ (by omega) (by omega) (by omega)
    · have hlmod := h.layout.last_mod
      refine hsame _ (by omega) (by omega) (by omega) (by omega) fun c hc _ => ?_
      have := (h.layout.bounds hc).2.2.2.1
      omega
  · refine h.index.congr ?_ ?_
    · intro x hx hlo hhi
      exact hctlword x hx hlo (by omega)
    · intro k a ha
      obtain ⟨b, hb, hfree, rfl, -⟩ := (h.listed.mem_iff k a).mp ha
      obtain ⟨hbmod, hblo, hbn, hbhi, -⟩ := h.layout.bounds hb
      exact ⟨hsame _ (by omega) (by omega) (by omega) (by omega)
          (hoff hb (Or.inr ⟨hfree, by omega, by omega⟩)),
        hsame _ (by omega) (by omega) (by omega) (by omega)
          (hoff hb (Or.inr ⟨hfree, by omega, by omega⟩))⟩

/-- A byte of a block in use. -/
def InBlock (b : Block) (i : ℕ) : Prop := b.addr + 8 ≤ i ∧ i < b.next + 4

/-- **The heap does not depend on what the blocks in use hold.** -/
theorem Heap.userWrite (h : Heap p mem bs)
    (hsame : ∀ i < 2 ^ 32, p.ctl ≤ i → i < p.last + 8 →
      (∀ b ∈ bs, b.free = false → ¬InBlock b i) →
      mem' (BitVec.ofNat 32 i) = mem (BitVec.ofNat 32 i)) : Heap p mem' bs := by
  obtain ⟨F, hrep⟩ := h.rep
  refine ⟨⟨F, hrep.congr fun x hx hx' hlo hhi hout => word_congr fun i hi => ?_⟩, h.coalesced⟩
  have hlast := p.last_le
  have hlmod : p.ctl % 4 = 0 := p.ctl_mod
  by_cases hend : x + i < p.last + 8
  · refine hsame (x + i) (by omega) (by omega) hend fun b hb hused hin => ?_
    obtain ⟨hbmod, -, -, -, hnmod⟩ := hrep.layout.bounds hb
    obtain ⟨h1, h2⟩ := hin
    have := hout b hb hused
    omega
  · -- the last word of the pool is whole
    have hlastmod := hrep.layout.last_mod
    omega

end Bytes

/-! ### In place -/

section InPlace

variable {p : Pool} {mem : Mem} {l r : List Block} {F : Lists} {b : Block} {n : ℕ}

/-- **`block_trim_used`** gives the end of a block back. -/
theorem Rep.trimUsed (h : Rep p mem (l ++ [b] ++ r) F []) (hused : b.free = false)
    (hl : Coalesced l) (hr : Coalesced r) (hmod : n % 4 = 0) (hn : 12 ≤ n) (hle : n ≤ b.size) :
    ∃ c r' mem', blockTrimUsed mem (BitVec.ofNat 32 p.ctl) (BitVec.ofNat 32 b.addr)
        (BitVec.ofNat 32 n) = mem' ∧
      Heap p mem' (l ++ [c] ++ r') ∧ c.addr = b.addr ∧ c.free = false ∧ n ≤ c.size ∧
      c.size ≤ b.size ∧ used r' = used r ∧ SameUser p (l ++ [c] ++ r) mem mem' := by
  have hblt := h.layout.size_lt (b := b) (by simp)
  have hcan : blockCanSplit mem (BitVec.ofNat 32 b.addr) (BitVec.ofNat 32 n) =
      decide (n + 16 ≤ b.size) := by
    rw [blockCanSplit, blockSize_ofNat, h.headers.size b (by simp), blockHeaderBytes,
      ← BitVec.ofNat_add]
    congr 1
    rw [BitVec.le_def, BitVec.toNat_ofNat, BitVec.toNat_ofNat, Nat.mod_eq_of_lt (by omega),
      Nat.mod_eq_of_lt (by omega), Nat.add_comm]
  unfold blockTrimUsed
  rw [hcan]
  by_cases hsplit : n + 16 ≤ b.size
  · rw [if_pos (decide_eq_true hsplit)]
    dsimp only
    obtain ⟨m, hm, hrem, hrep, huser⟩ := h.splitUsed hmod hn hsplit hused
    set c := b.front n hmod hn
    set d := b.back n hmod hsplit
    have hcused : c.free = false := hused
    rw [hm, hrem]
    have hassoc : l ++ [c, d] ++ r = l ++ [c] ++ [d] ++ r := by simp
    rw [hassoc] at hrep
    have hlc : Coalesced (l ++ [c]) := by
      have := coalesced_around hl (List.isChain_nil (R := fun b c : Block => b.free = false ∨
        c.free = false)) (Or.inl hcused) (Or.inl hcused)
      rwa [List.append_nil] at this
    obtain ⟨r', e, m', F', hnext, hrep', hefree, husedr, hr', hright, huser'⟩ :=
      hrep.mergeNext rfl hr
    rw [hnext]
    dsimp only
    have hlast : ∀ x ∈ (l ++ [c]).getLast?, x.free = false := by
      intro x hx
      obtain rfl : c = x := by simpa using hx
      exact hcused
    obtain ⟨hheap, huser''⟩ := hrep'.insertHeap hefree hlc hr' hlast hright
    have hassoc' : l ++ [c] ++ [e] ++ r' = l ++ [c] ++ ([e] ++ r') := by simp
    rw [hassoc'] at hheap
    refine ⟨c, [e] ++ r', _, rfl, hheap, rfl, hcused, le_rfl, ?_, ?_, ?_⟩
    · show n ≤ b.size
      omega
    · rw [← husedr]
      exact used_cons_free hefree r'
    · have hused' : used (l ++ [c] ++ r) = used (l ++ [c] ++ r') := by
        rw [used_append, used_append (l ++ [c]), husedr]
      exact (huser.trans huser').trans (huser''.of_used hused')
  · rw [if_neg (by simpa using hsplit)]
    refine ⟨b, r, mem, rfl, ⟨⟨F, h⟩, ?_⟩, rfl, hused, hle, le_rfl, rfl, SameUser.refl _ _ _⟩
    exact coalesced_around hl hr (Or.inl hused) (Or.inl hused)

/-- **A block takes in the free one behind it**, and is still in use. -/
theorem Rep.expand {c : Block} (h : Rep p mem (l ++ [b, c] ++ r) F []) (hused : b.free = false)
    (hc : c.free = true) :
    ∃ mem' F', blockMarkAsUsed (blockMergeNext mem (BitVec.ofNat 32 p.ctl)
        (BitVec.ofNat 32 b.addr)).1 (BitVec.ofNat 32 b.addr) = mem' ∧
      Rep p mem' (l ++ [b.join c] ++ r) F' [] ∧ SameUser p (l ++ [b] ++ r) mem mem' := by
  obtain ⟨-, heq, -⟩ := h.layout.around_two
  have hsize := h.headers.size b (by simp)
  unfold blockMergeNext
  dsimp only
  rw [blockNext_ofNat, hsize, show b.addr + 4 + b.size = b.next from rfl, ← heq, blockIsFree_ofNat,
    h.headers.free c (by simp), if_pos hc]
  obtain ⟨F', hrep, huser⟩ := h.blockRemove (b := c) (by simp) hc List.not_mem_nil
  obtain ⟨hrep', huser'⟩ := hrep.grow hused
  refine ⟨_, F', rfl, hrep', (huser.of_used ?_).trans huser'⟩
  simp [used, hused, hc]

end InPlace

/-! ### What a call changes -/

/-- **What a call leaves**: the block `come` is in use now, and the block `gone` is no longer; what
the other ones hold, and the memory outside the pool, stay. -/
structure Change (p : Pool) (mem mem' : Mem) (bs bs' : List Block) (come gone : Option Block) :
    Prop where
  heap : Heap p mem' bs'
  used_iff : ∀ x, x ∈ used bs' ↔ come = some x ∨ (x ∈ used bs ∧ gone ≠ some x)
  fresh : ∀ c ∈ come, ∀ x ∈ used bs, gone ≠ some x → x.addr ≠ c.addr
  user : ∀ x ∈ used bs, gone ≠ some x → ∀ i, InBlock x i →
    mem' (BitVec.ofNat 32 i) = mem (BitVec.ofNat 32 i)
  outside : ∀ i < 2 ^ 32, (i < p.ctl ∨ p.last + 8 ≤ i) →
    mem' (BitVec.ofNat 32 i) = mem (BitVec.ofNat 32 i)

/-- The bytes of a block in use stay. -/
theorem SameUser.byte {p : Pool} {mem mem' : Mem} {bs : List Block} {b : Block}
    (h : SameUser p bs mem mem') (hb : b ∈ bs) (hused : b.free = false) (hmod : b.addr % 4 = 0)
    (hle : b.next + 8 ≤ 2 ^ 32) {i : ℕ} (hi : InBlock b i) :
    mem' (BitVec.ofNat 32 i) = mem (BitVec.ofNat 32 i) := by
  obtain ⟨hlo, hhi⟩ := hi
  have hsize := b.size_mod
  have hnext : b.next = b.addr + 4 + b.size := rfl
  have hword := h (i / 4 * 4) (by omega) (by omega) (Or.inr ⟨b, hb, hused, by omega, by omega⟩)
  have := byte_congr hword (show i % 4 < 4 by omega)
  rwa [show i / 4 * 4 + i % 4 = i by omega] at this

section Changes

variable {p : Pool} {mem mem' : Mem} {l l' m m' r r' : List Block} {come gone : Option Block}

/-- A change in one place of the heap. -/
theorem Change.of_lists (hlayout : Layout p (l ++ m ++ r)) (h : Heap p mem' (l' ++ m' ++ r'))
    (hl : used l' = used l) (hr : used r' = used r) (hm : used m = gone.toList)
    (hm' : used m' = come.toList) (hplace : ∀ c ∈ come, ∃ y ∈ m, y.addr = c.addr)
    (huser : SameUser p (l ++ r) mem mem') :
    Change p mem mem' (l ++ m ++ r) (l' ++ m' ++ r') come gone := by
  have hmod := p.ctl_mod
  have hlast := p.last_le
  have hlmod := hlayout.last_mod
  have hnd := hlayout.nodup
  have hused : used (l ++ m ++ r) = used l ++ gone.toList ++ used r := by
    rw [used_append, used_append, hm]
  have hused' : used (l' ++ m' ++ r') = used l ++ come.toList ++ used r := by
    rw [used_append, used_append, hl, hr, hm']
  -- the other blocks in use are around this place
  have hother (x : Block) : x ∈ used (l ++ m ++ r) ∧ gone ≠ some x ↔ x ∈ used (l ++ r) := by
    rw [hused, used_append]
    have hnot : gone = some x → x ∉ used l ∧ x ∉ used r := by
      rintro rfl
      have hndused : (used (l ++ m ++ r)).Nodup := hnd.filter _
      rw [hused, List.append_assoc, List.nodup_append] at hndused
      have hndr := List.nodup_append.mp hndused.2.1
      exact ⟨fun hx => hndused.2.2 x hx x (by simp) rfl,
        fun hx => hndr.2.2 x (by simp) x hx rfl⟩
    simp only [List.mem_append, Option.mem_toList]
    constructor
    · rintro ⟨(hx | hx) | hx, hne⟩
      · exact Or.inl hx
      · exact absurd hx hne
      · exact Or.inr hx
    · rintro (hx | hx)
      · exact ⟨Or.inl (Or.inl hx), fun heq => (hnot heq).1 hx⟩
      · exact ⟨Or.inr hx, fun heq => (hnot heq).2 hx⟩
  have hword {i : ℕ} (hi : i < 2 ^ 32) (hin : UserWord p (l ++ r) (i / 4 * 4)) :
      mem' (BitVec.ofNat 32 i) = mem (BitVec.ofNat 32 i) := by
    have := byte_congr (huser (i / 4 * 4) (by omega) (by omega) hin) (show i % 4 < 4 by omega)
    rwa [show i / 4 * 4 + i % 4 = i by omega] at this
  refine ⟨h, ?_, ?_, ?_, ?_⟩
  · intro x
    rw [hother x, hused', used_append]
    simp only [List.mem_append, Option.mem_toList]
    tauto
  · intro c hc x hx hne heq
    obtain ⟨y, hy, hyc⟩ := hplace c hc
    have hxlr := (mem_used.mp ((hother x).mp ⟨hx, hne⟩)).1
    have hxy : x = y :=
      hlayout.eq_of_addr (mem_used.mp hx).1 (by simp [hy]) (heq.trans hyc.symm)
    subst hxy
    rw [List.append_assoc, List.nodup_append] at hnd
    rcases List.mem_append.mp hxlr with hx' | hx'
    · exact hnd.2.2 x hx' x (by simp [hy]) rfl
    · exact (List.nodup_append.mp hnd.2.1).2.2 x hy x hx' rfl
  · intro x hx hne i hin
    obtain ⟨hxlr, hxused⟩ := mem_used.mp ((hother x).mp ⟨hx, hne⟩)
    obtain ⟨hxmod, -, hxn, hxhi, hxnmod⟩ := hlayout.bounds (mem_used.mp hx).1
    obtain ⟨hlo, hhi⟩ := hin
    exact hword (by omega) (Or.inr ⟨x, hxlr, hxused, by omega, by omega⟩)
  · intro i hi hout
    exact hword hi (Or.inl (by omega))

end Changes

/-! ### The calls -/

section Calls

variable {p : Pool} {mem : Mem} {bs : List Block} {b : Block} {n : ℕ}

/-- **`tlsf_malloc`**: a block that was free, and is large enough, is in use now. -/
theorem Heap.malloc_change (h : Heap p mem bs) (size : BitVec 32)
    (hn : (adjustRequestSize size alignSize).toNat = n) :
    (∃ c bs' mem', tlsfMalloc mem (BitVec.ofNat 32 p.ctl) size =
        (mem', BitVec.ofNat 32 (c.addr + 8)) ∧ 0 < n ∧ n ≤ c.size ∧
        Change p mem mem' bs bs' (some c) none) ∨
      ((n = 0 ∨ ∀ b ∈ bs, ¬Suits n b) ∧
        tlsfMalloc mem (BitVec.ofNat 32 p.ctl) size = (mem, 0#32)) := by
  rcases h.malloc size hn with
    ⟨l, b, r, c, rest, mem', rfl, hpos, hsuits, -, hcarved, hmalloc, hheap, huser⟩ | hnone
  · obtain ⟨F, hrep⟩ := h.rep
    refine Or.inl ⟨c, l ++ [c] ++ (rest ++ r), mem', by rw [hmalloc, hcarved.addr], hpos,
      hcarved.le, ?_⟩
    have hrest : used (rest ++ r) = used r := by
      have hnil : used rest = [] := by simpa [used] using hcarved.rest_free
      rw [used_append, hnil, List.nil_append]
    refine Change.of_lists hrep.layout hheap rfl hrest ?_ ?_ ?_ (huser.of_used ?_)
    · exact used_cons_free hsuits.1 []
    · exact used_cons_used hcarved.used []
    · intro x hx
      obtain rfl := Option.mem_some_iff.mp hx
      exact ⟨b, by simp, hcarved.addr.symm⟩
    · simp [used, hsuits.1]
  · exact Or.inr hnone

/-- **`tlsf_free`**: a block is no longer in use. -/
theorem Heap.free_change (h : Heap p mem bs) (hb : b ∈ used bs) :
    ∃ bs' mem', tlsfFree mem (BitVec.ofNat 32 p.ctl) (BitVec.ofNat 32 (b.addr + 8)) = mem' ∧
      Change p mem mem' bs bs' none (some b) := by
  obtain ⟨hmem, hused⟩ := mem_used.mp hb
  obtain ⟨l, r, rfl⟩ := List.append_of_mem hmem
  rw [List.append_cons] at *
  obtain ⟨F, hrep⟩ := h.rep
  obtain ⟨mem', l', d, r', hfree, hheap, hdfree, hl, hr, huser⟩ := h.free hused
  refine ⟨l' ++ [d] ++ r', mem', hfree, Change.of_lists hrep.layout hheap hl hr ?_ ?_ ?_ huser⟩
  · exact used_cons_used hused []
  · exact used_cons_free hdfree []
  · intro c hc
    exact absurd hc (by simp)

/-- A size that something is looked for, and its rounding is not past the last address. -/
structure Request (size : BitVec 32) (n : ℕ) : Prop where
  adjust : (adjustRequestSize size alignSize).toNat = n
  ne_zero : n ≠ 0
  no_wrap : size.toNat + 3 < 2 ^ 32

theorem Request.bounds {size : BitVec 32} (h : Request size n) :
    12 ≤ n ∧ n % 4 = 0 ∧ n < 2 ^ 30 ∧ size.toNat ≤ n ∧ size ≠ 0#32 := by
  have hne : size ≠ 0#32 := by
    rintro rfl
    exact h.ne_zero h.adjust.symm
  rcases adjustRequestSize_spec size with h0 | ⟨h12, hmod, hlt, hle⟩
  · have hn := h.adjust
    rw [h0] at hn
    exact absurd hn.symm h.ne_zero
  · rw [h.adjust] at h12 hmod hlt hle
    exact ⟨h12, hmod, hlt, hle h.no_wrap, hne⟩

/-- The branch of `tlsf_realloc` for a block in use and a size that is not 0. -/
theorem tlsfRealloc_ofNat {size : BitVec 32} {s n' : ℕ} {free : Bool} (ctl : Addr)
    (hptr : BitVec.ofNat 32 (b.addr + 8) ≠ 0#32) (hsize : size ≠ 0#32)
    (hs : sizeOf (word mem (b.addr + 4)) = b.size) (hnext : sizeOf (word mem (b.next + 4)) = s)
    (hfree : isFree (word mem (b.next + 4)) = free) (hsum : b.size + s + 4 < 2 ^ 32)
    (hn : adjustRequestSize size alignSize = BitVec.ofNat 32 n') (hn' : n' < 2 ^ 32) :
    tlsfRealloc mem ctl (BitVec.ofNat 32 (b.addr + 8)) size =
      if b.size < n' ∧ (free = false ∨ b.size + s + 4 < n') then
        let r := tlsfMalloc mem ctl size
        if r.2 ≠ 0#32 then
          let minsize := if BitVec.ofNat 32 b.size < size then BitVec.ofNat 32 b.size else size
          let mem := (Memcpy.memcpy r.1 r.2 (BitVec.ofNat 32 (b.addr + 8)) minsize).2.mem
          (tlsfFree mem ctl (BitVec.ofNat 32 (b.addr + 8)), r.2)
        else r
      else
        let mem :=
          if b.size < n' then
            blockMarkAsUsed (blockMergeNext mem ctl (BitVec.ofNat 32 b.addr)).1
              (BitVec.ofNat 32 b.addr)
          else mem
        (blockTrimUsed mem ctl (BitVec.ofNat 32 b.addr) (BitVec.ofNat 32 n'),
          BitVec.ofNat 32 (b.addr + 8)) := by
  have hlt : BitVec.ofNat 32 b.size < BitVec.ofNat 32 n' ↔ b.size < n' := by
    rw [BitVec.lt_def, BitVec.toNat_ofNat, BitVec.toNat_ofNat, Nat.mod_eq_of_lt (by omega),
      Nat.mod_eq_of_lt hn']
  have hcombined : BitVec.ofNat 32 b.size + BitVec.ofNat 32 s + blockHeaderOverhead =
      BitVec.ofNat 32 (b.size + s + 4) := by
    rw [blockHeaderOverhead, ← BitVec.ofNat_add, ← BitVec.ofNat_add]
  have hlt' : BitVec.ofNat 32 (b.size + s + 4) < BitVec.ofNat 32 n' ↔ b.size + s + 4 < n' := by
    rw [BitVec.lt_def, BitVec.toNat_ofNat, BitVec.toNat_ofNat, Nat.mod_eq_of_lt hsum,
      Nat.mod_eq_of_lt hn']
  unfold tlsfRealloc
  rw [if_neg (fun h => hsize h.2), if_neg hptr, blockFromPtr_ofNat]
  dsimp only
  rw [blockNext_ofNat, blockSize_ofNat, hs, show b.addr + 4 + b.size = b.next from rfl,
    blockSize_ofNat, hnext, blockIsFree_ofNat, hfree, hcombined, hn]
  simp only [hlt, hlt', Bool.not_eq_true']

/-- The copy of `memcpy` between two places that do not overlap. -/
theorem memcpy_ofNat (mem : Mem) {d q k : ℕ} {count : BitVec 32} (hk : count.toNat = k)
    (hd : d + k ≤ 2 ^ 32) (hq : q + k ≤ 2 ^ 32) (hapart : d + k ≤ q ∨ q + k ≤ d) :
    (∀ i < k, (Memcpy.memcpy mem (BitVec.ofNat 32 d) (BitVec.ofNat 32 q) count).2.mem
        (BitVec.ofNat 32 (d + i)) = mem (BitVec.ofNat 32 (q + i))) ∧
      ∀ i < 2 ^ 32, (i < d ∨ d + k ≤ i) →
        (Memcpy.memcpy mem (BitVec.ofNat 32 d) (BitVec.ofNat 32 q) count).2.mem
          (BitVec.ofNat 32 i) = mem (BitVec.ofNat 32 i) := by
  have hap : Elf.Apart (BitVec.ofNat 32 d) (BitVec.ofNat 32 q) k := by
    intro i j hi hj heq
    rw [← BitVec.ofNat_add, ← BitVec.ofNat_add, ofNat_inj (by omega) (by omega)] at heq
    omega
  have hmem : (Memcpy.memcpy mem (BitVec.ofNat 32 d) (BitVec.ofNat 32 q) count).2.mem =
      Ring.writeAll mem (BitVec.ofNat 32 d) (Ring.slice mem (BitVec.ofNat 32 q) k) := by
    rw [Memcpy.memcpy_refines, hk]
    exact Elf.memcpy_eq mem (by omega) hap
  have hlen : (Ring.slice mem (BitVec.ofNat 32 q) k).length = k := Ring.length_slice ..
  rw [hmem]
  constructor
  · intro i hi
    have hholds := Ring.holds_writeAll mem (BitVec.ofNat 32 d)
      (hlen.trans_le (show k ≤ 2 ^ 32 by omega)) i (hi.trans_eq hlen.symm)
    rw [BitVec.ofNat_add, hholds]
    simp [Ring.slice, BitVec.ofNat_add]
  · intro i hi hout
    apply Ring.writeAll_outside mem (hlen.trans_le (by omega))
    rw [hlen, BitVec.toNat_sub, BitVec.toNat_ofNat, BitVec.toNat_ofNat]
    omega

/-- **`tlsf_realloc`** leaves a block of the size that is asked for with the first bytes of the old
one, which is no longer in use; or it leaves everything as it was. -/
theorem Heap.realloc_change (h : Heap p mem bs) (hb : b ∈ used bs) {size : BitVec 32}
    (hsize : Request size n) :
    (∃ c bs' mem', tlsfRealloc mem (BitVec.ofNat 32 p.ctl) (BitVec.ofNat 32 (b.addr + 8)) size =
        (mem', BitVec.ofNat 32 (c.addr + 8)) ∧ n ≤ c.size ∧
        Change p mem mem' bs bs' (some c) (some b) ∧
        ∀ i < min b.size size.toNat,
          mem' (BitVec.ofNat 32 (c.addr + 8 + i)) = mem (BitVec.ofNat 32 (b.addr + 8 + i))) ∨
      (b.size < n ∧ (∀ d ∈ bs, ¬Suits n d) ∧
        tlsfRealloc mem (BitVec.ofNat 32 p.ctl) (BitVec.ofNat 32 (b.addr + 8)) size =
          (mem, 0#32)) := by
  obtain ⟨h12, hmod, hlt, hle, hne⟩ := hsize.bounds
  obtain ⟨hmem, hused⟩ := mem_used.mp hb
  obtain ⟨l, r, rfl⟩ := List.append_of_mem hmem
  rw [List.append_cons] at *
  obtain ⟨F, hrep⟩ := h.rep
  obtain ⟨hl, hr, -, -⟩ := h.coalesced.around
  obtain ⟨hamod, hnmod, hanext, hnle⟩ := hrep.layout.bounds'
  obtain ⟨-, htile⟩ := hrep.layout.around
  have hblt := hrep.layout.size_lt (b := b) (by simp)
  have hptr : BitVec.ofNat 32 (b.addr + 8) ≠ 0#32 := by
    intro h0
    have := (ofNat_inj (a := b.addr + 8) (b := 0) (by omega) (by omega)).mp h0
    omega
  have hadjust : adjustRequestSize size alignSize = BitVec.ofNat 32 n := by
    rw [← hsize.adjust, BitVec.ofNat_toNat, BitVec.setWidth_eq]
  -- the next block
  obtain ⟨s, free, hs, hfree, hslt, hcase⟩ : ∃ s free, sizeOf (word mem (b.next + 4)) = s ∧
      isFree (word mem (b.next + 4)) = free ∧ s < 2 ^ 30 ∧
      (free = true → ∃ c r', r = c :: r' ∧ c.free = true ∧ c.size = s) := by
    rcases r with _ | ⟨c, r'⟩
    · have heq : b.next = p.last := htile
      rw [heq]
      exact ⟨0, false, hrep.headers.lastSize, hrep.headers.lastUsed, by omega, by simp⟩
    · have heq : c.addr = b.next := htile.1
      rw [← heq]
      exact ⟨c.size, c.free, hrep.headers.size c (by simp), hrep.headers.free c (by simp),
        hrep.layout.size_lt (by simp), fun hc => ⟨c, r', rfl, hc, rfl⟩⟩
  rw [tlsfRealloc_ofNat _ hptr hne (hrep.headers.size b (by simp)) hs hfree (by omega) hadjust
    (by omega)]
  by_cases hmove : b.size < n ∧ (free = false ∨ b.size + s + 4 < n)
  · -- another block
    rw [if_pos hmove]
    dsimp only
    rcases h.malloc_change size hsize.adjust with
      ⟨c, bs₁, m₁, hmalloc, -, hnc, hchange⟩ | ⟨hnone, hmalloc⟩
    · obtain ⟨F₁, hrep₁⟩ := hchange.heap.rep
      have hcused : c ∈ used bs₁ := (hchange.used_iff c).mpr (Or.inl rfl)
      obtain ⟨hcmem, hcfree⟩ := mem_used.mp hcused
      have hbused₁ : b ∈ used bs₁ := (hchange.used_iff b).mpr (Or.inr ⟨hb, by simp⟩)
      obtain ⟨hcmod, hclo, hcn, hchi, hcnmod⟩ := hrep₁.layout.bounds hcmem
      have hlast := p.last_le
      have hcsize : c.next = c.addr + 4 + c.size := rfl
      have hbsize : b.next = b.addr + 4 + b.size := rfl
      have hbc : b.addr ≠ c.addr := hchange.fresh c rfl b hb (by simp)
      have hbcne : b ≠ c := fun heq => hbc (congrArg Block.addr heq)
      have hptr' : BitVec.ofNat 32 (c.addr + 8) ≠ 0#32 := by
        intro h0
        have := (ofNat_inj (a := c.addr + 8) (b := 0) (by omega) (by omega)).mp h0
        omega
      rw [hmalloc]
      dsimp only
      rw [if_pos hptr']
      have hmin : (if BitVec.ofNat 32 b.size < size then BitVec.ofNat 32 b.size else size).toNat =
          min b.size size.toNat := by
        have hblt32 : (BitVec.ofNat 32 b.size).toNat = b.size := by
          rw [BitVec.toNat_ofNat, Nat.mod_eq_of_lt (by omega)]
        by_cases hcmp : BitVec.ofNat 32 b.size < size
        · have := BitVec.lt_def.mp hcmp
          rw [if_pos hcmp]
          omega
        · have := mt BitVec.lt_def.mpr hcmp
          rw [if_neg hcmp]
          omega
      have hfar := hrep₁.layout.far (mem_used.mp hbused₁).1 hcmem hbcne
      obtain ⟨hcopy, hstay⟩ := memcpy_ofNat m₁ (d := c.addr + 8) (q := b.addr + 8) hmin
        (by omega) (by omega) (by omega)
      set m₂ := (Memcpy.memcpy m₁ (BitVec.ofNat 32 (c.addr + 8)) (BitVec.ofNat 32 (b.addr + 8))
        (if BitVec.ofNat 32 b.size < size then BitVec.ofNat 32 b.size else size)).2.mem
      -- the bytes outside the new block
      have hstay' (i : ℕ) (hi : i < 2 ^ 32) (hout : ¬InBlock c i) :
          m₂ (BitVec.ofNat 32 i) = m₁ (BitVec.ofNat 32 i) := by
        apply hstay i hi
        by_contra hin
        exact hout ⟨by omega, by omega⟩
      have hheap₂ : Heap p m₂ bs₁ := hchange.heap.userWrite fun i hi _ _ hout =>
        hstay' i hi (hout c hcmem hcfree)
      obtain ⟨bs₂, m₃, hfree₃, hchange₃⟩ := hheap₂.free_change hbused₁
      rw [hfree₃]
      refine Or.inl ⟨c, bs₂, m₃, rfl, hnc, ⟨hchange₃.heap, ?_, ?_, ?_, ?_⟩, ?_⟩
      · intro x
        rw [hchange₃.used_iff, hchange.used_iff]
        constructor
        · rintro (hx | ⟨hx | ⟨hx, -⟩, hne⟩)
          · exact absurd hx (by simp)
          · exact Or.inl hx
          · exact Or.inr ⟨hx, hne⟩
        · rintro (hx | ⟨hx, hne⟩)
          · refine Or.inr ⟨Or.inl hx, fun heq => hbcne ?_⟩
            rw [Option.some.injEq] at hx heq
            exact heq.trans hx.symm
          · exact Or.inr ⟨Or.inr ⟨hx, by simp⟩, hne⟩
      · intro x hx y hy _
        exact hchange.fresh x hx y hy (by simp)
      · intro x hx hne i hin
        have hxused₁ : x ∈ used bs₁ := (hchange.used_iff x).mpr (Or.inr ⟨hx, by simp⟩)
        have hxc : x.addr ≠ c.addr := hchange.fresh c rfl x hx (by simp)
        obtain ⟨-, -, hxn, hxhi, -⟩ := hrep₁.layout.bounds (mem_used.mp hxused₁).1
        have hxfar := hrep₁.layout.far (mem_used.mp hxused₁).1 hcmem
          (fun heq => hxc (congrArg Block.addr heq))
        have hnotin : ¬InBlock c i := by
          obtain ⟨hlo, hhi⟩ := hin
          rintro ⟨hlo', hhi'⟩
          omega
        rw [hchange₃.user x hxused₁ hne i hin, hstay' i (by have := hin.2; omega) hnotin]
        exact hchange.user x hx (by simp) i hin
      · intro i hi hout
        have hnotin : ¬InBlock c i := by
          have hctl := p.ctl_lt
          have hfirst : p.first = p.ctl + 3184 := rfl
          rintro ⟨hlo', hhi'⟩
          omega
        rw [hchange₃.outside i hi hout, hstay' i hi hnotin, hchange.outside i hi hout]
      · intro i hi
        have hcin : InBlock c (c.addr + 8 + i) := ⟨by omega, by omega⟩
        have hbin : InBlock b (b.addr + 8 + i) := ⟨by omega, by omega⟩
        rw [hchange₃.user c hcused (fun heq => hbcne (Option.some.inj heq)) _ hcin, hcopy i hi,
          hchange.user b hb (by simp) _ hbin]
    · rw [hmalloc]
      refine Or.inr ⟨hmove.1, hnone.resolve_left hsize.ne_zero, if_neg (not_not.mpr rfl)⟩
  · rw [if_neg hmove]
    dsimp only
    by_cases hbig : b.size < n
    · rw [if_pos hbig]
      have hfree' : free = true := by
        rcases Bool.eq_false_or_eq_true free with h | h
        · exact h
        · exact absurd ⟨hbig, Or.inl h⟩ hmove
      obtain ⟨c, r', rfl, hc, rfl⟩ := hcase hfree'
      have hsum : n ≤ b.size + 4 + c.size := by
        by_contra hgt
        exact hmove ⟨hbig, Or.inr (by omega)⟩
      have hassoc : l ++ [b] ++ c :: r' = l ++ [b, c] ++ r' := by simp
      have hrep' := hrep
      rw [hassoc] at hrep'
      obtain ⟨m, F', hm, hrep'', huser⟩ := hrep'.expand hused hc
      rw [hm]
      have hr' : Coalesced r' :=
        (coalesced_append.mp (show Coalesced ([c] ++ r') from hr)).2.1
      obtain ⟨d, r'', m', htrim, hheap, haddr, hdused, hnd, -, husedr, huser'⟩ :=
        hrep''.trimUsed hused hl hr' hmod h12 hsum
      have htrim : blockTrimUsed m (BitVec.ofNat 32 p.ctl) (BitVec.ofNat 32 b.addr)
          (BitVec.ofNat 32 n) = m' := htrim
      rw [htrim]
      have haddr : d.addr = b.addr := haddr
      obtain ⟨F'', hrep₃⟩ := hheap.rep
      obtain ⟨hdmod, -, -, hdnle⟩ := hrep₃.layout.bounds'
      refine Or.inl ⟨d, l ++ [d] ++ r'', m', by rw [haddr], hnd, Change.of_lists hrep.layout hheap
        rfl (husedr.trans (used_cons_free hc r').symm) (used_cons_used hused [])
        (used_cons_used hdused []) (fun x hx => ⟨b, by simp, ?_⟩) ?_, ?_⟩
      · obtain rfl := Option.mem_some_iff.mp hx
        exact haddr.symm
      · refine (huser.mono fun x hx hxfree => ?_).trans (huser'.mono fun x hx hxfree => ?_)
        all_goals
          have hxc : x ≠ c := by
            rintro rfl
            rw [hc] at hxfree
            exact absurd hxfree (by decide)
          simp only [List.mem_append, List.mem_cons] at hx ⊢
          tauto
      · intro i hi
        have hdin : InBlock d (d.addr + 8 + i) := by
          constructor
          · omega
          · unfold Block.next
            omega
        have hbin : InBlock b (b.addr + 8 + i) := by
          constructor
          · omega
          · unfold Block.next
            omega
        rw [huser'.byte (b := d) (by simp) hdused hdmod hdnle hdin, haddr,
          huser.byte (b := b) (by simp) hused hamod hnle hbin]
    · rw [if_neg hbig]
      obtain ⟨d, r'', m', htrim, hheap, haddr, hdused, hnd, hdb, husedr, huser⟩ :=
        hrep.trimUsed hused hl hr hmod h12 (Nat.not_lt.mp hbig)
      rw [htrim]
      obtain ⟨F'', hrep₃⟩ := hheap.rep
      obtain ⟨hdmod, -, -, hdnle⟩ := hrep₃.layout.bounds'
      refine Or.inl ⟨d, l ++ [d] ++ r'', m', by rw [haddr], hnd, Change.of_lists hrep.layout hheap
        rfl husedr (used_cons_used hused []) (used_cons_used hdused [])
        (fun x hx => ⟨b, by simp, ?_⟩) (huser.mono fun x hx _ => ?_), ?_⟩
      · obtain rfl := Option.mem_some_iff.mp hx
        exact haddr.symm
      · simp only [List.mem_append] at hx ⊢
        tauto
      · intro i hi
        have hdin : InBlock d (d.addr + 8 + i) := by
          constructor
          · omega
          · unfold Block.next
            omega
        rw [huser.byte (b := d) (by simp) hdused hdmod hdnle hdin, haddr]

end Calls

end Filestick.Tlsf
