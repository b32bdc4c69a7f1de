import Filestick.Lib.LinkedList
import Filestick.Lib.Tiling
import Filestick.System.Equiv.TlsfMapping
import Filestick.System.Equiv.TlsfWords

/-!
# What the heap stands for

The memory of a pool is a row of blocks, some of them free, and the free ones are in lists.  `Block`
and the lists are what the headers, the links and the bitmaps of the memory stand for:

* `Layout`: the blocks tile the pool.
* `Headers`: the memory has their headers.
* `Index`: the memory has the lists, with the bitmaps.
* `Listed`: the lists have the free blocks, except for those that an operation has in its hands.
* `Rep`: all of them.
-/

namespace Filestick.Tlsf

open Elf (Mem)
open LinkedList (Linked)
open Tiling (Tiles)

/-! ### Blocks -/

/-- A block: the place of its header, the size of what follows it, and whether it is free. -/
@[ext] structure Block where
  addr : ℕ
  size : ℕ
  free : Bool
  size_mod : size % 4 = 0
  le_size : 12 ≤ size

/-- The place of the header behind a block. -/
def Block.next (b : Block) : ℕ := b.addr + 4 + b.size

/-- The same block, free or not. -/
def Block.mark (b : Block) (free : Bool) : Block := { b with free }

/-- A pool: the structure `control_t`, and the block of size 0 at the end. -/
structure Pool where
  ctl : ℕ
  last : ℕ
  ctl_mod : ctl % 4 = 0
  ctl_lt : ctl + 3200 ≤ last
  last_le : last + 8 ≤ 2 ^ 32
  last_lt : last < ctl + 3188 + 2 ^ 30

/-- The place of the first header.  Its first word is still in `control_t`. -/
def Pool.first (p : Pool) : ℕ := p.ctl + 3184

/-- The blocks tile the pool. -/
abbrev Layout (p : Pool) (bs : List Block) : Prop := Tiles Block.addr Block.next p.first p.last bs

section Layouts

variable {p : Pool} {bs : List Block} {b c : Block}

theorem Block.addr_lt_next (b : Block) : b.addr + 16 ≤ b.next := by
  have := b.le_size
  unfold Block.next
  omega

theorem tiles_mod {lo hi : ℕ} (h : Tiles Block.addr Block.next lo hi bs) (hlo : lo % 4 = 0)
    (hb : b ∈ bs) : b.addr % 4 = 0 := by
  induction bs generalizing lo with
  | nil => exact absurd hb List.not_mem_nil
  | cons c bs ih =>
    obtain ⟨rfl, -, hbs⟩ := h
    rcases List.mem_cons.mp hb with rfl | hb
    · exact hlo
    · have := c.size_mod
      exact ih hbs (by unfold Block.next; omega) hb

/-- Where a block is. -/
theorem Layout.bounds (h : Layout p bs) (hb : b ∈ bs) :
    b.addr % 4 = 0 ∧ p.first ≤ b.addr ∧ b.addr + 16 ≤ b.next ∧ b.next ≤ p.last ∧
      b.next % 4 = 0 := by
  obtain ⟨hlo, -, hhi⟩ := h.mem_bounds hb
  have hfirst : p.first % 4 = 0 := by
    have := p.ctl_mod
    unfold Pool.first
    omega
  have hmod := tiles_mod h hfirst hb
  have hsize := b.size_mod
  refine ⟨hmod, hlo, b.addr_lt_next, hhi, ?_⟩
  unfold Block.next
  omega

/-- The end of a tiling is as aligned as its beginning. -/
theorem tiles_end_mod {lo hi : ℕ} (h : Tiles Block.addr Block.next lo hi bs) (hlo : lo % 4 = 0) :
    hi % 4 = 0 := by
  induction bs generalizing lo with
  | nil =>
    have heq : lo = hi := h
    omega
  | cons b bs ih =>
    obtain ⟨rfl, -, hbs⟩ := h
    have := b.size_mod
    exact ih hbs (by unfold Block.next; omega)

theorem Layout.last_mod (h : Layout p bs) : p.last % 4 = 0 := by
  have := p.ctl_mod
  exact tiles_end_mod h (by unfold Pool.first; omega)

/-- Two blocks do not overlap. -/
theorem Layout.far (h : Layout p bs) (hb : b ∈ bs) (hc : c ∈ bs) (hne : b ≠ c) :
    b.next ≤ c.addr ∨ c.next ≤ b.addr :=
  (h.trichotomy hb hc).resolve_left hne

theorem Layout.eq_of_addr (h : Layout p bs) (hb : b ∈ bs) (hc : c ∈ bs) (heq : b.addr = c.addr) :
    b = c :=
  h.eq_of_start hb hc heq

end Layouts

/-! ### Headers -/

/-- The memory has the headers of the blocks. -/
structure Headers (p : Pool) (mem : Mem) (bs : List Block) : Prop where
  size : ∀ b ∈ bs, sizeOf (word mem (b.addr + 4)) = b.size
  free : ∀ b ∈ bs, isFree (word mem (b.addr + 4)) = b.free
  prevFree : ∀ b ∈ bs, isPrevFree (word mem (b.next + 4)) = b.free
  prevPhys : ∀ b ∈ bs, b.free = true → word mem b.next = BitVec.ofNat 32 b.addr
  first : isPrevFree (word mem (p.first + 4)) = false
  lastSize : sizeOf (word mem (p.last + 4)) = 0
  lastUsed : isFree (word mem (p.last + 4)) = false

/-- Only the headers count. -/
theorem Headers.congr {p : Pool} {mem mem' : Mem} {bs : List Block} (h : Headers p mem bs)
    (hsize : ∀ b ∈ bs, word mem' (b.addr + 4) = word mem (b.addr + 4))
    (hnext : ∀ b ∈ bs, word mem' (b.next + 4) = word mem (b.next + 4))
    (hphys : ∀ b ∈ bs, b.free = true → word mem' b.next = word mem b.next)
    (hfirst : word mem' (p.first + 4) = word mem (p.first + 4))
    (hlast : word mem' (p.last + 4) = word mem (p.last + 4)) : Headers p mem' bs where
  size b hb := by rw [hsize b hb, h.size b hb]
  free b hb := by rw [hsize b hb, h.free b hb]
  prevFree b hb := by rw [hnext b hb, h.prevFree b hb]
  prevPhys b hb hfree := by rw [hphys b hb hfree, h.prevPhys b hb hfree]
  first := by rw [hfirst, h.first]
  lastSize := by rw [hlast, h.lastSize]
  lastUsed := by rw [hlast, h.lastUsed]

/-! ### Lists -/

/-- The field `next_free`. -/
def nextAt (mem : Mem) (a : ℕ) : ℕ := (word mem (a + 8)).toNat

/-- The field `prev_free`. -/
def prevAt (mem : Mem) (a : ℕ) : ℕ := (word mem (a + 12)).toNat

/-- The lists of free blocks, by the places of their headers. -/
abbrev Lists := ℕ → List ℕ

/-- Nodes of the lists: they are in the pool, and apart from each other. -/
structure Nodes (p : Pool) (F : Lists) : Prop where
  mod : ∀ k, ∀ a ∈ F k, a % 4 = 0
  first_le : ∀ k, ∀ a ∈ F k, p.first ≤ a
  le : ∀ k, ∀ a ∈ F k, a + 16 ≤ 2 ^ 32
  far : ∀ k, ∀ a ∈ F k, ∀ k', ∀ b ∈ F k', a = b ∨ a + 16 ≤ b ∨ b + 16 ≤ a
  nodup : ∀ k, (F k).Nodup
  unique : ∀ k, ∀ a ∈ F k, ∀ k', a ∈ F k' → k = k'

/-- The memory has the lists, with the bitmaps. -/
structure Index (p : Pool) (mem : Mem) (F : Lists) : Prop where
  head : ∀ k < 768, word mem (p.ctl + (116 + 4 * k)) = BitVec.ofNat 32 ((F k).headD p.ctl)
  linked : ∀ k, Linked (nextAt mem) (prevAt mem) p.ctl p.ctl (F k)
  slBit : ∀ fl < 24, ∀ sl < 32,
    (word mem (p.ctl + (20 + 4 * fl))).getLsbD sl = !(F (32 * fl + sl)).isEmpty
  flBit : ∀ fl, (word mem (p.ctl + 16)).getLsbD fl =
    decide (fl < 24 ∧ word mem (p.ctl + (20 + 4 * fl)) ≠ 0#32)

/-- A place that is neither in `control_t` nor a link of a node. -/
def OffIndex (p : Pool) (F : Lists) (x : ℕ) : Prop :=
  (x < p.ctl ∨ p.first + 4 ≤ x) ∧ ∀ k, ∀ a ∈ F k, x ≠ a + 8 ∧ x ≠ a + 12

/-- The memory is the same off the lists. -/
def SameOff (p : Pool) (F : Lists) (mem mem' : Mem) : Prop :=
  ∀ x, x % 4 = 0 → x < 2 ^ 32 → OffIndex p F x → word mem' x = word mem x

/-- Only `control_t` and the links count. -/
theorem Index.congr {p : Pool} {mem mem' : Mem} {F : Lists} (h : Index p mem F)
    (hctl : ∀ x, x % 4 = 0 → p.ctl ≤ x → x < p.first + 4 → word mem' x = word mem x)
    (hlinks : ∀ k, ∀ a ∈ F k,
      word mem' (a + 8) = word mem (a + 8) ∧ word mem' (a + 12) = word mem (a + 12)) :
    Index p mem' F := by
  have hmod := p.ctl_mod
  have hplace (j : ℕ) (hj : j < 797) :
      word mem' (p.ctl + 4 * j) = word mem (p.ctl + 4 * j) := by
    apply hctl
    · omega
    · omega
    · unfold Pool.first
      omega
  constructor
  · intro k hk
    rw [← h.head k hk]
    have := hplace (29 + k) (by omega)
    rwa [show 4 * (29 + k) = 116 + 4 * k by ring] at this
  · intro k
    apply (h.linked k).congr
    · intro a ha
      rw [nextAt, (hlinks k a ha).1, ← nextAt]
    · intro a ha
      rw [prevAt, (hlinks k a ha).2, ← prevAt]
  · intro fl hfl sl hsl
    rw [← h.slBit fl hfl sl hsl]
    have := hplace (5 + fl) (by omega)
    rw [show 4 * (5 + fl) = 20 + 4 * fl by ring] at this
    rw [this]
  · intro fl
    rw [show p.ctl + 16 = p.ctl + 4 * 4 by ring, hplace 4 (by omega)]
    refine (h.flBit fl).trans ?_
    by_cases hfl : fl < 24
    · have := hplace (5 + fl) (by omega)
      rw [show 4 * (5 + fl) = 20 + 4 * fl by ring] at this
      rw [this]
    · simp [hfl]

/-- The lists have the free blocks, each in the list of its size, except for those in `X`. -/
structure Listed (bs : List Block) (F : Lists) (X : List ℕ) : Prop where
  mem_iff : ∀ k a, a ∈ F k ↔
    ∃ b ∈ bs, b.free = true ∧ b.addr = a ∧ sizeClass b.size = k ∧ a ∉ X
  nodup : ∀ k, (F k).Nodup

/-- **What the memory of a pool stands for.** -/
structure Rep (p : Pool) (mem : Mem) (bs : List Block) (F : Lists) (X : List ℕ) : Prop where
  layout : Layout p bs
  headers : Headers p mem bs
  index : Index p mem F
  listed : Listed bs F X

/-- The nodes of the lists are blocks. -/
theorem Listed.nodes {p : Pool} {bs : List Block} {F : Lists} {X : List ℕ} (h : Listed bs F X)
    (hbs : Layout p bs) : Nodes p F := by
  have hlast := p.last_le
  constructor
  · intro k a ha
    obtain ⟨b, hb, -, rfl, -⟩ := (h.mem_iff k a).mp ha
    exact (hbs.bounds hb).1
  · intro k a ha
    obtain ⟨b, hb, -, rfl, -⟩ := (h.mem_iff k a).mp ha
    exact (hbs.bounds hb).2.1
  · intro k a ha
    obtain ⟨b, hb, -, rfl, -⟩ := (h.mem_iff k a).mp ha
    obtain ⟨-, -, hnext, hle, -⟩ := hbs.bounds hb
    omega
  · intro k a ha k' a' ha'
    obtain ⟨b, hb, -, rfl, -⟩ := (h.mem_iff k a).mp ha
    obtain ⟨c, hc, -, rfl, -⟩ := (h.mem_iff k' a').mp ha'
    have hbn := b.addr_lt_next
    have hcn := c.addr_lt_next
    rcases hbs.trichotomy hb hc with rfl | hle | hle
    · exact Or.inl rfl
    · omega
    · omega
  · exact h.nodup
  · intro k a ha k' ha'
    obtain ⟨b, hb, -, rfl, rfl, -⟩ := (h.mem_iff k a).mp ha
    obtain ⟨c, hc, -, heq, rfl, -⟩ := (h.mem_iff k' b.addr).mp ha'
    rw [hbs.eq_of_addr hc hb heq]

end Filestick.Tlsf
