import Mathlib.Data.BitVec
import Mathlib.Data.Set.Lattice
import Mathlib.Logic.Function.Basic
import Mathlib.Order.CompletePartialOrder
import Mathlib.Order.Interval.Set.Defs

/-!
# Circular memories

A memory of `2^w` cells whose addresses wrap around is a function of a `w`-bit address.
`Holds mem start xs` says that the cells from `start` on hold the list `xs`, and
`Filled mem start xs ptr` also that `ptr` points just behind it, which is how a writer that only
moves forward leaves it.

* `Filled.push`: writing at the pointer appends to the list.
* `Holds.of_write_outside`: a write behind the list does not change it.
* `slice`: the list of the cells from an address on.
* `Tracked`: the writer has moved on by a known number of cells since the start of the list, and has
  not yet come round to all of it.
* `between`: the list between the pointer of a reader and the pointer of a writer.
* `writeAll`: the memory after a list has been written at the pointer.
* `writeBlocks`: the memory after several lists have been written, each at its own address;
  `holds_writeBlocks` for lists that are apart.
-/

namespace Filestick.Ring

variable {w : ℕ} {α : Type*}

/-- The cells from `start` on hold `xs`. -/
def Holds (mem : BitVec w → α) (start : BitVec w) (xs : List α) : Prop :=
  ∀ k (h : k < xs.length), mem (start + BitVec.ofNat w k) = xs[k]

instance [DecidableEq α] (mem : BitVec w → α) (start : BitVec w) (xs : List α) :
    Decidable (Holds mem start xs) :=
  inferInstanceAs (Decidable (∀ k (h : k < xs.length), mem (start + BitVec.ofNat w k) = xs[k]))

/-- The `n` cells from `start` on. -/
def slice (mem : BitVec w → α) (start : BitVec w) (n : ℕ) : List α :=
  (List.range n).map fun k => mem (start + BitVec.ofNat w k)

/-- The cells from `start` on hold `xs` (as long as it fits) and `ptr` points behind it. -/
structure Filled (mem : BitVec w → α) (start : BitVec w) (xs : List α) (ptr : BitVec w) : Prop where
  ptr : ptr = start + BitVec.ofNat w xs.length
  holds : xs.length ≤ 2 ^ w → Holds mem start xs

theorem add_ofNat_inj {start : BitVec w} {i j : ℕ} (hi : i < 2 ^ w) (hj : j < 2 ^ w)
    (h : start + BitVec.ofNat w i = start + BitVec.ofNat w j) : i = j := by
  have h' := congrArg BitVec.toNat (BitVec.add_right_inj start |>.mp h)
  rwa [BitVec.toNat_ofNat, BitVec.toNat_ofNat, Nat.mod_eq_of_lt hi, Nat.mod_eq_of_lt hj] at h'

@[simp] theorem length_slice (mem : BitVec w → α) (start : BitVec w) (n : ℕ) :
    (slice mem start n).length = n := by simp [slice]

theorem slice_add (mem : BitVec w → α) (start : BitVec w) (m n : ℕ) :
    slice mem start (m + n) = slice mem start m ++ slice mem (start + BitVec.ofNat w m) n := by
  rw [slice, List.range_add, List.map_append, List.map_map, slice, slice]
  congr 2
  funext k
  rw [Function.comp_apply, BitVec.add_assoc, BitVec.ofNat_add]

theorem take_slice (mem : BitVec w → α) (start : BitVec w) (m n : ℕ) :
    (slice mem start n).take m = slice mem start (min m n) := by
  rw [slice, ← List.map_take, List.take_range, slice]

theorem drop_slice (mem : BitVec w → α) (start : BitVec w) {k n : ℕ} (hk : k ≤ n) :
    (slice mem start n).drop k = slice mem (start + BitVec.ofNat w k) (n - k) := by
  have hsplit := slice_add mem start k (n - k)
  rw [Nat.add_sub_cancel' hk] at hsplit
  rw [hsplit, List.drop_left' (length_slice _ _ _)]

theorem Holds.slice_eq {mem : BitVec w → α} {start : BitVec w} {xs : List α}
    (h : Holds mem start xs) : slice mem start xs.length = xs := by
  apply List.ext_getElem (by simp)
  intro k _ hk
  simp [slice, h k hk]

/-- A part of the list. -/
theorem Holds.slice_drop {mem : BitVec w → α} {start : BitVec w} {xs : List α}
    (h : Holds mem start xs) {k c : ℕ} (hk : k + c ≤ xs.length) :
    slice mem (start + BitVec.ofNat w k) c = (xs.drop k).take c := by
  apply List.ext_getElem
  · simp
    omega
  · intro j hj _
    rw [length_slice] at hj
    simp only [slice, List.getElem_map, List.getElem_range, List.getElem_take, List.getElem_drop]
    rw [BitVec.add_assoc, ← BitVec.ofNat_add, h (k + j) (by omega)]

theorem holds_nil (mem : BitVec w → α) (start : BitVec w) : Holds mem start [] :=
  fun _ h => absurd h (Nat.not_lt_zero _)

theorem holds_append {mem : BitVec w → α} {start : BitVec w} {xs ys : List α} :
    Holds mem start (xs ++ ys) ↔
      Holds mem start xs ∧ Holds mem (start + BitVec.ofNat w xs.length) ys := by
  constructor
  · intro h
    constructor
    · intro k hk
      rw [h k (by rw [List.length_append]; omega), List.getElem_append_left hk]
    · intro k hk
      rw [BitVec.add_assoc, ← BitVec.ofNat_add,
        h (xs.length + k) (by rw [List.length_append]; omega),
        List.getElem_append_right (Nat.le_add_right _ _)]
      simp only [Nat.add_sub_cancel_left]
  · rintro ⟨hxs, hys⟩ k hk
    rw [List.length_append] at hk
    rcases Nat.lt_or_ge k xs.length with hlt | hge
    · rw [List.getElem_append_left hlt]
      exact hxs k hlt
    · have hcell := hys (k - xs.length) (by omega)
      rw [BitVec.add_assoc, ← BitVec.ofNat_add, Nat.add_sub_cancel' hge] at hcell
      rw [List.getElem_append_right hge]
      exact hcell

theorem holds_cons {mem : BitVec w → α} {start : BitVec w} {x : α} {xs : List α} :
    Holds mem start (x :: xs) ↔ mem start = x ∧ Holds mem (start + BitVec.ofNat w 1) xs := by
  have happend : Holds mem start ([x] ++ xs) ↔ Holds mem start [x] ∧
      Holds mem (start + BitVec.ofNat w 1) xs := holds_append
  rw [List.singleton_append] at happend
  rw [happend, and_congr_left_iff]
  intro _
  constructor
  · intro h
    simpa using h 0 (by simp)
  · rintro rfl k hk
    obtain rfl : k = 0 := by simpa using hk
    simp

/-- Memories that agree on the cells of a list. -/
theorem Holds.congr {mem mem' : BitVec w → α} {start : BitVec w} {xs : List α}
    (h : Holds mem start xs)
    (hmem : ∀ k, k < xs.length → mem' (start + BitVec.ofNat w k) = mem (start + BitVec.ofNat w k)) :
    Holds mem' start xs :=
  fun k hk => (hmem k hk).trans (h k hk)

/-- The number of a cell of a list that does not wrap around. -/
theorem toNat_add_ofNat {start : BitVec w} {k : ℕ} (h : start.toNat + k < 2 ^ w) :
    (start + BitVec.ofNat w k).toNat = start.toNat + k := by
  rw [BitVec.toNat_add, BitVec.toNat_ofNat, Nat.mod_eq_of_lt (a := k) (by omega),
    Nat.mod_eq_of_lt h]

/-- How far a cell of a list is behind its start, also where the list wraps around. -/
theorem toNat_add_ofNat_sub (start : BitVec w) {k : ℕ} (h : k < 2 ^ w) :
    (start + BitVec.ofNat w k - start).toNat = k := by
  rw [BitVec.add_comm, BitVec.add_sub_cancel, BitVec.toNat_ofNat, Nat.mod_eq_of_lt h]

/-- A write at the cell `n` behind `start` changes no cell of a list that ends before it. -/
theorem Holds.of_write_outside [DecidableEq (BitVec w)] {mem : BitVec w → α} {start : BitVec w}
    {xs : List α} (h : Holds mem start xs) {n : ℕ} (hn : n < 2 ^ w) (hxs : xs.length ≤ n) (x : α) :
    Holds (Function.update mem (start + BitVec.ofNat w n) x) start xs := by
  intro k hk
  rw [Function.update_of_ne, h k hk]
  intro heq
  have := add_ofNat_inj (by omega) hn heq
  omega

theorem filled_nil (mem : BitVec w → α) (ptr : BitVec w) : Filled mem ptr [] ptr where
  ptr := by simp
  holds _ := holds_nil mem ptr

/-- **Writing at the pointer and moving it on appends to the list.** -/
theorem Filled.push [DecidableEq (BitVec w)] {mem : BitVec w → α} {start ptr : BitVec w}
    {xs : List α} (h : Filled mem start xs ptr) (x : α) :
    Filled (Function.update mem ptr x) start (xs ++ [x]) (ptr + 1) where
  ptr := by
    rw [h.ptr, BitVec.add_assoc, List.length_append, List.length_singleton, BitVec.ofNat_add]
    rfl
  holds hlen := by
    rw [List.length_append, List.length_singleton] at hlen
    have hold := h.holds (by omega)
    intro k hk
    rcases Nat.lt_or_ge k xs.length with hlt | hge
    · rw [List.getElem_append_left hlt, h.ptr]
      exact hold.of_write_outside (by omega) le_rfl x k hlt
    · obtain rfl : k = xs.length := by simp at hk; omega
      simp [h.ptr]

/-! ### Lists that the writer leaves behind -/

/-- The writer has stored `n` cells since the start of the list; a cell of the list is there until
the writer has come round to it. -/
structure Tracked (mem : BitVec w → α) (start : BitVec w) (xs : List α) (n : ℕ) (ptr : BitVec w) :
    Prop where
  ptr : ptr = start + BitVec.ofNat w n
  le : xs.length ≤ n
  cell : ∀ k (h : k < xs.length), n ≤ 2 ^ w + k → mem (start + BitVec.ofNat w k) = xs[k]

theorem Holds.tracked {mem : BitVec w → α} {start ptr : BitVec w} {xs : List α} {n : ℕ}
    (h : Holds mem start xs) (hptr : ptr = start + BitVec.ofNat w n) (hn : xs.length ≤ n) :
    Tracked mem start xs n ptr :=
  ⟨hptr, hn, fun k hk _ => h k hk⟩

/-- The writer stores a cell. -/
theorem Tracked.push [DecidableEq (BitVec w)] {mem : BitVec w → α} {start ptr : BitVec w}
    {xs : List α} {n : ℕ} (h : Tracked mem start xs n ptr) (x : α) :
    Tracked (Function.update mem ptr x) start xs (n + 1) (ptr + 1) where
  ptr := by
    rw [h.ptr, BitVec.add_assoc, BitVec.ofNat_add]
    rfl
  le := h.le.trans (Nat.le_succ n)
  cell k hk hn := by
    have hle := h.le
    rw [Function.update_of_ne, h.cell k hk (by omega)]
    rw [h.ptr]
    intro heq
    -- the cell `n` is less than one round behind the cell `k`
    have hmod := congrArg BitVec.toNat ((BitVec.add_right_inj start).mp heq)
    rw [BitVec.toNat_ofNat, BitVec.toNat_ofNat] at hmod
    have hdiv : 2 ^ w ∣ n - k := (Nat.modEq_iff_dvd' (by omega)).mp hmod
    have := Nat.le_of_dvd (by omega) hdiv
    omega

/-- The part of the list from the cell `k` on. -/
theorem Tracked.drop {mem : BitVec w → α} {start ptr : BitVec w} {xs : List α} {n : ℕ}
    (h : Tracked mem start xs n ptr) {k : ℕ} (hk : k ≤ xs.length) :
    Tracked mem (start + BitVec.ofNat w k) (xs.drop k) (n - k) ptr where
  ptr := by
    have := h.le
    rw [h.ptr, BitVec.add_assoc, ← BitVec.ofNat_add]
    congr 2
    omega
  le := by
    have := h.le
    rw [List.length_drop]
    omega
  cell j hj hn := by
    have := h.le
    rw [List.length_drop] at hj
    rw [BitVec.add_assoc, ← BitVec.ofNat_add, h.cell (k + j) (by omega) (by omega),
      List.getElem_drop]

/-- The first `k` cells of the list. -/
theorem Tracked.take {mem : BitVec w → α} {start ptr : BitVec w} {xs : List α} {n : ℕ}
    (h : Tracked mem start xs n ptr) (k : ℕ) : Tracked mem start (xs.take k) n ptr where
  ptr := h.ptr
  le := by
    have := h.le
    rw [List.length_take]
    omega
  cell j hj hn := by
    rw [List.length_take] at hj
    rw [h.cell j (by omega) hn, List.getElem_take]

/-- The cells of the list, while the writer has not come round to its start. -/
theorem Tracked.slice_eq {mem : BitVec w → α} {start ptr : BitVec w} {xs : List α} {n : ℕ}
    (h : Tracked mem start xs n ptr) (hn : n ≤ 2 ^ w) {k c : ℕ} (hk : k + c ≤ xs.length) :
    slice mem (start + BitVec.ofNat w k) c = (xs.drop k).take c := by
  have hholds : Holds mem start xs := fun i hi => h.cell i hi (by omega)
  exact hholds.slice_drop hk

/-! ### The list between two pointers -/

/-- The cells from `start` to the one before `ptr`. -/
def between (mem : BitVec w → α) (start ptr : BitVec w) : List α :=
  slice mem start (ptr - start).toNat

@[simp] theorem length_between (mem : BitVec w → α) (start ptr : BitVec w) :
    (between mem start ptr).length = (ptr - start).toNat := length_slice mem start _

theorem between_self (mem : BitVec w → α) (ptr : BitVec w) : between mem ptr ptr = [] := by
  rw [between, BitVec.sub_self]
  rfl

theorem start_add_sub (start ptr : BitVec w) :
    start + BitVec.ofNat w (ptr - start).toNat = ptr := by
  rw [BitVec.ofNat_toNat, BitVec.setWidth_eq, BitVec.add_comm, BitVec.sub_add_cancel]

/-- The cell of the pointer is not one of the list. -/
theorem ptr_ne_of_lt {start ptr : BitVec w} {k : ℕ} (hk : k < (ptr - start).toNat) :
    ptr ≠ start + BitVec.ofNat w k := by
  have hlt := (ptr - start).isLt
  intro heq
  rw [← start_add_sub start ptr] at heq
  have := add_ofNat_inj hlt (by omega) heq
  omega

/-- **The writer stores a cell**, when this does not bring it round to the reader. -/
theorem between_push [DecidableEq (BitVec w)] (mem : BitVec w → α) {start ptr : BitVec w}
    (hroom : (ptr - start).toNat + 1 < 2 ^ w) (x : α) :
    between (Function.update mem ptr x) start (ptr + 1) = between mem start ptr ++ [x] := by
  have hlen : (ptr + 1 - start).toNat = (ptr - start).toNat + 1 := by
    have hone : ptr + 1 - start = (ptr - start) + BitVec.ofNat w 1 := by
      rw [BitVec.sub_eq_add_neg, BitVec.sub_eq_add_neg, BitVec.add_assoc, BitVec.add_comm 1,
        ← BitVec.add_assoc]
      rfl
    rw [hone, BitVec.toNat_add, BitVec.toNat_ofNat, Nat.mod_eq_of_lt (a := 1) (by omega),
      Nat.mod_eq_of_lt hroom]
  rw [between, hlen, slice_add, start_add_sub, between]
  congr 1
  · apply List.map_congr_left
    intro k hk
    exact Function.update_of_ne (ptr_ne_of_lt (List.mem_range.mp hk)).symm x mem
  · simp [slice]

/-- **The reader takes a cell.** -/
theorem between_pop (mem : BitVec w → α) {start ptr : BitVec w} (hne : ptr ≠ start) :
    between mem start ptr = mem start :: between mem (start + 1) ptr := by
  have hpos : 0 < (ptr - start).toNat := by
    apply Nat.pos_of_ne_zero
    intro h0
    apply hne
    rw [← start_add_sub start ptr, h0, BitVec.add_zero]
  have hlen : (ptr - start).toNat = 1 + (ptr - (start + 1)).toNat := by
    have hone : ptr - (start + 1) = ptr - start - BitVec.ofNat w 1 := by
      rw [BitVec.sub_sub]
      rfl
    have hlt := (ptr - start).isLt
    generalize ptr - start = d at hone hlt hpos ⊢
    rw [hone, BitVec.toNat_sub, BitVec.toNat_ofNat, Nat.mod_eq_of_lt (a := 1) (by omega),
      show 2 ^ w - 1 + d.toNat = d.toNat - 1 + 2 ^ w by omega, Nat.add_mod_right,
      Nat.mod_eq_of_lt (by omega)]
    omega
  rw [between, hlen, slice_add, between]
  simp [slice]

/-! ### Several writes at the pointer -/

/-- The memory after `xs` has been written from `ptr` on, one cell after the other. -/
def writeAll [DecidableEq (BitVec w)] (mem : BitVec w → α) (ptr : BitVec w) :
    List α → BitVec w → α
  | [] => mem
  | x :: xs => writeAll (Function.update mem ptr x) (ptr + 1) xs

theorem writeAll_append [DecidableEq (BitVec w)] (mem : BitVec w → α) (ptr : BitVec w)
    (xs ys : List α) :
    writeAll mem ptr (xs ++ ys) =
      writeAll (writeAll mem ptr xs) (ptr + BitVec.ofNat w xs.length) ys := by
  induction xs generalizing mem ptr with
  | nil => simp [writeAll]
  | cons x xs ih =>
    rw [List.cons_append, writeAll, ih, writeAll, List.length_cons, Nat.add_comm xs.length,
      BitVec.ofNat_add, ← BitVec.add_assoc]
    rfl

/-- Cells that are written with what they hold. -/
theorem writeAll_self [DecidableEq (BitVec w)] (mem : BitVec w → α) (ptr : BitVec w) (n : ℕ) :
    writeAll mem ptr (slice mem ptr n) = mem := by
  induction n with
  | zero => rfl
  | succ n ih =>
    rw [slice_add, writeAll_append, ih, length_slice]
    simp [slice, writeAll]

/-- What a cell holds after the writes: the cell `k` behind the pointer holds the element `k`. -/
theorem writeAll_apply [DecidableEq (BitVec w)] (mem : BitVec w → α) (ptr a : BitVec w)
    {xs : List α} (hxs : xs.length ≤ 2 ^ w) :
    writeAll mem ptr xs a = (xs[(a - ptr).toNat]?).getD (mem a) := by
  induction xs using List.reverseRecOn with
  | nil => rfl
  | append_singleton xs x ih =>
    rw [List.length_append, List.length_singleton] at hxs
    rw [writeAll_append, writeAll, writeAll]
    by_cases ha : a = ptr + BitVec.ofNat w xs.length
    · have hk : (a - ptr).toNat = xs.length := by
        rw [ha, toNat_add_ofNat_sub ptr (by omega)]
      rw [hk, List.getElem?_concat_length, ha, Function.update_self]
      rfl
    · have hk : (a - ptr).toNat ≠ xs.length := by
        intro hk
        apply ha
        rw [← hk, start_add_sub]
      rw [Function.update_of_ne ha, ih (by omega)]
      rcases Nat.lt_or_gt_of_ne hk with hlt | hgt
      · rw [List.getElem?_append_left hlt]
      · have hlen : (xs ++ [x]).length = xs.length + 1 := List.length_append
        rw [List.getElem?_eq_none (by omega), List.getElem?_eq_none (by omega)]

/-- A cell that is not written. -/
theorem writeAll_outside [DecidableEq (BitVec w)] (mem : BitVec w → α) {ptr a : BitVec w}
    {xs : List α} (hxs : xs.length ≤ 2 ^ w) (ha : xs.length ≤ (a - ptr).toNat) :
    writeAll mem ptr xs a = mem a := by
  rw [writeAll_apply mem ptr a hxs, List.getElem?_eq_none ha]
  rfl

/-- The cells that are written hold the list. -/
theorem holds_writeAll [DecidableEq (BitVec w)] (mem : BitVec w → α) (ptr : BitVec w) {xs : List α}
    (hxs : xs.length ≤ 2 ^ w) : Holds (writeAll mem ptr xs) ptr xs := by
  intro k hk
  rw [writeAll_apply mem ptr _ hxs, toNat_add_ofNat_sub ptr (by omega),
    List.getElem?_eq_getElem hk]
  rfl

/-- A cell of a region that is filled with one value. -/
theorem writeAll_replicate [DecidableEq (BitVec w)] (mem : BitVec w → α) (ptr : BitVec w) (x : α)
    {n k : ℕ} (hn : n ≤ 2 ^ w) (hk : k < n) :
    writeAll mem ptr (List.replicate n x) (ptr + BitVec.ofNat w k) = x := by
  have hlen : (List.replicate n x).length = n := List.length_replicate
  rw [holds_writeAll mem ptr (by omega) k (by omega), List.getElem_replicate]

/-- **Writing a list at the pointer appends it.** -/
theorem Filled.append [DecidableEq (BitVec w)] {mem : BitVec w → α} {start ptr : BitVec w}
    {xs : List α} (h : Filled mem start xs ptr) (ys : List α) :
    Filled (writeAll mem ptr ys) start (xs ++ ys) (ptr + BitVec.ofNat w ys.length) := by
  induction ys generalizing mem ptr xs with
  | nil => simpa [writeAll] using h
  | cons y ys ih =>
    rw [List.append_cons, List.length_cons, Nat.add_comm ys.length, BitVec.ofNat_add,
      ← BitVec.add_assoc]
    exact ih (h.push y)

/-- The writer stores several cells. -/
theorem Tracked.append [DecidableEq (BitVec w)] {mem : BitVec w → α} {start ptr : BitVec w}
    {xs : List α} {n : ℕ} (h : Tracked mem start xs n ptr) (ys : List α) :
    Tracked (writeAll mem ptr ys) start xs (n + ys.length) (ptr + BitVec.ofNat w ys.length) := by
  induction ys generalizing mem ptr n with
  | nil => simpa [writeAll] using h
  | cons y ys ih =>
    rw [List.length_cons, Nat.add_comm ys.length, BitVec.ofNat_add, ← BitVec.add_assoc,
      ← Nat.add_assoc]
    exact ih (h.push y)

/-- The writer passes over several cells. -/
theorem Tracked.skip [DecidableEq (BitVec w)] {mem : BitVec w → α} {start ptr : BitVec w}
    {xs : List α} {n : ℕ} (h : Tracked mem start xs n ptr) (k : ℕ) :
    Tracked mem start xs (n + k) (ptr + BitVec.ofNat w k) := by
  have hself := h.append (slice mem ptr k)
  rwa [writeAll_self, length_slice] at hself

/-! ### Several blocks -/

/-- The cells of a block. -/
def cells (b : BitVec w × List α) : Set (BitVec w) := {a | (a - b.1).toNat < b.2.length}

theorem mem_cells {b : BitVec w × List α} {a : BitVec w} :
    a ∈ cells b ↔ (a - b.1).toNat < b.2.length := Iff.rfl

/-- The cells of a block that does not wrap around. -/
theorem mem_cells_iff {start a : BitVec w} {xs : List α} (h : start.toNat + xs.length ≤ 2 ^ w) :
    a ∈ cells (start, xs) ↔ a.toNat ∈ Set.Ico start.toNat (start.toNat + xs.length) := by
  have ha := a.isLt
  have hs := start.isLt
  rw [mem_cells, Set.mem_Ico]
  dsimp only
  rw [BitVec.toNat_sub]
  rcases Nat.lt_or_ge a.toNat start.toNat with hlt | hge
  · rw [Nat.mod_eq_of_lt (by omega)]
    omega
  · rw [show 2 ^ w - start.toNat + a.toNat = a.toNat - start.toNat + 2 ^ w by omega,
      Nat.add_mod_right, Nat.mod_eq_of_lt (by omega)]
    omega

theorem mem_cells_add {start : BitVec w} {xs : List α} (hxs : xs.length ≤ 2 ^ w) {k : ℕ}
    (hk : k < xs.length) : start + BitVec.ofNat w k ∈ cells (start, xs) := by
  rw [mem_cells, toNat_add_ofNat_sub start (by omega)]
  exact hk

/-- The memory after the blocks have been written, one after the other. -/
def writeBlocks [DecidableEq (BitVec w)] (mem : BitVec w → α) (bs : List (BitVec w × List α)) :
    BitVec w → α :=
  bs.foldl (fun mem b => writeAll mem b.1 b.2) mem

section Blocks

variable [DecidableEq (BitVec w)] {bs : List (BitVec w × List α)}

/-- A cell of none of the blocks. -/
theorem writeBlocks_outside (mem : BitVec w → α) (hlen : ∀ b ∈ bs, b.2.length ≤ 2 ^ w)
    {a : BitVec w} (ha : ∀ b ∈ bs, a ∉ cells b) : writeBlocks mem bs a = mem a := by
  induction bs generalizing mem with
  | nil => rfl
  | cons b bs ih =>
    have hb := ha b List.mem_cons_self
    rw [mem_cells, not_lt] at hb
    rw [writeBlocks, List.foldl_cons, ← writeBlocks,
      ih _ (fun c hc => hlen c (List.mem_cons_of_mem b hc))
        (fun c hc => ha c (List.mem_cons_of_mem b hc)),
      writeAll_outside mem (hlen b List.mem_cons_self) hb]

/-- **Blocks that are apart** are all there in the end, in whatever order they are written. -/
theorem holds_writeBlocks (mem : BitVec w → α) (hlen : ∀ b ∈ bs, b.2.length ≤ 2 ^ w)
    (hapart : bs.Pairwise fun b c => Disjoint (cells b) (cells c)) :
    ∀ b ∈ bs, Holds (writeBlocks mem bs) b.1 b.2 := by
  induction bs generalizing mem with
  | nil => exact fun b hb => absurd hb List.not_mem_nil
  | cons b bs ih =>
    rw [List.pairwise_cons] at hapart
    have hlen' : ∀ c ∈ bs, c.2.length ≤ 2 ^ w := fun c hc => hlen c (List.mem_cons_of_mem b hc)
    have hb := hlen b List.mem_cons_self
    intro c hc
    rw [writeBlocks, List.foldl_cons, ← writeBlocks]
    rcases List.mem_cons.mp hc with rfl | hc
    · -- no later block covers a cell of this one
      apply (holds_writeAll mem c.1 hb).congr
      intro k hk
      apply writeBlocks_outside _ hlen'
      intro d hd hmem
      exact (hapart.1 d hd).le_bot ⟨mem_cells_add hb hk, hmem⟩
    · exact ih _ hlen' hapart.2 c hc

end Blocks

end Filestick.Ring
