import Filestick.Rtl.Equiv.Spi
import Filestick.System.Equiv.SpiExchange
import Filestick.System.SpiBlock

/-!
# What `spi_write` and `spi_read` transfer

* `Moves`: what one turn of a loop does, and that turns add up; `moveBlock_spec` says how many bytes
  the code around the loops moves.
* `moves_wrote`, `moves_stored`: the turns of the two functions.
* `moved_eq_iff`, `spi_exact_iff`: they transfer what they are asked for unless the buffer ends
  before the first word boundary in it.
* `store_shows`: the port is the engine of `spi.v`.
-/

namespace Filestick.SpiBlock

open Elf (Addr Mem)
open Filestick.Ring
open ShiftRegister (shiftIn topBits topByte shiftIn_bytes)

/-! ### The code around the loops -/

/-- Turns of the loops: `R n x y` says that `n` bytes are moved between `x` and `y`. -/
structure Moves (R : ℕ → Xfer → Xfer → Prop) (byteBody wordBody : Xfer → Xfer) : Prop where
  zero : ∀ x, R 0 x x
  trans : ∀ {m n x y z}, R m x y → R n y z → R (m + n) x z
  bitcount : ∀ {n x y v}, R n { x with port := x.port.setBitcount v } y → R n x y
  endian : ∀ {n x y v}, R n { x with port := x.port.setEndian v } y → R n x y
  byte : ∀ {x}, x.port.bytes = 1 → x.port.bigEndian = false →
    R 1 x { byteBody x with a0 := x.a0 + 1#32 }
  word : ∀ {x}, x.port.bytes = 4 → x.port.bigEndian = false →
    R 4 x { wordBody x with a0 := x.a0 + 4#32 }
  byteRegs : ∀ x, (byteBody x).port.bytes = x.port.bytes ∧
    (byteBody x).port.bigEndian = x.port.bigEndian
  wordRegs : ∀ x, (wordBody x).port.bytes = x.port.bytes ∧
    (wordBody x).port.bigEndian = x.port.bigEndian

/-- How many bytes are moved.  The distance to the next word boundary is taken off the size before
the two are compared. -/
def moved (buf : Addr) (size : BitVec 32) : ℕ :=
  if size = 0#32 then 0
  else if buf.toNat % 4 = 0 then size.toNat
  else 4 - buf.toNat % 4 + (size - BitVec.ofNat 32 (4 - buf.toNat % 4)).toNat

variable {R : ℕ → Xfer → Xfer → Prop} {byteBody wordBody : Xfer → Xfer}

theorem unLoop_spec (h : Moves R byteBody wordBody) (n : ℕ) :
    ∀ {fuel : ℕ} {t2 : BitVec 32} {x : Xfer}, n < fuel → t2.toNat = n + 1 → x.port.bytes = 1 →
      x.port.bigEndian = false →
      ∃ y, unLoop byteBody fuel t2 x = some y ∧ R (n + 1) x y ∧ y.port.bigEndian = false := by
  induction n with
  | zero =>
    rintro (_ | fuel) t2 x hfuel ht hbytes hbig
    · exact absurd hfuel (Nat.not_lt_zero _)
    · have hlast : ¬t2 - 1#32 ≠ 0#32 := by
        rw [not_not]
        bv_omega
      rw [unLoop, if_neg hlast]
      exact ⟨_, rfl, h.byte hbytes hbig, (h.byteRegs x).2.trans hbig⟩
  | succ n ih =>
    rintro (_ | fuel) t2 x hfuel ht hbytes hbig
    · exact absurd hfuel (Nat.not_lt_zero _)
    · have hmore : t2 - 1#32 ≠ 0#32 := by bv_omega
      rw [unLoop, if_pos hmore]
      obtain ⟨y, hy, hmoved, hend⟩ :=
        @ih fuel (t2 - 1#32) { byteBody x with a0 := x.a0 + 1#32 } (by omega) (by bv_omega)
          ((h.byteRegs x).1.trans hbytes) ((h.byteRegs x).2.trans hbig)
      refine ⟨y, hy, ?_, hend⟩
      rw [Nat.add_comm (n + 1) 1]
      exact h.trans (h.byte hbytes hbig) hmoved

theorem alignedLoop_spec (h : Moves R byteBody wordBody) (n : ℕ) :
    ∀ {fuel : ℕ} {a1 : BitVec 32} {x : Xfer}, n < fuel → a1.toNat = 4 * (n + 1) →
      x.port.bytes = 4 → x.port.bigEndian = false →
      ∃ y, alignedLoop wordBody fuel a1 x = some y ∧ R (4 * (n + 1)) x y ∧
        y.port.bigEndian = false := by
  induction n with
  | zero =>
    rintro (_ | fuel) a1 x hfuel ha hbytes hbig
    · exact absurd hfuel (Nat.not_lt_zero _)
    · have hlast : ¬a1 - 4#32 ≠ 0#32 := by
        rw [not_not]
        bv_omega
      rw [alignedLoop, if_neg hlast]
      exact ⟨_, rfl, h.word hbytes hbig, (h.wordRegs x).2.trans hbig⟩
  | succ n ih =>
    rintro (_ | fuel) a1 x hfuel ha hbytes hbig
    · exact absurd hfuel (Nat.not_lt_zero _)
    · have hmore : a1 - 4#32 ≠ 0#32 := by bv_omega
      rw [alignedLoop, if_pos hmore]
      obtain ⟨y, hy, hmoved, hend⟩ :=
        @ih fuel (a1 - 4#32) { wordBody x with a0 := x.a0 + 4#32 } (by omega) (by bv_omega)
          ((h.wordRegs x).1.trans hbytes) ((h.wordRegs x).2.trans hbig)
      refine ⟨y, hy, ?_, hend⟩
      rw [Nat.mul_succ, Nat.add_comm]
      exact h.trans (h.word hbytes hbig) hmoved

theorem unaligned2_spec (h : Moves R byteBody wordBody) {t2 : BitVec 32} {x : Xfer}
    (ht : t2 ≠ 0#32) (hbig : x.port.bigEndian = false) :
    ∃ y, unaligned2 byteBody t2 x = some y ∧ R t2.toNat x y := by
  have hpos : 0 < t2.toNat := by bv_omega
  obtain ⟨y, hy, hmoved, -⟩ := @unLoop_spec R byteBody wordBody h (t2.toNat - 1) (2 ^ 32) t2
    { x with port := x.port.setBitcount 0#8 } (by omega) (by omega) rfl hbig
  rw [Nat.sub_add_cancel hpos] at hmoved
  exact ⟨y, hy, h.bitcount hmoved⟩

theorem toNat_and_three (x : BitVec 32) : (x &&& 3#32).toNat = x.toNat % 4 := by
  rw [BitVec.toNat_and]
  exact Nat.and_two_pow_sub_one_eq_mod x.toNat 2

/-- From a word boundary on. -/
theorem cont1_spec (h : Moves R byteBody wordBody) {a1 : BitVec 32} {x : Xfer} (ha : a1 ≠ 0#32)
    (hbig : x.port.bigEndian = false) :
    ∃ y, cont1 byteBody wordBody a1 x = some y ∧ R a1.toNat x y := by
  have hthree := toNat_and_three a1
  unfold cont1
  dsimp only
  by_cases hwords : a1 - (a1 &&& 3#32) = 0#32
  · -- no whole word
    have hall : a1 &&& 3#32 = a1 := by bv_omega
    rw [if_pos hwords, hall]
    exact unaligned2_spec h ha hbig
  · have hle : (a1 &&& 3#32).toNat ≤ a1.toNat := by omega
    have hsub : (a1 - (a1 &&& 3#32)).toNat = a1.toNat - a1.toNat % 4 := by
      rw [BitVec.toNat_sub_of_le (BitVec.le_def.mpr hle), hthree]
    have hlt := a1.isLt
    have hne : a1.toNat - a1.toNat % 4 ≠ 0 := by
      intro hzero
      apply hwords
      apply BitVec.eq_of_toNat_eq
      rw [hsub, hzero]
      rfl
    obtain ⟨y, hy, hmoved, hend⟩ := @alignedLoop_spec R byteBody wordBody h (a1.toNat / 4 - 1)
      (2 ^ 32) (a1 - (a1 &&& 3#32)) { x with port := x.port.setBitcount 3#8 } (by omega)
      (by omega) rfl hbig
    have hwhole : 4 * (a1.toNat / 4 - 1 + 1) = a1.toNat - a1.toNat % 4 := by omega
    rw [hwhole] at hmoved
    rw [if_neg hwords, hy]
    dsimp only [Option.bind_eq_bind, Option.bind_some, Option.pure_def]
    by_cases hrest : a1 &&& 3#32 = 0#32
    · rw [if_pos hrest]
      have hnone : a1.toNat % 4 = 0 := by
        rw [← hthree, hrest]
        rfl
      rw [hnone, Nat.sub_zero] at hmoved
      exact ⟨y, rfl, h.bitcount hmoved⟩
    · rw [if_neg hrest]
      obtain ⟨z, hz, hmoved'⟩ := unaligned2_spec h hrest hend
      refine ⟨z, hz, ?_⟩
      have hsum := h.trans (h.bitcount hmoved) hmoved'
      rwa [hthree, Nat.sub_add_cancel (Nat.mod_le _ _)] at hsum

/-- **The code around the loops**: it comes to its end, and this many bytes are moved. -/
theorem moveBlock_spec (h : Moves R byteBody wordBody) (a1 : BitVec 32) (x : Xfer) :
    ∃ y, moveBlock byteBody wordBody a1 x = some y ∧ R (moved x.a0 a1) x y := by
  have hthree := toNat_and_three x.a0
  have hthree' := toNat_and_three x.a0
  unfold moveBlock moved
  dsimp only
  by_cases hsize : a1 = 0#32
  · rw [if_pos hsize, if_pos hsize]
    exact ⟨x, rfl, h.zero x⟩
  rw [if_neg hsize, if_neg hsize]
  by_cases haligned : x.a0 &&& 3#32 = 0#32
  · have hmod : x.a0.toNat % 4 = 0 := by
      rw [← hthree, haligned]
      rfl
    rw [if_pos haligned, if_pos hmod]
    obtain ⟨y, hy, hmoved⟩ := @cont1_spec R byteBody wordBody h a1
      { x with port := x.port.setEndian 0#8 } hsize rfl
    exact ⟨y, hy, h.endian hmoved⟩
  · have hmod : x.a0.toNat % 4 ≠ 0 := by
      intro hzero
      apply haligned
      apply BitVec.eq_of_toNat_eq
      rw [hthree, hzero]
      rfl
    have hhead : 4#32 - (x.a0 &&& 3#32) = BitVec.ofNat 32 (4 - x.a0.toNat % 4) := by bv_omega
    have hcount : (BitVec.ofNat 32 (4 - x.a0.toNat % 4)).toNat = 3 - x.a0.toNat % 4 + 1 := by
      rw [BitVec.toNat_ofNat, Nat.mod_eq_of_lt (by omega)]
      omega
    obtain ⟨y, hy, hmoved, hend⟩ := @unLoop_spec R byteBody wordBody h (3 - x.a0.toNat % 4)
      (2 ^ 32) _ { x with port := (x.port.setEndian 0#8).setBitcount 0#8 } (by omega) hcount rfl rfl
    have hfour : 3 - x.a0.toNat % 4 + 1 = 4 - x.a0.toNat % 4 := by omega
    rw [hfour] at hmoved
    have hstart := h.endian (h.bitcount hmoved)
    rw [if_neg haligned, if_neg hmod, hhead, hy]
    dsimp only [Option.bind_eq_bind, Option.bind_some, Option.pure_def]
    by_cases hdone : a1 - BitVec.ofNat 32 (4 - x.a0.toNat % 4) = 0#32
    · rw [if_pos hdone, hdone]
      exact ⟨y, rfl, hstart⟩
    · rw [if_neg hdone]
      obtain ⟨z, hz, hmoved'⟩ := cont1_spec h hdone hend
      exact ⟨z, hz, h.trans hstart hmoved'⟩

/-! ### The turns -/

variable {miso : ℕ → BitVec 8}

/-- The bytes that go out, from the lowest lane up. -/
theorem topByte_swapBytes (x : BitVec 32) {k : ℕ} (hk : k < 4) :
    topByte (swapBytes x) k = x.extractLsb' (8 * k) 8 := by
  rw [topByte_eq_extractLsb' _ hk, swapBytes_lane _ (by omega)]
  congr 1
  omega

theorem lowByte_setWidth (b : BitVec 8) : (b.setWidth 32).extractLsb' 0 8 = b := by
  apply BitVec.eq_of_getLsbD_eq
  intro i hi
  rw [BitVec.getLsbD_extractLsb', BitVec.getLsbD_setWidth]
  simp [hi]
  omega

theorem store_sent {p : Port} (hbig : p.bigEndian = false) (hbytes : p.bytes ≤ 4)
    (wdata : BitVec 32) :
    (p.store miso wdata).sent =
      p.sent ++ (List.range p.bytes).map fun k => wdata.extractLsb' (8 * k) 8 := by
  unfold Port.store
  rw [hbig, if_neg Bool.false_ne_true]
  dsimp only
  congr 1
  apply List.map_congr_left
  intro k hk
  exact topByte_swapBytes wdata ((List.mem_range.mp hk).trans_le hbytes)

/-- The lanes of a load, from the lowest one up when a whole word has come in. -/
theorem store_rdata {p : Port} (hbig : p.bigEndian = false) (wdata : BitVec 32) {k : ℕ}
    (hk : k < 4) (hbytes : 4 - p.bytes ≤ k) (hle : p.bytes ≤ 4) :
    (p.store miso wdata).rdata.extractLsb' (8 * k) 8 =
      miso (p.sent.length + (k - (4 - p.bytes))) := by
  have hregs : (p.store miso wdata).bigEndian = false := hbig
  unfold Port.rdata
  rw [hregs, if_neg Bool.false_ne_true, swapBytes_lane _ hk]
  have hlen := Overlay.length_slice miso p.sent.length p.bytes
  have hbyte := shiftIn_bytes p.regRead (Overlay.slice miso p.sent.length p.bytes)
    (k := 3 - k) (by omega) (by omega)
  refine hbyte.trans ?_
  unfold Overlay.slice
  rw [List.getElem_map, List.getElem_range, List.length_map, List.length_range]
  congr 2
  omega

/-- `n` bytes of the memory have been sent. -/
structure Wrote (n : ℕ) (x y : Xfer) : Prop where
  a0 : y.a0 = x.a0 + BitVec.ofNat 32 n
  mem : y.mem = x.mem
  sent : y.port.sent = x.port.sent ++ slice x.mem x.a0 n

/-- `n` bytes have come in and are in the memory. -/
structure Stored (miso : ℕ → BitVec 8) (n : ℕ) (x y : Xfer) : Prop where
  a0 : y.a0 = x.a0 + BitVec.ofNat 32 n
  mem : y.mem = writeAll x.mem x.a0 (Overlay.slice miso x.port.sent.length n)
  sent : y.port.sent.length = x.port.sent.length + n

theorem moves_wrote (miso : ℕ → BitVec 8) : Moves Wrote (wrByte miso) (wrWord miso) where
  zero x := ⟨(BitVec.add_zero x.a0).symm, rfl, (List.append_nil _).symm⟩
  trans := by
    intro m n x y z h h'
    refine ⟨?_, h'.mem.trans h.mem, ?_⟩
    · rw [h'.a0, h.a0, BitVec.add_assoc, BitVec.ofNat_add]
    · rw [h'.sent, h.sent, h.mem, h.a0, List.append_assoc, ← slice_add]
  bitcount h := ⟨h.a0, h.mem, h.sent⟩
  endian h := ⟨h.a0, h.mem, h.sent⟩
  byte := by
    intro x hbytes hbig
    refine ⟨rfl, rfl, ?_⟩
    unfold wrByte
    dsimp only
    rw [store_sent hbig (by omega), hbytes]
    congr 1
    apply List.map_congr_left
    intro k hk
    obtain rfl : k = 0 := by simpa using hk
    rw [Nat.mul_zero, lowByte_setWidth]
    exact congrArg x.mem (BitVec.add_zero x.a0).symm
  word := by
    intro x hbytes hbig
    refine ⟨rfl, rfl, ?_⟩
    unfold wrWord
    dsimp only
    rw [store_sent hbig hbytes.le, hbytes]
    congr 1
    apply List.map_congr_left
    intro k hk
    have hlane := extractLsb'_lanes (fun k => x.mem (x.a0 + BitVec.ofNat 32 k))
      (List.mem_range.mp hk)
    rwa [show x.a0 + BitVec.ofNat 32 0 = x.a0 from BitVec.add_zero x.a0] at hlane
  byteRegs x := ⟨rfl, rfl⟩
  wordRegs x := ⟨rfl, rfl⟩

theorem moves_stored (miso : ℕ → BitVec 8) (a3 : BitVec 32) :
    Moves (Stored miso) (rdByte miso a3) (rdWord miso a3) where
  zero x := ⟨(BitVec.add_zero x.a0).symm, rfl, rfl⟩
  trans := by
    intro m n x y z h h'
    refine ⟨?_, ?_, ?_⟩
    · rw [h'.a0, h.a0, BitVec.add_assoc, BitVec.ofNat_add]
    · have hadd : Overlay.slice miso x.port.sent.length (m + n) =
          Overlay.slice miso x.port.sent.length m ++
            Overlay.slice miso (x.port.sent.length + m) n := by
        unfold Overlay.slice
        rw [List.range_add, List.map_append, List.map_map]
        congr 1
        apply List.map_congr_left
        intro k _
        rw [Function.comp_apply, Nat.add_assoc]
      rw [h'.mem, h.mem, h.a0, h.sent, hadd, writeAll_append, Overlay.length_slice]
    · rw [h'.sent, h.sent, Nat.add_assoc]
  bitcount h := ⟨h.a0, h.mem, h.sent⟩
  endian h := ⟨h.a0, h.mem, h.sent⟩
  byte := by
    intro x hbytes hbig
    refine ⟨rfl, ?_, ?_⟩
    · unfold rdByte
      dsimp only
      rw [store_rdata (k := 3) hbig _ (by decide) (by omega) (by omega), hbytes]
      rfl
    · unfold rdByte
      dsimp only
      rw [store_sent hbig (by omega), hbytes]
      exact List.length_append
  word := by
    intro x hbytes hbig
    refine ⟨rfl, ?_, ?_⟩
    · unfold rdWord storeWord Elf.wordBytes
      dsimp only
      congr 1
      apply List.map_congr_left
      intro k hk
      rw [store_rdata hbig _ (List.mem_range.mp hk) (by omega) (by omega), hbytes]
      rfl
    · unfold rdWord
      dsimp only
      rw [store_sent hbig hbytes.le, hbytes]
      exact List.length_append
  byteRegs x := ⟨rfl, rfl⟩
  wordRegs x := ⟨rfl, rfl⟩

/-! ### The transfers -/

/-- Nothing is asked for, or the buffer is at a word boundary or reaches one. -/
def Fits (buf : Addr) (size : BitVec 32) : Prop :=
  size = 0#32 ∨ buf.toNat % 4 = 0 ∨ 4 - buf.toNat % 4 ≤ size.toNat

instance (buf : Addr) (size : BitVec 32) : Decidable (Fits buf size) :=
  inferInstanceAs (Decidable (_ ∨ _ ∨ _))

/-- A buffer that ends before the first word boundary is taken to go on for all of the memory. -/
theorem moved_eq (buf : Addr) (size : BitVec 32) :
    moved buf size = if Fits buf size then size.toNat else size.toNat + 2 ^ 32 := by
  have hlt := size.isLt
  have hmod := Nat.mod_lt buf.toNat (show 0 < 4 by decide)
  unfold moved
  by_cases hsize : size = 0#32
  · have hfits : Fits buf size := Or.inl hsize
    rw [if_pos hsize, if_pos hfits, hsize]
    rfl
  rw [if_neg hsize]
  by_cases haligned : buf.toNat % 4 = 0
  · have hfits : Fits buf size := Or.inr (Or.inl haligned)
    rw [if_pos haligned, if_pos hfits]
  rw [if_neg haligned, BitVec.toNat_sub, BitVec.toNat_ofNat]
  by_cases hreach : 4 - buf.toNat % 4 ≤ size.toNat
  · have hfits : Fits buf size := Or.inr (Or.inr hreach)
    rw [if_pos hfits]
    omega
  · have hfits : ¬Fits buf size := by
      rintro (h | h | h)
      · exact hsize h
      · exact haligned h
      · exact hreach h
    have hsmall : 0 < size.toNat := by bv_omega
    rw [if_neg hfits]
    omega

theorem moved_eq_iff (buf : Addr) (size : BitVec 32) :
    moved buf size = size.toNat ↔ Fits buf size := by
  rw [moved_eq]
  split_ifs with h
  · exact ⟨fun _ => h, fun _ => rfl⟩
  · constructor
    · intro heq
      omega
    · exact fun h' => absurd h' h

/-- `spi_write` comes to its end and has sent the buffer. -/
def WriteExact (miso : ℕ → BitVec 8) (mem : Mem) (port : Port) (src : Addr) (size : BitVec 32)
    (deassert : Bool) : Prop :=
  ∃ y, spiWrite miso mem port src size deassert = some y ∧
    y.port.sent = port.sent ++ slice mem src size.toNat

/-- `spi_read` comes to its end, with one byte sent for each byte of the buffer, and the bytes that
came in are in the buffer; the rest of the memory is as it was. -/
def ReadExact (miso : ℕ → BitVec 8) (mem : Mem) (port : Port) (dst : Addr) (size : BitVec 32)
    (deassert : Bool) (wrWord : BitVec 32) : Prop :=
  ∃ y, spiRead miso mem port dst size deassert wrWord = some y ∧
    y.port.sent.length = port.sent.length + size.toNat ∧
    y.mem = writeAll mem dst (Overlay.slice miso port.sent.length size.toNat)

theorem finish_sent (deassert : Bool) (x : Xfer) : (finish deassert x).port.sent = x.port.sent := by
  unfold finish
  split <;> rfl

theorem finish_mem (deassert : Bool) (x : Xfer) : (finish deassert x).mem = x.mem := by
  unfold finish
  split <;> rfl

theorem spiWrite_spec (mem : Mem) (port : Port) (src : Addr) (size : BitVec 32) (deassert : Bool) :
    ∃ y, spiWrite miso mem port src size deassert = some y ∧
      y.port.sent = port.sent ++ slice mem src (moved src size) ∧ y.mem = mem := by
  obtain ⟨y, hy, hwrote⟩ := moveBlock_spec (moves_wrote miso) size ⟨src, mem, port⟩
  refine ⟨finish deassert y, ?_, ?_, ?_⟩
  · rw [spiWrite, hy]
    rfl
  · rw [finish_sent]
    exact hwrote.sent
  · rw [finish_mem]
    exact hwrote.mem

theorem spiRead_spec (mem : Mem) (port : Port) (dst : Addr) (size : BitVec 32) (deassert : Bool)
    (wrWord : BitVec 32) :
    ∃ y, spiRead miso mem port dst size deassert wrWord = some y ∧
      y.port.sent.length = port.sent.length + moved dst size ∧
      y.mem = writeAll mem dst (Overlay.slice miso port.sent.length (moved dst size)) := by
  obtain ⟨y, hy, hstored⟩ := moveBlock_spec (moves_stored miso wrWord) size ⟨dst, mem, port⟩
  refine ⟨finish deassert y, ?_, ?_, ?_⟩
  · rw [spiRead, hy]
    rfl
  · rw [finish_sent]
    exact hstored.sent
  · rw [finish_mem]
    exact hstored.mem

/-- **Block transfers are exact** when the buffer is empty, at a word boundary or reaches one, and
only then. -/
theorem spi_exact_iff (miso : ℕ → BitVec 8) (mem : Mem) (port : Port) (buf : Addr)
    (size : BitVec 32) (deassert : Bool) (wrWord : BitVec 32) :
    (WriteExact miso mem port buf size deassert ↔ Fits buf size) ∧
      (ReadExact miso mem port buf size deassert wrWord ↔ Fits buf size) := by
  constructor
  · obtain ⟨y, hy, hsent, -⟩ := @spiWrite_spec miso mem port buf size deassert
    rw [← moved_eq_iff]
    constructor
    · rintro ⟨z, hz, hexact⟩
      obtain rfl : y = z := Option.some.inj (hy.symm.trans hz)
      have hlen := congrArg List.length (hsent.symm.trans hexact)
      rw [List.length_append, List.length_append, length_slice, length_slice] at hlen
      exact Nat.add_left_cancel hlen
    · intro hmoved
      rw [hmoved] at hsent
      exact ⟨y, hy, hsent⟩
  · obtain ⟨y, hy, hsent, hmem⟩ := @spiRead_spec miso mem port buf size deassert wrWord
    rw [← moved_eq_iff]
    constructor
    · rintro ⟨z, hz, hexact, -⟩
      obtain rfl : y = z := Option.some.inj (hy.symm.trans hz)
      exact Nat.add_left_cancel (hsent.symm.trans hexact)
    · intro hmoved
      rw [hmoved] at hsent hmem
      exact ⟨y, hy, hsent, hmem⟩

/-- A byte in the middle of a word is more than `spi_write` can send. -/
theorem one_byte_not_exact :
    ¬WriteExact (fun _ => 0#8) (fun _ => 0#8) ⟨1, false, 0#32, false, []⟩ 1#32 1#32 false := by
  obtain ⟨y, hy, hsent, -⟩ :=
    @spiWrite_spec (fun _ => 0#8) (fun _ => 0#8) ⟨1, false, 0#32, false, []⟩ 1#32 1#32 false
  rintro ⟨z, hz, hexact⟩
  obtain rfl : y = z := Option.some.inj (hy.symm.trans hz)
  have hlen := congrArg List.length (hsent.symm.trans hexact)
  rw [List.length_append, List.length_append, length_slice, length_slice] at hlen
  have hmoved : moved 1#32 1#32 = 2 ^ 32 + 1 := by decide
  rw [hmoved] at hlen
  exact absurd (Nat.add_left_cancel hlen) (by decide)

/-! ### The engine -/

/-- The registers of the engine that the port has. -/
structure Shows (p : Port) (s : Spi) : Prop where
  bytes : s.regBitcount.toNat + 1 = 8 * p.bytes
  le : p.bytes ≤ 4
  bigEndian : s.regBigEndian = p.bigEndian
  regRead : s.regRead = p.regRead
  shiftIn : s.shiftIn = p.regRead

variable {χ : Type} {dev : Slave χ} {y : SpiSystem χ} {p : Port}

theorem setBitcount_shows (hquiet : SpiFlash.Quiet y.spi) (h : Shows p y.spi) (value : BitVec 8) :
    Shows (p.setBitcount value) (y.clock dev (SpiFlash.ctrlBus 0 value)).spi := by
  have hbits : ((value.setWidth 32).extractLsb' 0 2) = value.extractLsb' 0 2 := by
    apply BitVec.eq_of_getLsbD_eq
    intro i hi
    rw [BitVec.getLsbD_extractLsb', BitVec.getLsbD_extractLsb', BitVec.getLsbD_setWidth]
    simp [hi]
    omega
  rw [SpiFlash.clock_ctrl_length dev hquiet]
  refine ⟨?_, ?_, h.bigEndian, h.regRead, h.shiftIn⟩
  · unfold Port.setBitcount Spi.lengthBits
    dsimp only
    rw [hbits]
    generalize value.extractLsb' 0 2 = code
    revert code
    decide
  · have hlt := (value.extractLsb' 0 2).isLt
    exact hlt

theorem setEndian_shows (hquiet : SpiFlash.Quiet y.spi) (h : Shows p y.spi) (value : BitVec 8) :
    Shows (p.setEndian value) (y.clock dev (SpiFlash.ctrlBus 2 value)).spi := by
  rw [SpiFlash.clock_ctrl_endian dev hquiet]
  exact ⟨h.bytes, h.le, rfl, h.regRead, h.shiftIn⟩

/-- **A store to the port is a store to the engine** with the flash: the flash gets the bytes that
the port sends, and answers the byte `k` with the bits of `miso k`. -/
theorem store_shows (hquiet : SpiFlash.Quiet y.spi) (hss : y.spi.regSs = 0#2) {bus : SpiBus}
    (hbus : SpiFlash.DataStore bus) (h : Shows p y.spi)
    (hanswer : (dev.pulses y.slave (valueBits p.bigEndian p.bytes bus.wdata)).2 =
      (Overlay.slice miso p.sent.length p.bytes).flatMap (topBits 8)) :
    Shows (p.store miso bus.wdata) (SpiFlash.exchangedBy dev y bus).spi ∧
      ∃ bytes, (p.store miso bus.wdata).sent = p.sent ++ bytes ∧
        (SpiFlash.exchangedBy dev y bus).slave =
          (dev.pulses y.slave (bytes.flatMap (topBits 8))).1 := by
  obtain ⟨-, -, hslave, hin, hread, hcount, hend, -⟩ :=
    SpiFlash.exchangedBy_spec dev hquiet hss hbus
  have hlane : ∀ k < p.bytes, topByte (y.spi.wdataEndian bus.wdata) k =
      bus.wdata.extractLsb' (8 * laneOf p.bigEndian k) 8 := by
    intro k hk
    rw [topByte_wdataEndian y.spi bus.wdata (hk.trans_le h.le), h.bigEndian]
  have hbits : topBits (y.spi.regBitcount.toNat + 1) (y.spi.wdataEndian bus.wdata) =
      valueBits p.bigEndian p.bytes bus.wdata := by
    rw [h.bytes]
    exact topBits_eq_valueBits hlane
  rw [hbits] at hslave hin
  rw [hanswer, h.shiftIn] at hin
  constructor
  · exact ⟨hcount ▸ h.bytes, h.le, hend.trans h.bigEndian, hread.trans hin, hin⟩
  · refine ⟨(List.range p.bytes).map (topByte (y.spi.wdataEndian bus.wdata)), ?_, ?_⟩
    · rw [Spi.wdataEndian, h.bigEndian]
      rfl
    · rw [hslave, valueBits, List.flatMap_map]
      congr 2
      apply List.flatMap_congr
      intro k hk
      rw [hlane k (List.mem_range.mp hk)]

end Filestick.SpiBlock
