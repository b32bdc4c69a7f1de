import Filestick.Lib.Ring
import Filestick.Rtl.Equiv.Spi
import Filestick.System.Equiv.SpiExchange

/-!
# What `flash_memcpy` copies

`exec` runs a sequence of accesses whose loads all come in time.  The copied words and the bytes of
the remainder are then the bytes of the flash, one after the other.

* `copyLoop_stores`, `remainderLoop_stores`: the two loops.
* `flashMemcpy_stores`: what is stored for every size from 4 on.
* `flashMemcpy_copies_iff`: `flash_memcpy` copies what it is asked for exactly for these sizes: with
  a smaller one, the first word is stored all the same.
-/

namespace Filestick.SpiFlash

open ShiftRegister

/-! ### Memory -/

/-- The bytes of a store, with their addresses. -/
def MemStore.bytes (s : MemStore) : List (BitVec 32 × BitVec 8) :=
  if s.byte then [(s.addr, s.data.setWidth 8)]
  else (List.range 4).map fun k => (s.addr + BitVec.ofNat 32 k, s.data.extractLsb' (8 * k) 8)

/-- The bytes of all stores, in order. -/
def stored (stores : List MemStore) : List (BitVec 32 × BitVec 8) := stores.flatMap MemStore.bytes

/-- The memory after the stores. -/
def storeBytes (mem : BitVec 32 → BitVec 8) (l : List (BitVec 32 × BitVec 8)) :
    BitVec 32 → BitVec 8 :=
  l.foldl (fun mem p => Function.update mem p.1 p.2) mem

/-- What `flash_memcpy` is asked for: byte `i` of the flash is stored as byte `i` of the
destination, and nothing is stored elsewhere. -/
def Copies (content : BitVec 24 → BitVec 8) (a0 a1 : BitVec 32) (size : ℕ)
    (stores : List MemStore) : Prop :=
  (∀ mem, ∀ i < size, storeBytes mem (stored stores) (a1 + BitVec.ofNat 32 i) =
    content (BitVec.ofNat 24 (a0.toNat + i))) ∧
  ∀ p ∈ stored stores, ∃ i < size, p.1 = a1 + BitVec.ofNat 32 i

@[simp] theorem stored_nil : stored [] = [] := rfl

theorem stored_append (s t : List MemStore) : stored (s ++ t) = stored s ++ stored t :=
  List.flatMap_append

/-- The bytes of a list of addresses that are all different. -/
theorem storeBytes_range (mem : BitVec 32 → BitVec 8) (a1 : BitVec 32) (f : ℕ → BitVec 8) {n : ℕ}
    (hn : n ≤ 2 ^ 32) {i : ℕ} (hi : i < n) :
    storeBytes mem ((List.range n).map fun k => (a1 + BitVec.ofNat 32 k, f k))
      (a1 + BitVec.ofNat 32 i) = f i := by
  induction n with
  | zero => exact absurd hi (Nat.not_lt_zero i)
  | succ n ih =>
    rw [List.range_succ, List.map_append, storeBytes, List.foldl_append]
    rw [List.map_singleton, List.foldl_cons, List.foldl_nil]
    rcases Nat.lt_succ_iff_lt_or_eq.mp hi with hlt | rfl
    · rw [Function.update_of_ne]
      · exact ih (by omega) hlt
      · intro heq
        have := Ring.add_ofNat_inj (by omega) (by omega) heq
        omega
    · rw [Function.update_self]

/-! ### Runs in time -/

section

variable {χ : Type} (dev : Slave χ)

/-- A run whose loads all come in time: it does not depend on the gaps. -/
def exec : List SpiOp → SpiSystem χ → SpiSystem χ × List MemStore
  | [], y => (y, [])
  | .ctrl lane value :: ops, y => exec ops (y.clock dev (ctrlBus lane value))
  | .exchange word dest :: ops, y =>
    let z := exchanged dev y word
    ((exec ops z).1, storesOf dest z.spi.rdata ++ (exec ops z).2)

theorem exec_exchange (word : BitVec 32) (dest : Option Dest) (ops : List SpiOp)
    (y : SpiSystem χ) :
    exec dev (.exchange word dest :: ops) y = ((exec dev ops (exchanged dev y word)).1,
      storesOf dest (exchanged dev y word).spi.rdata ++
        (exec dev ops (exchanged dev y word)).2) := rfl

theorem exec_append (ops ops' : List SpiOp) (y : SpiSystem χ) :
    exec dev (ops ++ ops') y = ((exec dev ops' (exec dev ops y).1).1,
      (exec dev ops y).2 ++ (exec dev ops' (exec dev ops y).1).2) := by
  induction ops generalizing y with
  | nil => rfl
  | cons op ops ih =>
    cases op with
    | ctrl lane value => exact ih _
    | exchange word dest =>
      rw [List.cons_append, exec_exchange, ih, exec_exchange, List.append_assoc]

theorem run_eq_exec {gaps : ℕ → Gap} {ops : List SpiOp} {k : ℕ} {y : SpiSystem χ}
    (hy : Quiet y.spi) (h : InTime gaps k y.spi.regBitcount ops) :
    run dev gaps k ops y = some (exec dev ops y) := by
  induction ops generalizing k y with
  | nil => rfl
  | cons op ops ih =>
    cases op with
    | ctrl lane value =>
      obtain ⟨hop, hq, hbits, -⟩ := runOp_ctrl dev hy (gaps k) lane value
      have hrest := ih (k := k + 1) hq (by rw [hbits]; exact h)
      simp only [run, hop, hrest, Option.bind_eq_bind, Option.bind_some]
      rfl
    | exchange word dest =>
      obtain ⟨hop, hq, hbits, -⟩ := runOp_exchange_inTime dev hy (gaps k) h.1 word dest
      have hrest := ih (k := k + 1) hq (by rw [hbits]; exact h.2)
      simp only [run, hop, hrest, Option.bind_eq_bind, Option.bind_some]
      rfl

end

/-! ### The flash -/

section

variable (content : BitVec 24 → BitVec 8) {hdr : BitVec 32}

/-- While the command and the address come in, the flash keeps them. -/
theorem flashChip_header (c : FlashChip) (bits : List Bool) (h : c.bits + bits.length ≤ 32) :
    ((flashChip content).pulses c bits).1 = ⟨c.bits + bits.length, shiftIn c.header bits⟩ := by
  induction bits generalizing c with
  | nil => rfl
  | cons b bits ih =>
    rw [List.length_cons] at h
    have hpulse : ((flashChip content).pulse c b).1 =
        ⟨c.bits + 1, c.header <<< 1 ||| (BitVec.ofBool b).setWidth 32⟩ := by
      simp only [flashChip, if_pos (show c.bits < 32 by omega)]
    rw [Slave.pulses_cons, hpulse, ih _ (by dsimp only; omega), shiftIn_cons, List.length_cons]
    congr 1
    dsimp only
    omega

/-- Bit `q` of what the flash sends for the address in `hdr`. -/
def dataBit (hdr : BitVec 32) (q : ℕ) : Bool :=
  (content (hdr.setWidth 24 + BitVec.ofNat 24 (q / 8))).getMsbD (q % 8)

/-- Behind the command, the flash sends its bytes bit by bit. -/
theorem flashChip_data (hcmd : hdr.extractLsb' 24 8 = 0x03#8) (q : ℕ) (bits : List Bool) :
    (flashChip content).pulses ⟨32 + q, hdr⟩ bits =
      (⟨32 + q + bits.length, hdr⟩,
        (List.range bits.length).map fun k => dataBit content hdr (q + k)) := by
  induction bits generalizing q with
  | nil => rfl
  | cons b bits ih =>
    have hpulse : (flashChip content).pulse ⟨32 + q, hdr⟩ b =
        (⟨32 + q + 1, hdr⟩, dataBit content hdr q) := by
      have hmod : q % 8 < 8 := Nat.mod_lt q (by decide)
      simp only [flashChip, if_neg (show ¬32 + q < 32 by omega), hcmd, dataBit,
        Nat.add_sub_cancel_left, beq_self_eq_true, Bool.true_and, BitVec.getMsbD_eq_getLsbD, hmod,
        decide_true]
    rw [Slave.pulses_cons, hpulse, show 32 + q + 1 = 32 + (q + 1) by omega, ih, List.length_cons,
      List.range_succ_eq_map, List.map_cons, List.map_map]
    refine Prod.ext ?_ ?_
    · simp only [FlashChip.mk.injEq, and_true]
      omega
    · refine congrArg₂ List.cons rfl (List.map_congr_left fun k _ => ?_)
      rw [Function.comp_apply]
      congr 1
      omega

/-- A whole number of bytes of the flash. -/
theorem dataBits_bytes (j n : ℕ) :
    ((List.range (8 * n)).map fun k => dataBit content hdr (8 * j + k)) =
      ((List.range n).map fun k =>
        content (hdr.setWidth 24 + BitVec.ofNat 24 (j + k))).flatMap (topBits 8) := by
  induction n with
  | zero => rfl
  | succ n ih =>
    rw [Nat.mul_succ, List.range_add, List.map_append, ih, List.range_succ (n := n),
      List.map_append, List.flatMap_append, List.map_map, List.map_singleton,
      List.flatMap_singleton]
    congr 1
    apply List.map_congr_left
    intro k hk
    have hk8 : k < 8 := List.mem_range.mp hk
    rw [Function.comp_apply, dataBit, show (8 * j + (8 * n + k)) / 8 = j + n by omega,
      show (8 * j + (8 * n + k)) % 8 = k by omega]

end

/-! ### The loops -/

section

variable {hdr : BitVec 32} {y : SpiSystem FlashChip}

/-- The engine is quiet, and the flash has sent `j` bytes. -/
structure Reading (hdr : BitVec 32) (j : ℕ) (y : SpiSystem FlashChip) : Prop where
  quiet : Quiet y.spi
  regSs : y.spi.regSs = 0#2
  slave : y.slave = ⟨32 + 8 * j, hdr⟩

/-- **An exchange takes in the next bytes of the flash**, the last one at the low end. -/
theorem Reading.exchanged (content : BitVec 24 → BitVec 8) {j n : ℕ} (h : Reading hdr j y)
    (hcmd : hdr.extractLsb' 24 8 = 0x03#8) (hn : y.spi.regBitcount.toNat + 1 = 8 * n)
    (word : BitVec 32) :
    let z := exchanged (flashChip content) y word
    Reading hdr (j + n) z ∧ z.spi.regBitcount = y.spi.regBitcount ∧
      z.spi.regBigEndian = y.spi.regBigEndian ∧
      ∀ k < n, z.spi.regRead.extractLsb' (8 * k) 8 =
        content (hdr.setWidth 24 + BitVec.ofNat 24 (j + (n - 1 - k))) := by
  intro z
  have hn4 : n ≤ 4 := by
    have := y.spi.regBitcount.isLt
    omega
  obtain ⟨-, hq, hslave, hin, hread, hbits, hbig, hsel⟩ :=
    exchangedBy_spec (flashChip content) h.quiet h.regSs
      (show DataStore (storeBus word) from ⟨rfl, rfl, rfl⟩)
  rw [hn, h.slave, flashChip_data content hcmd, length_topBits] at hslave hin
  rw [dataBits_bytes] at hin
  refine ⟨⟨hq, hsel.regSs, hslave.trans ?_⟩, hbits, hbig, fun k hk => ?_⟩
  · rw [Nat.mul_add, Nat.add_assoc]
  · show (exchangedBy (flashChip content) y (storeBus word)).spi.regRead.extractLsb' _ _ = _
    rw [hread, hin, shiftIn_bytes _ _ (by omega) (by simpa using hk)]
    simp

/-- **A loop of exchanges** of `m` bytes each, of which every turn stores all: the next bytes of the
flash are stored one after the other. -/
theorem exchangeLoop_stores (content : BitVec 24 → BitVec 8) {j m : ℕ} {byte big : Bool}
    (h : Reading hdr j y)
    (hcmd : hdr.extractLsb' 24 8 = 0x03#8) (hbits : y.spi.regBitcount.toNat + 1 = 8 * m)
    (hbig : y.spi.regBigEndian = big)
    (hstore : ∀ (s : Spi) (a1 : BitVec 32), s.regBigEndian = big →
      stored (storesOf (some ⟨a1, byte⟩) s.rdata) = (List.range m).map fun k =>
        (a1 + BitVec.ofNat 32 k, s.regRead.extractLsb' (8 * (m - 1 - k)) 8))
    (n : ℕ) (a1 : BitVec 32) :
    let r := exec (flashChip content) (exchangeLoop byte (BitVec.ofNat 32 m) n a1) y
    Reading hdr (j + m * n) r.1 ∧
      stored r.2 = (List.range (m * n)).map fun k =>
        (a1 + BitVec.ofNat 32 k, content (hdr.setWidth 24 + BitVec.ofNat 24 (j + k))) := by
  induction n generalizing j y a1 with
  | zero => exact ⟨h, rfl⟩
  | succ n ih =>
    intro r
    obtain ⟨hnext, hbits', hbig', hbytes⟩ :=
      h.exchanged content hcmd hbits 0xFFFFFFFF#32
    obtain ⟨hend, hrest⟩ := ih hnext (by rw [hbits', hbits]) (hbig'.trans hbig)
      (a1 + BitVec.ofNat 32 m)
    refine ⟨?_, ?_⟩
    · rw [show j + m * (n + 1) = j + m + m * n by rw [Nat.mul_succ]; omega]
      exact hend
    · -- the bytes of this turn, and those of the other turns
      have hturn : stored (storesOf (some ⟨a1, byte⟩)
          (SpiFlash.exchanged (flashChip content) y 0xFFFFFFFF#32).spi.rdata) =
          (List.range m).map fun k =>
            (a1 + BitVec.ofNat 32 k, content (hdr.setWidth 24 + BitVec.ofNat 24 (j + k))) := by
        rw [hstore _ a1 (hbig'.trans hbig)]
        apply List.map_congr_left
        intro k hk
        have hkm : k < m := List.mem_range.mp hk
        rw [hbytes (m - 1 - k) (by omega), show m - 1 - (m - 1 - k) = k by omega]
      show stored (_ ++ _) = _
      rw [stored_append, hturn]
      show _ ++ stored (exec (flashChip content) (exchangeLoop byte _ n _) _).2 = _
      rw [hrest, Nat.mul_succ, Nat.add_comm (m * n) m, List.range_add, List.map_append,
        List.map_map]
      congr 1
      apply List.map_congr_left
      intro k _
      rw [Function.comp_apply, BitVec.add_assoc, ← BitVec.ofNat_add, Nat.add_assoc j m k]

/-- A word that was taken in is stored in little endian order. -/
theorem stored_word (s : Spi) (a1 : BitVec 32) (hbig : s.regBigEndian = false) :
    stored (storesOf (some ⟨a1, false⟩) s.rdata) = (List.range 4).map fun k =>
      (a1 + BitVec.ofNat 32 k, s.regRead.extractLsb' (8 * (4 - 1 - k)) 8) := by
  rw [Spi.rdata, hbig, if_neg (by decide), storesOf, stored, List.flatMap_singleton,
    MemStore.bytes,
    if_neg Bool.false_ne_true]
  apply List.map_congr_left
  intro k hk
  rw [if_neg Bool.false_ne_true, swapBytes_lane _ (List.mem_range.mp hk)]

/-- A byte that was taken in is the lowest one of the register. -/
theorem stored_byte (s : Spi) (a1 : BitVec 32) (hbig : s.regBigEndian = true) :
    stored (storesOf (some ⟨a1, true⟩) s.rdata) = (List.range 1).map fun k =>
      (a1 + BitVec.ofNat 32 k, s.regRead.extractLsb' (8 * (1 - 1 - k)) 8) := by
  have hlow : ((s.regRead.setWidth 8).setWidth 32).setWidth 8 = s.regRead.extractLsb' 0 8 := by
    apply BitVec.eq_of_getLsbD_eq
    intro i hi
    simp [hi]
  rw [Spi.rdata, hbig, if_pos rfl, storesOf, stored, List.flatMap_singleton, MemStore.bytes,
    if_pos rfl, if_pos rfl, hlow]
  simp

theorem Reading.ctrl_length (content : BitVec 24 → BitVec 8) {j : ℕ} (h : Reading hdr j y)
    (value : BitVec 8) :
    let z := y.clock (flashChip content) (ctrlBus 0 value)
    Reading hdr j z ∧ z.spi.regBitcount = Spi.lengthBits (value.setWidth 32) := by
  rw [clock_ctrl_length _ h.quiet]
  exact ⟨⟨⟨h.quiet.state, h.quiet.wrhold, h.quiet.rdhold⟩, h.regSs, h.slave⟩, rfl⟩

theorem Reading.ctrl_endian (content : BitVec 24 → BitVec 8) {j : ℕ} (h : Reading hdr j y)
    (value : BitVec 8) :
    let z := y.clock (flashChip content) (ctrlBus 2 value)
    Reading hdr j z ∧ z.spi.regBitcount = y.spi.regBitcount ∧
      z.spi.regBigEndian = value.getLsbD 0 := by
  rw [clock_ctrl_endian _ h.quiet]
  exact ⟨⟨⟨h.quiet.state, h.quiet.wrhold, h.quiet.rdhold⟩, h.regSs, h.slave⟩, rfl, rfl⟩

/-! ### `flash_memcpy` -/

/-- The accesses before the loop. -/
def request (a0 : BitVec 32) : List SpiOp :=
  [.ctrl 1 0#8, .ctrl 2 1#8, .ctrl 0 3#8, .exchange (0x03000000#32 ||| a0) none, .ctrl 2 0#8]

theorem flashMemcpy_eq (a0 a1 a2 : BitVec 32) :
    flashMemcpy a0 a1 a2 = request a0 ++ (copyLoop (copyTurns a2) a1 ++
      ((if a2.toNat % 4 = 0 then [] else
        [.ctrl 0 0#8, .ctrl 2 1#8] ++
          remainderLoop (a2.toNat % 4) (a1 + 4#32 * BitVec.ofNat 32 (copyTurns a2))) ++
      [.ctrl 3 0#8])) := rfl

/-- The read command is sent, and nothing is stored. -/
theorem request_spec (content : BitVec 24 → BitVec 8) (hy : Quiet y.spi) (hchip : y.slave.bits = 0)
    (a0 : BitVec 32) :
    let r := exec (flashChip content) (request a0) y
    Reading (0x03000000#32 ||| a0) 0 r.1 ∧ r.1.spi.regBitcount = 31#5 ∧
      r.1.spi.regBigEndian = false ∧ r.2 = [] := by
  intro r
  -- the control register
  have h1 := clock_ctrl_ss (flashChip content) hy
  set y1 : SpiSystem FlashChip := { y with spi := { y.spi with regSs := 0#2 } } with hy1
  have hq1 : Quiet y1.spi := ⟨hy.state, hy.wrhold, hy.rdhold⟩
  have h2 := clock_ctrl_endian (flashChip content) hq1 1#8
  set y2 : SpiSystem FlashChip :=
    { y1 with spi := { y1.spi with regBigEndian := (1#8).getLsbD 0 } } with hy2
  have hq2 : Quiet y2.spi := ⟨hy.state, hy.wrhold, hy.rdhold⟩
  have h3 := clock_ctrl_length (flashChip content) hq2 3#8
  set y3 : SpiSystem FlashChip :=
    { y2 with spi := { y2.spi with regBitcount := Spi.lengthBits ((3#8).setWidth 32) } } with hy3
  have hq3 : Quiet y3.spi := ⟨hy.state, hy.wrhold, hy.rdhold⟩
  -- the command and the address
  obtain ⟨-, hq, hslave, -, -, hbits, -, hsel⟩ := exchangedBy_spec (flashChip content) hq3 rfl
    (show DataStore (storeBus (0x03000000#32 ||| a0)) from ⟨rfl, rfl, rfl⟩)
  have hchip3 : y3.slave.bits = 0 := hchip
  have hbits3 : y3.spi.regBitcount.toNat + 1 = 32 := rfl
  have hword : y3.spi.wdataEndian (storeBus (0x03000000#32 ||| a0)).wdata =
      0x03000000#32 ||| a0 := rfl
  rw [hbits3, hword, flashChip_header content _ _ (by rw [hchip3, length_topBits]), hchip3,
    length_topBits, shiftIn_topBits] at hslave
  have hread : Reading (0x03000000#32 ||| a0) 0
      (exchanged (flashChip content) y3 (0x03000000#32 ||| a0)) :=
    ⟨hq, hsel.regSs, hslave⟩
  obtain ⟨hread', hbits', hbig'⟩ := hread.ctrl_endian content 0#8
  have hr : r = ((exchanged (flashChip content) y3 (0x03000000#32 ||| a0)).clock
      (flashChip content) (ctrlBus 2 0#8), []) := by
    show exec (flashChip content) (request a0) y = _
    simp only [request, exec, h1, h2, h3, storesOf, List.append_nil]
  rw [hr]
  exact ⟨hread', hbits'.trans hbits, hbig', rfl⟩

/-- The address of a byte, as the flash sees it. -/
theorem content_request (content : BitVec 24 → BitVec 8) (a0 : BitVec 32) (k : ℕ) :
    content ((0x03000000#32 ||| a0).setWidth 24 + BitVec.ofNat 24 k) =
      content (BitVec.ofNat 24 (a0.toNat + k)) := by
  have haddr : (0x03000000#32 ||| a0).setWidth 24 = BitVec.ofNat 24 a0.toNat := by
    rw [BitVec.setWidth_or, BitVec.ofNat_toNat]
    simp
  rw [haddr, BitVec.ofNat_add]

/-- **What is stored**, for every size with at least one whole word. -/
theorem flashMemcpy_stores (content : BitVec 24 → BitVec 8) (hy : Quiet y.spi)
    (hchip : y.slave.bits = 0) {a0 a2 : BitVec 32} (ha : a0.toNat + a2.toNat ≤ 2 ^ 24)
    (hsize : 4 ≤ a2.toNat) (a1 : BitVec 32) :
    stored (exec (flashChip content) (flashMemcpy a0 a1 a2) y).2 =
      (List.range a2.toNat).map fun k =>
        (a1 + BitVec.ofNat 32 k, content (BitVec.ofNat 24 (a0.toNat + k))) := by
  have hcmd : (0x03000000#32 ||| a0).extractLsb' 24 8 = 0x03#8 := by
    have ha0 : a0.extractLsb' 24 8 = 0#8 := by
      apply BitVec.eq_of_toNat_eq
      rw [BitVec.extractLsb'_toNat, Nat.shiftRight_eq_div_pow,
        Nat.div_eq_of_lt (show a0.toNat < 2 ^ 24 by omega)]
      rfl
    rw [BitVec.extractLsb'_or, ha0, BitVec.or_zero]
    rfl
  have hturns : copyTurns a2 = a2.toNat / 4 := if_neg (by omega)
  obtain ⟨hread, hbits, hbig, hnone⟩ := request_spec content hy hchip a0
  -- the words
  obtain ⟨hwords, hloop⟩ := exchangeLoop_stores content hread hcmd
    (by rw [hbits]; rfl) hbig stored_word (copyTurns a2) a1
  set z := (exec (flashChip content) (request a0) y).1 with hz
  set z' := (exec (flashChip content) (copyLoop (copyTurns a2) a1) z).1 with hz'
  rw [flashMemcpy_eq, exec_append, exec_append, ← hz, ← hz', hnone, List.nil_append, stored_append]
  have hloop' : stored (exec (flashChip content) (copyLoop (copyTurns a2) a1) z).2 = _ := hloop
  rw [hloop']
  -- the bytes of the remainder
  have hrest : stored (exec (flashChip content) ((if a2.toNat % 4 = 0 then [] else
      [.ctrl 0 0#8, .ctrl 2 1#8] ++
        remainderLoop (a2.toNat % 4) (a1 + 4#32 * BitVec.ofNat 32 (copyTurns a2))) ++
      [.ctrl 3 0#8]) z').2 = (List.range (a2.toNat % 4)).map fun k =>
        (a1 + 4#32 * BitVec.ofNat 32 (copyTurns a2) + BitVec.ofNat 32 k,
          content ((0x03000000#32 ||| a0).setWidth 24 +
            BitVec.ofNat 24 (0 + 4 * copyTurns a2 + k))) := by
    by_cases h0 : a2.toNat % 4 = 0
    · rw [if_pos h0, h0]
      rfl
    · obtain ⟨hread1, hbits1⟩ := Reading.ctrl_length content hwords 0#8
      obtain ⟨hread2, hbits2, hbig2⟩ := hread1.ctrl_endian content 1#8
      obtain ⟨-, hbytes⟩ := exchangeLoop_stores content hread2 hcmd
        (by rw [hbits2, hbits1]; rfl) hbig2 stored_byte (a2.toNat % 4)
        (a1 + 4#32 * BitVec.ofNat 32 (copyTurns a2))
      rw [if_neg h0, exec_append, stored_append]
      rw [Nat.one_mul] at hbytes
      refine (congrArg (· ++ _) hbytes).trans ?_
      exact List.append_nil _
  rw [hrest]
  have hsplit : List.range a2.toNat = List.range (4 * copyTurns a2) ++
      (List.range (a2.toNat % 4)).map (4 * copyTurns a2 + ·) := by
    rw [← List.range_add, hturns, Nat.div_add_mod]
  rw [hsplit, List.map_append, List.map_map]
  refine congrArg₂ (· ++ ·) ?_ ?_
  · apply List.map_congr_left
    intro k _
    rw [content_request content, Nat.zero_add]
  · apply List.map_congr_left
    intro k _
    have haddr : BitVec.ofNat 32 (4 * copyTurns a2 + k) =
        4#32 * BitVec.ofNat 32 (copyTurns a2) + BitVec.ofNat 32 k := by
      rw [BitVec.ofNat_add, BitVec.ofNat_mul]
    rw [Function.comp_apply, content_request content, Nat.zero_add, BitVec.add_assoc, haddr]

/-- The first word is stored whatever the size. -/
theorem first_word (content : BitVec 24 → BitVec 8) (a0 a1 a2 : BitVec 32) {k : ℕ} (hk : k < 4) :
    ∃ p ∈ stored (exec (flashChip content) (flashMemcpy a0 a1 a2) y).2,
      p.1 = a1 + BitVec.ofNat 32 k := by
  obtain ⟨n, hn⟩ : ∃ n, copyTurns a2 = n + 1 := by
    refine ⟨copyTurns a2 - 1, ?_⟩
    have : 0 < copyTurns a2 := by
      rw [copyTurns]
      split_ifs <;> omega
    omega
  rw [flashMemcpy_eq, exec_append, exec_append, hn]
  set z := (exec (flashChip content) (request a0) y).1
  set data := (exchanged (flashChip content) z 0xFFFFFFFF#32).spi.rdata
  have hmem : ⟨a1, false, data⟩ ∈ (exec (flashChip content) (copyLoop (n + 1) a1) z).2 := by
    rw [copyLoop, exchangeLoop, exec_exchange, storesOf]
    simp only [Bool.false_eq_true, if_false, List.singleton_append]
    exact List.mem_cons_self
  have hbyte : (a1 + BitVec.ofNat 32 k, data.extractLsb' (8 * k) 8) ∈
      MemStore.bytes ⟨a1, false, data⟩ := by
    rw [MemStore.bytes, if_neg Bool.false_ne_true, List.mem_map]
    refine ⟨k, List.mem_range.mpr hk, ?_⟩
    dsimp only
  refine ⟨(a1 + BitVec.ofNat 32 k, data.extractLsb' (8 * k) 8), ?_, rfl⟩
  apply List.mem_flatMap.mpr
  exact ⟨_, List.mem_append_right _ (List.mem_append_left _ hmem), hbyte⟩

/-- With its loads in time `flash_memcpy` returns. -/
theorem run_flashMemcpy (content : BitVec 24 → BitVec 8) (hy : Quiet y.spi) {gaps : ℕ → Gap}
    {a2 : BitVec 32} (hgaps : LoadsInTime gaps a2) (a0 a1 : BitVec 32) :
    run (flashChip content) gaps 0 (flashMemcpy a0 a1 a2) y =
      some (exec (flashChip content) (flashMemcpy a0 a1 a2) y) :=
  run_eq_exec (flashChip content) hy
    ((inTime_flashMemcpy_iff a0 a1 a2 y.spi.regBitcount).mpr hgaps)

/-- With less than a word to copy, the byte just behind the destination is stored as well. -/
theorem small_not_copies (content : BitVec 24 → BitVec 8) (hy : Quiet y.spi) {gaps : ℕ → Gap}
    {a0 a1 a2 : BitVec 32} (hgaps : LoadsInTime gaps a2) (hsmall : a2.toNat < 4) :
    ¬∃ z stores, run (flashChip content) gaps 0 (flashMemcpy a0 a1 a2) y = some (z, stores) ∧
      Copies content a0 a1 a2.toNat stores := by
  rintro ⟨z, stores, hz, -, hinside⟩
  rw [run_flashMemcpy content hy hgaps, Option.some_inj] at hz
  obtain ⟨p, hp, haddr⟩ := first_word (y := y) content a0 a1 a2 hsmall
  rw [hz] at hp
  obtain ⟨i, hi, hpi⟩ := hinside p hp
  have := Ring.add_ofNat_inj (by omega) (by omega) (haddr.symm.trans hpi)
  omega

/-- **`flash_memcpy` copies what it is asked for exactly when this is a word or more.**  For every
content of the flash, every source that the flash has, and every destination, from any state in
which no transfer goes on and the flash has seen no bit since it was selected, when every load comes
before its transfer has ended: `flash_memcpy` returns, and has stored the bytes of the flash and
nothing else. -/
theorem flashMemcpy_copies_iff (content : BitVec 24 → BitVec 8) (hy : Quiet y.spi)
    (hchip : y.slave.bits = 0) {gaps : ℕ → Gap} {a0 a1 a2 : BitVec 32}
    (ha : a0.toNat + a2.toNat ≤ 2 ^ 24) (hgaps : LoadsInTime gaps a2) :
    (∃ z stores, run (flashChip content) gaps 0 (flashMemcpy a0 a1 a2) y = some (z, stores) ∧
      Copies content a0 a1 a2.toNat stores) ↔ 4 ≤ a2.toNat := by
  constructor
  · intro h
    by_contra hsmall
    exact small_not_copies content hy hgaps (by omega) h
  · intro hsize
    have hrun := run_flashMemcpy content hy hgaps a0 a1
    have hstores := flashMemcpy_stores content hy hchip ha hsize a1
    generalize exec (flashChip content) (flashMemcpy a0 a1 a2) y = r at hrun hstores
    refine ⟨r.1, r.2, hrun, fun mem i hi => ?_, fun p hp => ?_⟩
    · rw [hstores]
      exact storeBytes_range mem a1 (fun k => content (BitVec.ofNat 24 (a0.toNat + k))) (by omega)
        hi
    · rw [hstores] at hp
      obtain ⟨k, hk, rfl⟩ := List.mem_map.mp hp
      exact ⟨k, List.mem_range.mp hk, rfl⟩

/-- Loads that the processor makes at its own pace are in time. -/
theorem loadsInTime_pace (a2 : BitVec 32) : LoadsInTime (fun _ => ⟨3, 3⟩) a2 :=
  ⟨(by decide : 3 ≤ 31), fun _ _ => (by decide : 3 ≤ 31), fun _ _ => (by decide : 3 ≤ 7)⟩

/-- Six bytes: a word and two bytes of remainder. -/
theorem sixBytes_copied :
    ∃ z stores, run (flashChip (BitVec.setWidth 8)) (fun _ => ⟨3, 3⟩) 0
        (flashMemcpy 0x100#32 0x12000#32 6#32) resetSystem = some (z, stores) ∧
      Copies (BitVec.setWidth 8) 0x100#32 0x12000#32 6 stores :=
  (flashMemcpy_copies_iff (y := resetSystem) (BitVec.setWidth 8) ⟨rfl, rfl, rfl⟩ rfl (by decide)
    (loadsInTime_pace 6#32)).mpr (by decide)

/-- A program segment of one byte. -/
theorem oneByte_not_copied :
    ¬∃ z stores, run (flashChip (BitVec.setWidth 8)) (fun _ => ⟨3, 3⟩) 0
        (flashMemcpy 0x100#32 0x12000#32 1#32) resetSystem = some (z, stores) ∧
      Copies (BitVec.setWidth 8) 0x100#32 0x12000#32 1 stores :=
  small_not_copies (y := resetSystem) (BitVec.setWidth 8) ⟨rfl, rfl, rfl⟩ (loadsInTime_pace 1#32)
    (by decide)

end

end Filestick.SpiFlash
