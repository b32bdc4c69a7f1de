import Filestick.Rtl.Equiv.EconetRxBuffered
import Filestick.Rtl.Equiv.EconetRxPhy
import Mathlib.Data.List.GetD

/-!
# The address filter of the buffered receiver

The first six bytes of a frame are latched in `frame_address` at the index that the 11-bit byte
counter gives, on every clock of the frame.  `Latched f bytes` says which bytes of the frame `bytes`
the latches `f` hold: the counter starts again every 2048 bytes, and with it the latches.  While a
frame is being received the latches keep `Latched` (`LatchInv`), so a frame of fewer than 2048 bytes
is accepted by its own first bytes (`raisedFrame_addressed`), and `longFrame_misaddressed` is one of
2050 bytes that is not.
-/

namespace Filestick

open Hdlc Machine

/-! ### The latches -/

/-- The latches hold the bytes of the frame since the counter was last zero: cell `i` has byte `i`
of these once it has been counted. -/
def Latched (f : BitVec 11 → BitVec 8) (bytes : List (BitVec 8)) : Prop :=
  ∀ i q, i < 6 → 2048 * q + i < bytes.length → bytes.length < 2048 * (q + 1) →
    f (BitVec.ofNat 11 i) = bytes.getD (2048 * q + i) 0#8

/-- The clock of the latches, at a counter of `n` bytes. -/
def latch (f : BitVec 11 → BitVec 8) (n : BitVec 11) (rxByte : BitVec 8) : BitVec 11 → BitVec 8 :=
  if n < 6#11 then Function.update f n rxByte else f

theorem latched_nil (f : BitVec 11 → BitVec 8) : Latched f [] := by
  intro i q _ hlt
  exact absurd hlt (Nat.not_lt_zero _)

/-- The cell that the counter points to is written with whatever is on `rx_byte`. -/
theorem latch_apply_self (f : BitVec 11 → BitVec 8) {n i : ℕ} (hi : i < 6) (hn : n % 2048 = i)
    (b : BitVec 8) : latch f (BitVec.ofNat 11 n) b (BitVec.ofNat 11 i) = b := by
  have heq : BitVec.ofNat 11 n = BitVec.ofNat 11 i := by
    apply BitVec.eq_of_toNat_eq
    rw [BitVec.toNat_ofNat, BitVec.toNat_ofNat]
    omega
  have hlt : BitVec.ofNat 11 i < 6#11 := by
    rw [BitVec.lt_def, BitVec.toNat_ofNat, BitVec.toNat_ofNat]
    omega
  rw [latch, heq, if_pos hlt, Function.update_self]

/-- The other cells are kept. -/
theorem latch_apply_of_ne (f : BitVec 11 → BitVec 8) {n i : ℕ} (hi : i < 6) (hn : n % 2048 ≠ i)
    (b : BitVec 8) : latch f (BitVec.ofNat 11 n) b (BitVec.ofNat 11 i) = f (BitVec.ofNat 11 i) := by
  unfold latch
  split
  · apply Function.update_of_ne
    intro heq
    have := congrArg BitVec.toNat heq
    rw [BitVec.toNat_ofNat, BitVec.toNat_ofNat] at this
    omega
  · rfl

/-- A clock without a strobe writes a cell whose byte has not been counted yet. -/
theorem Latched.keep {f : BitVec 11 → BitVec 8} {bytes : List (BitVec 8)} (h : Latched f bytes)
    (b : BitVec 8) : Latched (latch f (BitVec.ofNat 11 bytes.length) b) bytes := by
  intro i q hi hlt hgt
  rw [latch_apply_of_ne f hi (by omega)]
  exact h i q hi hlt hgt

/-- A clock with a strobe writes the cell of the byte that it counts. -/
theorem Latched.push {f : BitVec 11 → BitVec 8} {bytes : List (BitVec 8)} (h : Latched f bytes)
    (b : BitVec 8) : Latched (latch f (BitVec.ofNat 11 bytes.length) b) (bytes ++ [b]) := by
  intro i q hi hlt hgt
  rw [List.length_append, List.length_singleton] at hlt hgt
  rcases Nat.lt_or_ge (2048 * q + i) bytes.length with hold | hnew
  · rw [latch_apply_of_ne f hi (by omega), h i q hi hold (by omega), List.getD_append _ _ _ _ hold]
  · obtain hidx : 2048 * q + i = bytes.length := by omega
    rw [latch_apply_self f hi (by omega), hidx]
    simp

/-! ### The invariant -/

/-- The link is between the report of a start and that of the end. -/
def RxPhy.InFrame (s : RxPhy) : Prop := s.phyState = .sync ∨ s.endSync = true

/-- The link is in a frame after an edge, or reports its end, only if it was in it before. -/
theorem RxPhy.Inv.inFrame_of_step {s : RxPhy} (h : s.Inv) (b inhibit : Bool)
    (hin : (s.step b inhibit).InFrame ∨ (s.step b inhibit).frameEnd = true)
    (hfs : (s.step b inhibit).frameStart = false) : s.InFrame ∧ s.frameEnd = false := by
  have hfe : s.phyState ≠ .idle → s.frameEnd = false := by
    intro hne
    by_contra hfe
    exact hne (h.frameEnd (by simpa using hfe)).1
  unfold RxPhy.InFrame at hin ⊢
  unfold RxPhy.step at hin hfs
  split at hin
  next hs =>
    simp only [RxPhy.stepIdle] at hin
    split_ifs at hin <;> simp_all
  next hs =>
    refine ⟨Or.inr ?_, hfe (by simp [hs])⟩
    unfold RxPhy.stepRxSync at hin hfs
    by_contra hend
    split_ifs at hin hfs <;> simp_all
  next hs => exact ⟨Or.inl hs, hfe (by simp [hs])⟩
  next hs =>
    have hfe := hfe (by simp [hs])
    refine ⟨Or.inr ?_, hfe⟩
    unfold RxPhy.stepWaitIdle at hin
    split_ifs at hin <;> simp_all

/-- While a frame is being received the latches are enabled and hold its bytes, and they are as the
last byte left them when its end is reported. -/
structure LatchInv (m : BufferedEconet) (g : FrameLog) : Prop where
  frameState : m.econet.receiver.frameStart = false → m.econet.receiver.InFrame →
    m.econet.receiver.frameEnd = false → m.regs.frameState = .rx
  latched : m.econet.receiver.frameStart = false →
    m.econet.receiver.InFrame ∨ m.econet.receiver.frameEnd = true →
    Latched m.regs.frameAddress g.bytes

theorem LatchInv.afterReset {m : BufferedEconet} (h : m.AfterReset) : LatchInv m .empty := by
  constructor
  · intro _ hin
    simp [h.receiver, RxPhy.reset, RxPhy.InFrame] at hin
  · intro _ _
    exact latched_nil _

/-- The edge that takes in the report of an opening flag enables the latches. -/
theorem LatchInv.clk_start {m : BufferedEconet} {g : FrameLog} (hrx : RxInv m g)
    (hfs : m.econet.receiver.frameStart = true) (b inhibit validRst : Bool) :
    LatchInv (m.step (.clk b inhibit validRst)) (g.clock m.econet.signals) := by
  have hend : m.econet.receiver.frameEnd = false := (hrx.receiver.frameStart hfs).2.1
  constructor
  · intro _ _ hend'
    have hend' : (m.econet.receiver.step b inhibit).frameEnd = false := hend'
    have hstate : m.regs.clockFrameState m.econet.signals = .rx := by
      unfold RxRegs.clockFrameState
      cases m.regs.frameState <;> simp [Econet.signals, hfs, hend]
    simp [hend', hstate]
  · intro _ _
    simpa [FrameLog.clock, Econet.signals, hfs] using latched_nil _

/-- Any other edge in a frame takes in the strobed byte, if there is one. -/
theorem LatchInv.clk_data {m : BufferedEconet} {g : FrameLog} (h : LatchInv m g) (hrx : RxInv m g)
    (hfs : m.econet.receiver.frameStart = false) (b inhibit validRst : Bool) :
    LatchInv (m.step (.clk b inhibit validRst)) (g.clock m.econet.signals) := by
  have hactive : ∀ hfs' : (m.econet.receiver.step b inhibit).frameStart = false,
      ((m.econet.receiver.step b inhibit).InFrame ∨
        (m.econet.receiver.step b inhibit).frameEnd = true) →
      m.econet.receiver.frameEnd = false ∧ m.regs.frameState = .rx ∧
        Latched m.regs.frameAddress g.bytes ∧
        m.regs.econetCtr = BitVec.ofNat 11 g.bytes.length := by
    intro hfs' hin
    obtain ⟨hin, hend⟩ := hrx.receiver.inFrame_of_step b inhibit hin hfs'
    have hopened : g.opened = true := by
      have := hrx.opened (hin.imp_right Or.inl)
      simpa [hfs] using this
    exact ⟨hend, h.frameState hfs hin hend, h.latched hfs (Or.inl hin), hrx.econetCtr hfs hopened⟩
  constructor
  · intro hfs' hin hend'
    have hend' : (m.econet.receiver.step b inhibit).frameEnd = false := hend'
    obtain ⟨hend, hstate, -, -⟩ := hactive hfs' (Or.inl hin)
    have hstate' : m.regs.clockFrameState m.econet.signals = .rx := by
      simp [RxRegs.clockFrameState, Econet.signals, hend, hstate]
    simp [hend', hstate']
  · intro hfs' hin
    obtain ⟨hend, hstate, hlatched, hctr⟩ := hactive hfs' hin
    have haddr : (m.step (.clk b inhibit validRst)).regs.frameAddress
        = latch m.regs.frameAddress (BitVec.ofNat 11 g.bytes.length) m.econet.receiver.dataOut := by
      simp [RxRegs.clockFrameAddress, Econet.signals, hend, hstate, hctr, latch]
    rw [haddr]
    cases hstrobe : m.econet.receiver.dataStrobe with
    | true =>
      simpa [FrameLog.clock, Econet.signals, hfs, hstrobe]
        using hlatched.push m.econet.receiver.dataOut
    | false =>
      simpa [FrameLog.clock, Econet.signals, hfs, hstrobe]
        using hlatched.keep m.econet.receiver.dataOut

theorem LatchInv.clk {m : BufferedEconet} {g : FrameLog} (h : LatchInv m g) (hrx : RxInv m g)
    (b inhibit validRst : Bool) :
    LatchInv (m.step (.clk b inhibit validRst)) (g.clock m.econet.signals) := by
  cases hfs : m.econet.receiver.frameStart with
  | true => exact LatchInv.clk_start hrx hfs b inhibit validRst
  | false => exact h.clk_data hrx hfs b inhibit validRst

theorem stepLogged_latchInv (p : BufferedEconet × FrameLog) (i : RxInput)
    (h : RxInv p.1 p.2 ∧ LatchInv p.1 p.2) :
    RxInv (stepLogged p i).1 (stepLogged p i).2 ∧
    LatchInv (stepLogged p i).1 (stepLogged p i).2 := by
  obtain ⟨hrx, hl⟩ := h
  cases i with
  | clk b inhibit validRst => exact ⟨hrx.clk b inhibit validRst, hl.clk hrx b inhibit validRst⟩
  | sysWrite a wr d => exact ⟨hrx.sysWrite a wr d, ⟨hl.frameState, hl.latched⟩⟩

/-- **The latches hold the bytes of the frame after every run from reset.** -/
theorem latchInv_run {m : BufferedEconet} (h : m.AfterReset) (is : List RxInput) :
    LatchInv (m.run is) (frameLog m is) := by
  have hrun := Machine.run_invariant_of_step (I := fun p => RxInv p.1 p.2 ∧ LatchInv p.1 p.2)
    stepLogged_latchInv is (s := (m, FrameLog.empty)) ⟨RxInv.afterReset h, LatchInv.afterReset h⟩
  rw [run_stepLogged_fst] at hrun
  exact hrun.2

/-! ### Accepted frames -/

/-- The check sequence is two bytes, so a shorter frame does not pass the check. -/
theorem two_le_length_of_good {bytes : List (BitVec 8)} (h : Fcs.ofBytes bytes = Fcs.fcsGood) :
    2 ≤ bytes.length := by
  have hone : ∀ b : BitVec 8, Fcs.update Fcs.fcsInit b ≠ Fcs.fcsGood := by decide +kernel
  match bytes with
  | [] => exact absurd h (by decide)
  | [b] => exact absurd h (hone b)
  | _ :: _ :: _ => simp

/-- The frame `bytes` is for the station and net of `address` and passes the check, and a frame of
at least six bytes has its addresses in the reply register and its flag and port in the scout
register. -/
structure AddressedFrame (bytes : List (BitVec 8)) (address : BitVec 16) (r : RxRegs) : Prop where
  station : bytes[0]? = some (address.extractLsb' 0 8)
  net : bytes[1]? = some (address.extractLsb' 8 8)
  fcs : Fcs.ofBytes bytes = Fcs.fcsGood
  replyAddress : 6 ≤ bytes.length → r.replyAddress
    = bytes.getD 1 0#8 ++ bytes.getD 0 0#8 ++ bytes.getD 3 0#8 ++ bytes.getD 2 0#8
  scoutData : 6 ≤ bytes.length →
    r.scoutData = (bytes.getD 4 0#8 ++ bytes.getD 5 0#8).setWidth 32

/-- With monitor mode off, only the edge that takes in a frame for this station raises
`sys_frame_valid`. -/
theorem ourFrame_of_raised {m : BufferedEconet} {i : RxInput} (hmon : m.regs.monitorMode = false)
    (hlow : m.regs.sysFrameValid = false) (hraise : (m.step i).regs.sysFrameValid = true) :
    m.ourFrame = true ∧ ∃ b inhibit, i = .clk b inhibit false := by
  cases i with
  | sysWrite a wr d =>
    simp [BufferedEconet.step, RxRegs.sysWrite, hlow] at hraise
  | clk b inhibit validRst =>
    have hours : validRst = false ∧ m.regs.ourFrame m.econet.signals = true := by
      simpa [RxRegs.monitorFrame, hmon, hlow] using hraise
    exact ⟨hours.2, b, inhibit, by rw [hours.1]⟩

/-- The order of the bytes in the reply register. -/
theorem replyOrder (a3 a2 a1 a0 : BitVec 8) :
    (a3 ++ a2 ++ a1 ++ a0).extractLsb' 8 8 ++ (a3 ++ a2 ++ a1 ++ a0).extractLsb' 0 8
        ++ (a3 ++ a2 ++ a1 ++ a0).extractLsb' 24 8 ++ (a3 ++ a2 ++ a1 ++ a0).extractLsb' 16 8
      = a1 ++ a0 ++ a3 ++ a2 := by
  have h0 : (a3 ++ a2 ++ a1 ++ a0).extractLsb' 0 8 = a0 := by
    rw [BitVec.extractLsb'_append_eq_of_add_le (by omega), BitVec.extractLsb'_eq_self]
  have h1 : (a3 ++ a2 ++ a1 ++ a0).extractLsb' 8 8 = a1 := by
    rw [BitVec.extractLsb'_append_eq_of_le (by omega),
      BitVec.extractLsb'_append_eq_of_add_le (by omega), BitVec.extractLsb'_eq_self]
  have h2 : (a3 ++ a2 ++ a1 ++ a0).extractLsb' 16 8 = a2 := by
    rw [BitVec.extractLsb'_append_eq_of_le (by omega),
      BitVec.extractLsb'_append_eq_of_le (by omega),
      BitVec.extractLsb'_append_eq_of_add_le (by omega), BitVec.extractLsb'_eq_self]
  have h3 : (a3 ++ a2 ++ a1 ++ a0).extractLsb' 24 8 = a3 := by
    rw [BitVec.extractLsb'_append_eq_of_le (by omega),
      BitVec.extractLsb'_append_eq_of_le (by omega),
      BitVec.extractLsb'_append_eq_of_le (by omega), BitVec.extractLsb'_eq_self]
  rw [h0, h1, h2, h3]

/-- What the edge that takes in a frame for this station latches. -/
theorem latched_of_ourFrame {m : BufferedEconet} (hours : m.ourFrame = true) (b inhibit : Bool) :
    (m.step (.clk b inhibit false)).regs.replyAddress
        = m.regs.frameAddress 1 ++ m.regs.frameAddress 0
          ++ m.regs.frameAddress 3 ++ m.regs.frameAddress 2 ∧
      (m.step (.clk b inhibit false)).regs.scoutData
        = (m.regs.frameAddress 4 ++ m.regs.frameAddress 5).setWidth 32 := by
  have hours : m.regs.ourFrame m.econet.signals = true := hours
  obtain ⟨-, -, -, haddress, hscout⟩ :=
    step_clk_latchValid m b inhibit (by rw [hours, Bool.true_or])
  rw [RxRegs.replyAddress, RxRegs.scoutData, haddress, hscout]
  refine ⟨?_, rfl⟩
  exact replyOrder _ _ _ _

/-- The conditions under which a frame is ours, in the words of the record. -/
theorem RxInv.of_ourFrame {m : BufferedEconet} {g : FrameLog} (h : RxInv m g)
    (hours : m.ourFrame = true) :
    m.econet.receiver.frameEnd = true ∧ Fcs.ofBytes g.bytes = Fcs.fcsGood ∧
      m.regs.econetAddress.extractLsb' 0 8 = m.regs.frameAddress 0 ∧
      m.regs.econetAddress.extractLsb' 8 8 = m.regs.frameAddress 1 := by
  obtain ⟨hfs, hopened⟩ := h.opened_of_ourFrame hours
  simp only [BufferedEconet.ourFrame, RxRegs.ourFrame, Econet.signals, Bool.and_eq_true,
    beq_iff_eq] at hours
  obtain ⟨⟨⟨hend, hfcs⟩, h0⟩, h1⟩ := hours
  exact ⟨hend, (h.rxFcs hfs hopened).symm.trans hfcs, h0, h1⟩

/-- **Address filter.** After every run from reset, with monitor mode off, `sys_frame_valid` is
raised only by the end of a frame that is for the address of this station and passes the check, and
the reply and scout registers then hold its own bytes, provided that fewer than 2048 bytes were
strobed since its opening flag. -/
theorem raisedFrame_addressed (m : BufferedEconet) (hreset : m.AfterReset) (is : List RxInput)
    (i : RxInput) (hmon : (m.run is).regs.monitorMode = false)
    (hlow : (m.run is).regs.sysFrameValid = false)
    (hraise : ((m.run is).step i).regs.sysFrameValid = true)
    (hlen : (frameLog m is).bytes.length < 2048) :
    (m.run is).econet.receiver.frameEnd = true ∧
      AddressedFrame (frameLog m is).bytes (m.run is).regs.econetAddress
        ((m.run is).step i).regs := by
  obtain ⟨hours, b, inhibit, rfl⟩ := ourFrame_of_raised hmon hlow hraise
  have hrx := rxInv_run hreset is
  obtain ⟨hend, hfcs, h0, h1⟩ := hrx.of_ourFrame hours
  have htwo := two_le_length_of_good hfcs
  have hcell : ∀ i, i < 6 → i < (frameLog m is).bytes.length →
      (m.run is).regs.frameAddress (BitVec.ofNat 11 i) = (frameLog m is).bytes.getD i 0#8 := by
    intro i hi hlt
    have := (latchInv_run hreset is).latched (hrx.opened_of_ourFrame hours).1 (Or.inr hend) i 0 hi
      (by omega) (by omega)
    simpa using this
  obtain ⟨hreply, hscout⟩ := latched_of_ourFrame hours b inhibit
  refine ⟨hend, ?_, ?_, hfcs, ?_, ?_⟩
  · rw [h0]
    have := hcell 0 (by omega) (by omega)
    rw [List.getD_eq_getElem _ _ (by omega)] at this
    rw [List.getElem?_eq_getElem (by omega), ← this]
    rfl
  · rw [h1]
    have := hcell 1 (by omega) (by omega)
    rw [List.getD_eq_getElem _ _ (by omega)] at this
    rw [List.getElem?_eq_getElem (by omega), ← this]
    rfl
  · intro hsix
    rw [hreply, ← hcell 0 (by omega) (by omega), ← hcell 1 (by omega) (by omega),
      ← hcell 2 (by omega) (by omega), ← hcell 3 (by omega) (by omega)]
    rfl
  · intro hsix
    rw [hscout, ← hcell 4 (by omega) (by omega), ← hcell 5 (by omega) (by omega)]
    rfl

/-- The acknowledgement raises `sys_frame_valid` at the station that it is for. -/
theorem ackFrame_addressed :
    AddressedFrame ackFrame 0x0042#16
      (((BufferedEconet.powerUp 0x0042#16).run (BufferedEconet.samples (frameOnLine ackFrame))).step
        (.clk true false false)).regs := by
  have hlog : (frameLog (BufferedEconet.powerUp 0x0042#16)
      (BufferedEconet.samples (frameOnLine ackFrame))) = ⟨true, true, ackFrame⟩ := by decide +kernel
  have haddr : ((BufferedEconet.powerUp 0x0042#16).run
      (BufferedEconet.samples (frameOnLine ackFrame))).regs.econetAddress = 0x0042#16 := by
    decide +kernel
  have := (raisedFrame_addressed (BufferedEconet.powerUp 0x0042#16)
    (BufferedEconet.afterReset_powerUp _) (BufferedEconet.samples (frameOnLine ackFrame))
    (.clk true false false) (by decide +kernel) (by decide +kernel) (by decide +kernel)
    (by rw [hlog]; decide)).2
  rwa [hlog, haddr] at this

/-! ### The record of a frame on a clean line -/

/-- The bytes among the reports. -/
def strobed (es : List RxEvent) : List (BitVec 8) :=
  es.filterMap fun
    | .byte b => some b
    | _ => none

/-- Samples reach the link and leave the registers that the processor writes. -/
theorem run_samples (m : BufferedEconet) (bits : List Bool) :
    (m.run (BufferedEconet.samples bits)).econet.receiver = rxRun m.econet.receiver bits ∧
      (m.run (BufferedEconet.samples bits)).regs.monitorMode = m.regs.monitorMode ∧
      (m.run (BufferedEconet.samples bits)).regs.econetAddress = m.regs.econetAddress := by
  induction bits generalizing m with
  | nil => exact ⟨rfl, rfl, rfl⟩
  | cons b bits ih =>
    obtain ⟨h1, h2, h3⟩ := ih (m.step (.clk b false false))
    exact ⟨h1, h2.trans (step_clk_monitorMode m b false false),
      h3.trans (step_clk_econetAddress m b false false)⟩

/-- The record after an edge that takes in no report of a start. -/
theorem FrameLog.clock_of_events (g : FrameLog) (e : Econet)
    (h : RxEvent.frameStart ∉ e.receiver.events) :
    g.clock e.signals = { g with bytes := g.bytes ++ strobed e.receiver.events } := by
  unfold RxPhy.events at h ⊢
  unfold FrameLog.clock Econet.signals
  cases hs : e.receiver.frameStart <;> cases hd : e.receiver.dataStrobe <;>
    cases he : e.receiver.frameEnd <;> simp_all [strobed]

/-- Samples that report no start add the strobed bytes to the record, once the reports after the
last of them have been taken in. -/
theorem log_samples (p : BufferedEconet × FrameLog) (bits : List Bool)
    (h : RxEvent.frameStart ∉ rxEvents p.1.econet.receiver bits) :
    let p' := Machine.run stepLogged p (BufferedEconet.samples bits)
    p'.2.clock p'.1.econet.signals =
      { p.2.clock p.1.econet.signals with
        bytes := (p.2.clock p.1.econet.signals).bytes
          ++ strobed (rxEvents p.1.econet.receiver bits) } := by
  induction bits generalizing p with
  | nil => simp [BufferedEconet.samples, strobed]
  | cons b bits ih =>
    rw [rxEvents_cons, List.mem_append, not_or] at h
    have hnext := ih (stepLogged p (.clk b false false)) h.2
    have hstep : (stepLogged p (.clk b false false)).2.clock
        (stepLogged p (.clk b false false)).1.econet.signals = _ :=
      FrameLog.clock_of_events (p.2.clock p.1.econet.signals) (p.1.econet.step b false) h.1
    rw [hstep] at hnext
    rw [rxEvents_cons, strobed, List.filterMap_append, ← List.append_assoc]
    exact hnext

/-- An edge that takes in no end keeps `sys_frame_valid` low. -/
theorem sysFrameValid_clk {m : BufferedEconet} (hlow : m.regs.sysFrameValid = false)
    (hend : m.econet.receiver.frameEnd = false) (b : Bool) :
    (m.step (.clk b false false)).regs.sysFrameValid = false := by
  simp [RxRegs.ourFrame, RxRegs.monitorFrame, Econet.signals, hend, hlow]

/-- Until an end is reported `sys_frame_valid` stays low. -/
theorem sysFrameValid_samples (m : BufferedEconet) (bits : List Bool)
    (hlow : m.regs.sysFrameValid = false) (hend : m.econet.receiver.frameEnd = false)
    (h : RxEvent.frameEnd ∉ rxEvents m.econet.receiver bits) (b : Bool) :
    (m.run (BufferedEconet.samples (bits ++ [b]))).regs.sysFrameValid = false := by
  induction bits generalizing m with
  | nil => exact sysFrameValid_clk hlow hend b
  | cons b' bits ih =>
    rw [rxEvents_cons, List.mem_append, not_or] at h
    have hend' : (m.econet.receiver.step b' false).frameEnd = false := by
      by_contra hne
      exact h.1 (by simp [RxPhy.events, hne])
    exact ih (m.step (.clk b' false false)) (sysFrameValid_clk hlow hend b') hend' h.2

/-- The last bit of the closing flag. -/
theorem frameOnLine_concat (bs : List (BitVec 8)) :
    frameOnLine bs = (frameOnLine bs).dropLast ++ [false] := by
  have hflag : flag = flag.dropLast ++ [false] := rfl
  rw [frameOnLine, List.dropLast_append_of_ne_nil (by decide),
    List.append_assoc _ _ [false], ← hflag]

/-- The reports for a frame, up to the last bit of its closing flag, and the link after that bit. -/
theorem rxEvents_untilEnd {bs : List (BitVec 8)} (hbs : bs ≠ []) :
    rxEvents .reset (frameOnLine bs).dropLast = .frameStart :: (strobes 0 bs).map .byte ∧
      (rxRun .reset (frameOnLine bs)).frameEnd = true ∧
      (rxRun .reset (frameOnLine bs)).dataStrobe = false ∧
      (rxRun .reset (frameOnLine bs)).frameStart = false := by
  obtain ⟨hev0, h0⟩ := run_openingFlag 0
  obtain ⟨h1, -, hend1⟩ := Receiving.run_bytes bs 0 _ h0
  obtain ⟨-, hidle, hstrobe, hend⟩ := h1.run_flag (by omega) (hend1 hbs)
  have hrun : rxRun .reset (frameOnLine bs)
      = rxRun (rxRun (rxRun .reset flag) (stuff 0 (bytesBits bs))) flag := by
    rw [frameOnLine, rxRun_append, rxRun_append]
  rw [← hrun] at hidle hstrobe hend
  have hstart : (rxRun .reset (frameOnLine bs)).frameStart = false := by
    have hinv : (rxRun .reset (frameOnLine bs)).Inv :=
      run_invariant_of_step (fun s b hs => hs.step b false) _ RxPhy.Inv.reset
    by_contra hne
    have := (hinv.frameStart (by simpa using hne)).1
    rw [hidle] at this
    exact absurd this (by decide)
  refine ⟨?_, hend, hstrobe, hstart⟩
  have hall := rxEvents_frame hbs 0
  have hsplit := frameOnLine_concat bs
  have hlast : rxEvents (rxRun .reset (frameOnLine bs).dropLast) [false] = [.frameEnd] := by
    have : (rxRun .reset (frameOnLine bs).dropLast).step false false
        = rxRun .reset (frameOnLine bs) := by
      conv_rhs => rw [hsplit, rxRun_append]
      rfl
    simp [this, RxPhy.events, hend, hstrobe, hstart]
  have hall : rxEvents .reset (frameOnLine bs)
      = .frameStart :: (strobes 0 bs).map .byte ++ [.frameEnd] := by
    simpa [frameOnLine] using hall
  rw [hsplit, rxEvents_append, hlast] at hall
  exact List.append_cancel_right hall

/-- **A frame on a clean line is recorded as the bytes that the link strobes.** -/
theorem frameLog_frame (address : BitVec 16) {bs : List (BitVec 8)} (hbs : bs ≠ []) :
    frameLog (BufferedEconet.powerUp address) (BufferedEconet.samples (frameOnLine bs))
      = ⟨true, true, strobes 0 bs⟩ := by
  set m := BufferedEconet.powerUp address with hm
  set p := Machine.run stepLogged (m, FrameLog.empty) (BufferedEconet.samples flag) with hp
  set p' := Machine.run stepLogged (m, FrameLog.empty) (BufferedEconet.samples (frameOnLine bs))
    with hp'
  have hopen : p.2.clock p.1.econet.signals = ⟨true, true, []⟩ := rfl
  have hrecv : p.1.econet.receiver = rxRun .reset flag := by
    rw [hp, run_stepLogged_fst]
    exact (run_samples m flag).1
  obtain ⟨hev0, h0⟩ := run_openingFlag 0
  obtain ⟨h1, hev1, hend1⟩ := Receiving.run_bytes bs 0 _ h0
  obtain ⟨hev2, -⟩ := h1.run_flag (by omega) (hend1 hbs)
  have hev : rxEvents p.1.econet.receiver (stuff 0 (bytesBits bs) ++ flag)
      = (strobes 0 bs).map .byte ++ [.frameEnd] := by
    rw [hrecv, rxEvents_append, hev1, hev2]
  have hrun : p' = Machine.run stepLogged p
      (BufferedEconet.samples (stuff 0 (bytesBits bs) ++ flag)) := by
    rw [hp, ← Machine.run_append, BufferedEconet.samples, BufferedEconet.samples, ← List.map_append,
      ← List.append_assoc]
    rfl
  have hlog := log_samples p (stuff 0 (bytesBits bs) ++ flag) (by rw [hev]; simp)
  simp only [← hrun, hopen, hev, List.nil_append] at hlog
  have hstrobed : strobed ((strobes 0 bs).map RxEvent.byte ++ [.frameEnd]) = strobes 0 bs := by
    simp [strobed, List.filterMap_append, List.filterMap_map]
  -- no report of a byte or a start is pending after the closing flag
  obtain ⟨-, -, hstrobe, hstart⟩ := rxEvents_untilEnd hbs
  have hrecv' : p'.1.econet.receiver = rxRun .reset (frameOnLine bs) := by
    rw [hp', run_stepLogged_fst]
    exact (run_samples m (frameOnLine bs)).1
  have hsettled : p'.2.clock p'.1.econet.signals = p'.2 := by
    simp [FrameLog.clock, Econet.signals, hrecv', hstrobe, hstart]
  rw [hsettled, hstrobed] at hlog
  exact hlog

/-! ### A frame that is too long -/

theorem strobes_replicate {b : BitVec 8} (hb : ones 0 (byteBits b) = 0) (n : ℕ)
    (bs : List (BitVec 8)) :
    strobes 0 (List.replicate n b ++ bs) = List.replicate n b ++ strobes 0 bs := by
  induction n with
  | zero => rfl
  | succ n ih =>
    rw [List.replicate_succ, List.cons_append, strobes, hb, ih]
    rfl

/-- A frame on a clean line that passes the check is taken in when the two bytes that follow the
last multiple of 2048 are our address. -/
theorem frame_raises (address : BitVec 16) {bs : List (BitVec 8)} (hne : bs ≠ [])
    (hstrobes : strobes 0 bs = bs) (hfcs : Fcs.ofBytes bs = Fcs.fcsGood) (q : ℕ)
    (hlt : 2048 * q + 1 < bs.length) (hgt : bs.length < 2048 * (q + 1))
    (hstation : address.extractLsb' 0 8 = bs.getD (2048 * q) 0#8)
    (hnet : address.extractLsb' 8 8 = bs.getD (2048 * q + 1) 0#8) :
    let m := (BufferedEconet.powerUp address).run (BufferedEconet.samples (frameOnLine bs))
    m.regs.monitorMode = false ∧ m.regs.sysFrameValid = false ∧
      (m.step (.clk true false false)).regs.sysFrameValid = true ∧
      (frameLog (BufferedEconet.powerUp address) (BufferedEconet.samples (frameOnLine bs))).bytes =
        bs ∧
      m.regs.econetAddress = address := by
  intro m
  have hreset := BufferedEconet.afterReset_powerUp address
  have hlog := frameLog_frame address hne
  rw [hstrobes] at hlog
  obtain ⟨hrecv, hmon, haddr⟩ := run_samples (BufferedEconet.powerUp address) (frameOnLine bs)
  obtain ⟨hev, hend, -, hstart⟩ := rxEvents_untilEnd hne
  have hend : m.econet.receiver.frameEnd = true := (congrArg RxPhy.frameEnd hrecv).trans hend
  have hstart : m.econet.receiver.frameStart = false :=
    (congrArg RxPhy.frameStart hrecv).trans hstart
  have hrx := rxInv_run hreset (BufferedEconet.samples (frameOnLine bs))
  have hlatch := latchInv_run hreset (BufferedEconet.samples (frameOnLine bs))
  rw [hlog] at hrx hlatch
  have hlatched := hlatch.latched hstart (Or.inr hend)
  have h0 : m.regs.frameAddress 0 = address.extractLsb' 0 8 :=
    (hlatched 0 q (by omega) (by simpa using by omega) hgt).trans hstation.symm
  have h1 : m.regs.frameAddress 1 = address.extractLsb' 8 8 :=
    (hlatched 1 q (by omega) hlt hgt).trans hnet.symm
  have haddr : m.regs.econetAddress = address := haddr
  have hgood : m.econet.rxFcs = Fcs.fcsGood := (hrx.rxFcs hstart rfl).trans hfcs
  have hours : m.regs.ourFrame m.econet.signals = true := by
    rw [RxRegs.ourFrame, h0, h1, haddr]
    simp [Econet.signals, hend, hgood]
  have hlow : m.regs.sysFrameValid = false := by
    have hev : RxEvent.frameEnd ∉ rxEvents (BufferedEconet.powerUp address).econet.receiver
        (frameOnLine bs).dropLast := by
      change RxEvent.frameEnd ∉ rxEvents .reset _
      rw [hev]
      simp
    have := sysFrameValid_samples (BufferedEconet.powerUp address) (frameOnLine bs).dropLast rfl rfl
      hev false
    rwa [← frameOnLine_concat] at this
  refine ⟨hmon, hlow, ?_, by rw [hlog], haddr⟩
  simp [hours]

/-- A frame for station 1 whose check sequence is `0xCF`, `0x00`: the bytes `0x48` leave the
register of the check sequence as the first four bytes have left it. -/
def longFrame : List (BitVec 8) :=
  [0x01#8, 0x00#8, 0x18#8, 0x5E#8] ++ (List.replicate 2044 0x48#8 ++ [0xCF#8, 0x00#8])

theorem length_longFrame : longFrame.length = 2050 := by
  rw [longFrame, List.length_append, List.length_append, List.length_replicate]
  rfl

/-- The last two bytes. -/
theorem getD_longFrame (k : ℕ) :
    longFrame.getD (2048 + k) 0#8 = [0xCF#8, 0x00#8].getD k 0#8 := by
  have h4 : [0x01#8, 0x00#8, 0x18#8, 0x5E#8].length = 4 := rfl
  rw [longFrame, List.getD_append_right _ _ _ _ (by rw [h4]; omega), h4,
    List.getD_append_right _ _ _ _ (by rw [List.length_replicate]; omega), List.length_replicate,
    show 2048 + k - 4 - 2044 = k by omega]

theorem strobes_longFrame : strobes 0 longFrame = longFrame := by
  have hhead : ∀ bs, strobes 0 ([0x01#8, 0x00#8, 0x18#8, 0x5E#8] ++ bs)
      = [0x01#8, 0x00#8, 0x18#8, 0x5E#8] ++ strobes 0 bs := fun _ => rfl
  have htail : strobes 0 [0xCF#8, 0x00#8] = [0xCF#8, 0x00#8] := by decide
  rw [longFrame, hhead, strobes_replicate (by decide), htail]

theorem ofBytes_longFrame : Fcs.ofBytes longFrame = Fcs.fcsGood := by
  have hfixed : ∀ n, (List.replicate n 0x48#8).foldl Fcs.update 0xFF30#16 = 0xFF30#16 := by
    intro n
    induction n with
    | zero => rfl
    | succ n ih =>
      have hstep : Fcs.update 0xFF30#16 0x48#8 = 0xFF30#16 := by decide +kernel
      rw [List.replicate_succ, List.foldl_cons, hstep, ih]
  have hhead : [0x01#8, 0x00#8, 0x18#8, 0x5E#8].foldl Fcs.update Fcs.fcsInit = 0xFF30#16 := by
    decide +kernel
  rw [Fcs.ofBytes, longFrame, List.foldl_append, List.foldl_append, hhead, hfixed]
  decide +kernel

/-- Station 207 takes the frame for station 1 as its own: its check sequence has overwritten the
latches of the address. -/
theorem longFrame_misaddressed :
    let m := (BufferedEconet.powerUp 0x00CF#16).run (BufferedEconet.samples (frameOnLine longFrame))
    m.regs.monitorMode = false ∧ m.regs.sysFrameValid = false ∧
      (m.step (.clk true false false)).regs.sysFrameValid = true ∧
      (frameLog (BufferedEconet.powerUp 0x00CF#16)
        (BufferedEconet.samples (frameOnLine longFrame))).bytes = longFrame ∧
      ¬AddressedFrame longFrame m.regs.econetAddress (m.step (.clk true false false)).regs := by
  have hne : longFrame ≠ [] := List.cons_ne_nil _ _
  obtain ⟨hmon, hlow, hraise, hlog, haddr⟩ := frame_raises 0x00CF#16 hne strobes_longFrame
    ofBytes_longFrame 1 (by rw [length_longFrame]; omega) (by rw [length_longFrame]; omega)
    (getD_longFrame 0).symm (getD_longFrame 1).symm
  refine ⟨hmon, hlow, hraise, hlog, ?_⟩
  rw [haddr]
  intro h
  have hhead : ∀ bs, ([0x01#8, 0x00#8, 0x18#8, 0x5E#8] ++ bs)[0]? = some 0x01#8 := fun _ => rfl
  have := h.station
  rw [longFrame, hhead] at this
  exact absurd this (by decide)

end Filestick
