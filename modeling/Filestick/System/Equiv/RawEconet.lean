import Filestick.System.RawEconet

/-!
# The hardware under the driver

What a move of the hardware does to the state that the driver shares with it: the variables stay as
they are, and on a rising edge of `econet_clk` the receiver may store a byte (`rise_tracked`) and
accept a frame (`rise_accepts`).
-/

namespace Filestick.RawEconet

open Driver

/-- `receiving` only reaches the idle counter. -/
theorem hw_eq (d : Driver) (i : Hw) :
    ∃ c, d.hw i = { d.move i with tx := { (d.move i).tx with idleCounter := c } } := by
  unfold hw settle
  split
  · exact ⟨0#4, rfl⟩
  · exact ⟨(d.move i).tx.idleCounter, rfl⟩

/-- The hardware does not touch the variables. -/
theorem hw_vars (d : Driver) (i : Hw) : (d.hw i).vars = d.vars ∧ (d.hw i).deliv = d.deliv := by
  obtain ⟨c, hs⟩ := hw_eq d i
  rw [hs]
  cases i <;> exact ⟨rfl, rfl⟩

/-- Only the acceptance of a frame raises `sys_frame_valid`. -/
theorem hw_frameValid (d : Driver) (i : Hw) :
    (d.hw i).frameValid = (d.frameValid || (i == .rise && d.accepts)) := by
  obtain ⟨c, hs⟩ := hw_eq d i
  rw [hs]
  cases i with
  | rise =>
    show (d.rx.step (.clk d.econetRx d.transmitting false)).regs.sysFrameValid =
      (d.frameValid || d.accepts)
    rw [step_clk_sysFrameValid, Bool.or_comm]
    rfl
  | line level => exact (Bool.or_false _).symm
  | fall => exact (Bool.or_false _).symm
  | tick => exact (Bool.or_false _).symm

/-- The receiver moves on rising edges only. -/
theorem hw_rx (d : Driver) {i : Hw} (hi : i ≠ .rise) :
    (d.hw i).rx = d.rx ∧ (d.hw i).log = d.log := by
  obtain ⟨c, hs⟩ := hw_eq d i
  rw [hs]
  cases i with
  | rise => exact absurd rfl hi
  | line level => exact ⟨rfl, rfl⟩
  | fall => exact ⟨rfl, rfl⟩
  | tick => exact ⟨rfl, rfl⟩

theorem hw_rise (d : Driver) :
    (d.hw .rise).rx = d.rx.step (.clk d.econetRx d.transmitting false) ∧
      (d.hw .rise).log = d.log.rise d.rx.econet.signals d.accepts := by
  obtain ⟨c, hs⟩ := hw_eq d .rise
  rw [hs]
  exact ⟨rfl, rfl⟩

theorem hw_monitorMode (d : Driver) (i : Hw) :
    (d.hw i).rx.regs.monitorMode = d.rx.regs.monitorMode := by
  by_cases hi : i = .rise
  · rw [hi, (hw_rise d).1, step_clk_monitorMode]
  · rw [(hw_rx d hi).1]

/-! ### Rising edges -/

/-- The record of a frame that is accepted. -/
theorem rise_accepted {d : Driver} (hacc : d.accepts = true) :
    (d.hw .rise).log.accepted = d.log.frame.bytes := by
  rw [(hw_rise d).2]
  simp only [RxLog.rise, hacc, if_true]

/-- The receiver is as its record says, and does not monitor the line. -/
structure RxShared (d : Driver) : Prop where
  inv : RxInv d.rx d.log.frame
  monitorMode : d.rx.regs.monitorMode = false

theorem rxInv_hw {d : Driver} (h : RxInv d.rx d.log.frame) (i : Hw) :
    RxInv (d.hw i).rx (d.hw i).log.frame := by
  by_cases hi : i = .rise
  · obtain ⟨hrx, hlog⟩ := hw_rise d
    rw [hi, hrx, hlog]
    exact h.clk _ _ _
  · obtain ⟨hrx, hlog⟩ := hw_rx d hi
    rw [hrx, hlog]
    exact h

theorem RxShared.hw {d : Driver} (h : RxShared d) (i : Hw) : RxShared (d.hw i) :=
  ⟨rxInv_hw h.inv i, (hw_monitorMode d i).trans h.monitorMode⟩

/-- The number of bytes that the edge stores. -/
def stored (d : Driver) : ℕ := if d.strobes then 1 else 0

/-- A list in the buffer, and a byte stored at the pointer. -/
theorem rise_tracked {d : Driver} {start : BitVec 11} {xs : List (BitVec 8)} {n : ℕ}
    (h : Ring.Tracked d.rx.regs.econetBuf start xs n d.rx.regs.econetPtr) :
    Ring.Tracked (d.hw .rise).rx.regs.econetBuf start xs (n + stored d)
      (d.hw .rise).rx.regs.econetPtr := by
  rw [(hw_rise d).1]
  rw [step_clk_econetBuf, step_clk_econetPtr, stored, Driver.strobes]
  cases d.rx.econet.receiver.dataStrobe with
  | true => exact h.push _
  | false => exact h

/-- An edge that accepts no frame leaves the registers of the last one. -/
theorem rise_regs {d : Driver} (hacc : d.accepts = false) :
    (d.hw .rise).rx.regs.validStart = d.rx.regs.validStart ∧
      (d.hw .rise).rx.regs.validCnt = d.rx.regs.validCnt ∧
      (d.hw .rise).log.accepted = d.log.accepted ∧
      (d.hw .rise).log.since = d.log.since + stored d := by
  obtain ⟨hstart, hcnt⟩ := step_clk_keepValid d.rx d.econetRx d.transmitting hacc
  rw [(hw_rise d).1, (hw_rise d).2]
  refine ⟨hstart, hcnt, ?_⟩
  simp only [RxLog.rise, hacc, Bool.false_eq_true, if_false, true_and]
  rfl

/-- The registers delimit the frame that was accepted last, as far as the buffer has it. -/
structure Pending (d : Driver) : Prop where
  tracked : Ring.Tracked d.rx.regs.econetBuf d.rx.regs.validStart d.log.accepted d.log.since
    d.rx.regs.econetPtr
  count : d.rx.regs.validCnt.toNat = d.log.accepted.length
  le : 4 ≤ d.log.accepted.length

/-- An edge that accepts a frame. -/
theorem rise_accepts {d : Driver} (h : RxShared d) (hacc : d.accepts = true)
    (hclean : d.log.frame.clean = true) (h4 : 4 ≤ d.log.frame.bytes.length)
    (hlen : d.log.frame.bytes.length < 2048) : Pending (d.hw .rise) := by
  have hours' : d.rx.regs.ourFrame d.rx.econet.signals = true := by
    have hmon : d.rx.regs.monitorFrame d.rx.econet.signals = false := by
      simp [RxRegs.monitorFrame, h.monitorMode]
    simpa [accepts, hmon] using hacc
  have hours : d.rx.ourFrame = true := hours'
  obtain ⟨hcnt, hholds⟩ := (h.inv.delimits_iff hours hlen d.econetRx d.transmitting).2.2.mpr
    (Or.inl hclean)
  obtain ⟨hfs, hopened⟩ := h.inv.opened_of_ourFrame hours
  have hptr := (h.inv.filled hfs hopened).ptr
  have hcontent : d.log.frame.content = d.log.frame.bytes := by
    rw [FrameLog.content, hclean, if_pos rfl, List.nil_append]
  rw [hcontent] at hptr
  have hlog : (d.hw .rise).log.accepted = d.log.frame.bytes ∧
      (d.hw .rise).log.since = d.log.frame.bytes.length + stored d := by
    rw [(hw_rise d).2]
    simp only [RxLog.rise, hacc, if_true, hcontent, true_and]
    rfl
  have hstart : (d.hw .rise).rx.regs.validStart = d.rx.regs.frameStart := by
    rw [(hw_rise d).1]
    exact (step_clk_latchValid d.rx d.econetRx d.transmitting hacc).1
  have hptr' : (d.hw .rise).rx.regs.econetPtr
      = d.rx.regs.frameStart + BitVec.ofNat 11 (d.log.frame.bytes.length + stored d) := by
    have hempty := (Ring.holds_nil d.rx.regs.econetBuf d.rx.regs.frameStart).tracked hptr
      (Nat.zero_le _)
    exact (rise_tracked hempty).ptr
  refine ⟨?_, ?_, ?_⟩
  · rw [hlog.1, hlog.2, hstart]
    have hholds' : Ring.Holds (d.hw .rise).rx.regs.econetBuf d.rx.regs.frameStart
        d.log.frame.bytes := by
      rw [← hstart, (hw_rise d).1]
      exact hholds
    exact hholds'.tracked hptr' (Nat.le_add_right _ _)
  · rw [hlog.1, (hw_rise d).1]
    exact hcnt
  · rw [hlog.1]
    exact h4

end Filestick.RawEconet
