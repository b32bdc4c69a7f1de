import Filestick.Lib.Hdlc
import Filestick.Lib.Ring
import Filestick.Rtl.EconetRxBuffered
import Mathlib.Tactic.IntervalCases

/-!
# What the buffered receiver stores

`FrameLog` records, beside a run, the bytes that the frame check register has taken in since the
last opening flag.
-/

namespace Filestick

/-! ### The reports of the physical link -/

/-- Which registers of the physical link can be high together. -/
structure RxPhy.Inv (s : RxPhy) : Prop where
  frameStart : s.frameStart = true → s.phyState = .sync ∧ s.frameEnd = false ∧ s.dataOut = 0#8
  frameEnd : s.frameEnd = true → s.phyState = .idle ∧ s.dataOut = 0#8

theorem RxPhy.Inv.reset : RxPhy.Inv .reset := ⟨by decide, by decide⟩

theorem RxPhy.Inv.frameStart_of_ne {s : RxPhy} (h : s.Inv) (hne : s.phyState ≠ .sync) :
    s.frameStart = false := by
  by_contra hfs
  exact hne (h.frameStart (by simpa using hfs)).1

theorem RxPhy.Inv.frameEnd_of_ne {s : RxPhy} (h : s.Inv) (hne : s.phyState ≠ .idle) :
    s.frameEnd = false := by
  by_contra hfe
  exact hne (h.frameEnd (by simpa using hfe)).1

theorem RxPhy.Inv.step {s : RxPhy} (h : s.Inv) (b inhibit : Bool) : (s.step b inhibit).Inv := by
  unfold RxPhy.step
  split
  · exact ⟨by simp [RxPhy.stepIdle], by simp [RxPhy.stepIdle]⟩
  next hs =>
    have hfs := h.frameStart_of_ne (by simp [hs])
    have hfe := h.frameEnd_of_ne (by simp [hs])
    unfold RxPhy.stepRxSync
    split_ifs <;> constructor <;> simp_all
  next hs =>
    have hfe := h.frameEnd_of_ne (by simp [hs])
    unfold RxPhy.stepSync
    split_ifs <;> constructor <;> simp_all
  next hs =>
    have hfs := h.frameStart_of_ne (by simp [hs])
    have hfe := h.frameEnd_of_ne (by simp [hs])
    unfold RxPhy.stepWaitIdle
    split_ifs <;> constructor <;> simp_all

/-- A reported start is taken back on the next edge. -/
theorem RxPhy.Inv.frameStart_step {s : RxPhy} (h : s.Inv) (hfs : s.frameStart = true)
    (b inhibit : Bool) : (s.step b inhibit).frameStart = false := by
  rw [RxPhy.step, (h.frameStart hfs).1]
  unfold RxPhy.stepSync
  split_ifs <;> rfl

/-! ### The record of a frame -/

/-- The frame being received: whether an opening flag has been reported at all, whether
`data_strobe` was low on the clock that took in the report, and the bytes that the frame check
register has taken in since. -/
structure FrameLog where
  opened : Bool
  clean : Bool
  bytes : List (BitVec 8)
deriving DecidableEq, Repr

namespace FrameLog

/-- The record before any frame. -/
def empty : FrameLog := ⟨false, true, []⟩

/-- The record after an edge, from the signals before it: these are the conditions under which `fcs`
is reset and under which it takes in a byte. -/
def clock (g : FrameLog) (sig : RxSignals) : FrameLog :=
  if sig.rxFrameStart then ⟨true, !sig.rxByteReady, []⟩
  else if sig.rxByteReady then { g with bytes := g.bytes ++ [sig.rxByte] }
  else g

/-- What the buffer holds from the latched start of the frame on: a strobe on the clock of the
report has put the byte `0` (`data_out` is cleared with the report) before the bytes of it. -/
def content (g : FrameLog) : List (BitVec 8) := (if g.clean then [] else [0#8]) ++ g.bytes

end FrameLog

/-- The receiver with the record beside it. -/
def stepLogged (p : BufferedEconet × FrameLog) (i : RxInput) : BufferedEconet × FrameLog :=
  (p.1.step i, match i with
    | .clk .. => p.2.clock p.1.econet.signals
    | .sysWrite .. => p.2)

/-- The record after a list of inputs. -/
def frameLog (m : BufferedEconet) (is : List RxInput) : FrameLog :=
  (Machine.run stepLogged (m, .empty) is).2

theorem run_stepLogged_fst (p : BufferedEconet × FrameLog) (is : List RxInput) :
    (Machine.run stepLogged p is).1 = p.1.run is := by
  induction is generalizing p with
  | nil => rfl
  | cons i is ih => exact ih _

/-! ### The invariant -/

/-- The buffer, the byte counter and the frame check register agree with the record. -/
structure RxInv (m : BufferedEconet) (g : FrameLog) : Prop where
  receiver : m.econet.receiver.Inv
  opened : m.econet.receiver.phyState = .sync ∨ m.econet.receiver.endSync = true ∨
      m.econet.receiver.frameEnd = true →
    g.opened = true ∨ m.econet.receiver.frameStart = true
  starting : m.econet.receiver.frameStart = true → m.econet.rxFcs = Fcs.fcsInit
  filled : m.econet.receiver.frameStart = false → g.opened = true →
    Ring.Filled m.regs.econetBuf m.regs.frameStart g.content m.regs.econetPtr
  econetCtr : m.econet.receiver.frameStart = false → g.opened = true →
    m.regs.econetCtr = BitVec.ofNat 11 g.bytes.length
  rxFcs : m.econet.receiver.frameStart = false → g.opened = true →
    m.econet.rxFcs = Fcs.ofBytes g.bytes

theorem RxInv.afterReset {m : BufferedEconet} (h : m.AfterReset) : RxInv m .empty := by
  constructor <;> simp [h.receiver, RxPhy.reset, FrameLog.empty]
  exact RxPhy.Inv.reset

theorem RxInv.sysWrite {m : BufferedEconet} {g : FrameLog} (h : RxInv m g) (a wr : BitVec 4)
    (d : BitVec 32) : RxInv (m.step (.sysWrite a wr d)) g :=
  ⟨h.receiver, h.opened, h.starting, h.filled, h.econetCtr, h.rxFcs⟩

/-- The link can only be inside a frame, or report the end of one, after it reported a start. -/
theorem RxInv.opened_clk {m : BufferedEconet} {g : FrameLog} (h : RxInv m g) (b inhibit : Bool) :
    (m.econet.receiver.step b inhibit).phyState = .sync ∨
        (m.econet.receiver.step b inhibit).endSync = true ∨
        (m.econet.receiver.step b inhibit).frameEnd = true →
      (g.clock m.econet.signals).opened = true ∨
        (m.econet.receiver.step b inhibit).frameStart = true := by
  have hg : g.opened = true ∨ m.econet.receiver.frameStart = true →
      (g.clock m.econet.signals).opened = true := by
    rintro (hg | hg)
    · unfold FrameLog.clock; split_ifs <;> simp [hg]
    · simp [FrameLog.clock, Econet.signals, hg]
  have hopened := fun hp => hg (h.opened hp)
  generalize m.econet.receiver = s at hopened
  unfold RxPhy.step
  split
  · simp only [RxPhy.stepIdle]
    split_ifs <;> simp_all
  next hs =>
    unfold RxPhy.stepRxSync
    split_ifs <;> simp_all
  next hs => exact fun _ => Or.inl (hopened (Or.inl hs))
  next hs =>
    unfold RxPhy.stepWaitIdle
    split_ifs <;> simp_all

/-! ### One edge -/

/-- `frame_state` is all that the end of a frame resets. -/
theorem RxRegs.frameEndReset_eq (r : RxRegs) (b : Bool) :
    r.frameEndReset b = { r with frameState := if b then .idle else r.frameState } := by
  cases b <;> rfl

/-! ### An edge, register by register -/

section StepClk

variable (m : BufferedEconet) (b inhibit validRst : Bool)

@[simp] theorem step_clk_econet :
    (m.step (.clk b inhibit validRst)).econet = m.econet.step b inhibit := rfl

@[simp] theorem step_clk_econetBuf : (m.step (.clk b inhibit validRst)).regs.econetBuf
    = if m.econet.receiver.dataStrobe
      then Function.update m.regs.econetBuf m.regs.econetPtr m.econet.receiver.dataOut
      else m.regs.econetBuf := by
  rw [BufferedEconet.step, RxRegs.frameEndReset_eq]; rfl

@[simp] theorem step_clk_econetPtr : (m.step (.clk b inhibit validRst)).regs.econetPtr
    = if m.econet.receiver.dataStrobe then m.regs.econetPtr + 1#11 else m.regs.econetPtr := by
  rw [BufferedEconet.step, RxRegs.frameEndReset_eq]; rfl

@[simp] theorem step_clk_econetCtr : (m.step (.clk b inhibit validRst)).regs.econetCtr
    = m.regs.clockEconetCtr m.econet.signals := by
  rw [BufferedEconet.step, RxRegs.frameEndReset_eq]; rfl

@[simp] theorem step_clk_frameStart : (m.step (.clk b inhibit validRst)).regs.frameStart
    = m.regs.clockFrameStart m.econet.signals := by
  rw [BufferedEconet.step, RxRegs.frameEndReset_eq]; rfl

@[simp] theorem step_clk_frameAddress : (m.step (.clk b inhibit validRst)).regs.frameAddress
    = m.regs.clockFrameAddress m.econet.signals := by
  rw [BufferedEconet.step, RxRegs.frameEndReset_eq]; rfl

@[simp] theorem step_clk_frameState : (m.step (.clk b inhibit validRst)).regs.frameState
    = if (m.econet.receiver.step b inhibit).frameEnd then .idle
      else m.regs.clockFrameState m.econet.signals := by
  rw [BufferedEconet.step, RxRegs.frameEndReset_eq]; rfl

@[simp] theorem step_clk_monitorMode :
    (m.step (.clk b inhibit validRst)).regs.monitorMode = m.regs.monitorMode := by
  simp only [BufferedEconet.step, RxRegs.frameEndReset_eq, RxRegs.clock]
  split_ifs <;> rfl

@[simp] theorem step_clk_econetAddress :
    (m.step (.clk b inhibit validRst)).regs.econetAddress = m.regs.econetAddress := by
  simp only [BufferedEconet.step, RxRegs.frameEndReset_eq, RxRegs.clock]
  split_ifs <;> rfl

@[simp] theorem step_clk_sysFrameValid : (m.step (.clk b inhibit validRst)).regs.sysFrameValid
    = (!validRst && (m.regs.ourFrame m.econet.signals || m.regs.monitorFrame m.econet.signals ||
      m.regs.sysFrameValid)) := by
  simp only [BufferedEconet.step, RxRegs.frameEndReset_eq, RxRegs.clock, RxRegs.latchValid]
  cases validRst <;>
    cases h : m.regs.ourFrame m.econet.signals || m.regs.monitorFrame m.econet.signals <;> simp

/-- The edge that accepts a frame latches what is known of it. -/
theorem step_clk_latchValid
    (h : (m.regs.ourFrame m.econet.signals || m.regs.monitorFrame m.econet.signals) = true) :
    let r := (m.step (.clk b inhibit false)).regs
    r.validStart = m.regs.frameStart ∧ r.validEnd = m.regs.econetPtr ∧
      r.validCnt = m.regs.econetCtr ∧
      r.validAddress = m.regs.latchValid.validAddress ∧
      r.validScout = m.regs.latchValid.validScout := by
  simp [BufferedEconet.step, RxRegs.frameEndReset_eq, RxRegs.clock, RxRegs.latchValid, h]

/-- An edge that accepts no frame keeps what is known of the last one. -/
theorem step_clk_keepValid
    (h : (m.regs.ourFrame m.econet.signals || m.regs.monitorFrame m.econet.signals) = false) :
    let r := (m.step (.clk b inhibit false)).regs
    r.validStart = m.regs.validStart ∧ r.validCnt = m.regs.validCnt := by
  simp [BufferedEconet.step, RxRegs.frameEndReset_eq, RxRegs.clock, h]

end StepClk

/-- The edge that takes in the report of an opening flag starts an empty frame at the pointer. -/
theorem RxInv.clk_start {m : BufferedEconet} {g : FrameLog} (h : RxInv m g)
    (hfs : m.econet.receiver.frameStart = true) (b inhibit validRst : Bool) :
    RxInv (m.step (.clk b inhibit validRst)) (g.clock m.econet.signals) := by
  have hlow := h.receiver.frameStart_step hfs b inhibit
  have hzero := (h.receiver.frameStart hfs).2.2
  refine ⟨h.receiver.step b inhibit, h.opened_clk b inhibit, ?_, ?_, ?_, ?_⟩
  · intro hfs'
    exact absurd (hlow.symm.trans hfs') (by decide)
  · intro _ _
    have hpush := (Ring.filled_nil m.regs.econetBuf m.regs.econetPtr).push 0#8
    cases hstrobe : m.econet.receiver.dataStrobe with
    | true =>
      simpa [RxRegs.clockFrameStart, Econet.signals, FrameLog.clock, FrameLog.content, hfs, hstrobe,
        hzero] using hpush
    | false =>
      simpa [RxRegs.clockFrameStart, Econet.signals, FrameLog.clock, FrameLog.content, hfs, hstrobe]
        using Ring.filled_nil m.regs.econetBuf m.regs.econetPtr
  · intro _ _
    simp [RxRegs.clockEconetCtr, Econet.signals, FrameLog.clock, hfs]
  · intro _ _
    simp [Econet.step, Econet.signals, FrameLog.clock, Fcs.step, hfs, hlow]

/-- Any other edge takes in the strobed byte, if there is one. -/
theorem RxInv.clk_data {m : BufferedEconet} {g : FrameLog} (h : RxInv m g)
    (hfs : m.econet.receiver.frameStart = false) (b inhibit validRst : Bool) :
    RxInv (m.step (.clk b inhibit validRst)) (g.clock m.econet.signals) := by
  have hopened : (g.clock m.econet.signals).opened = true → g.opened = true := by
    simp only [FrameLog.clock, Econet.signals, hfs, Bool.false_eq_true, if_false]
    split_ifs <;> exact id
  refine ⟨h.receiver.step b inhibit, h.opened_clk b inhibit, ?_, ?_, ?_, ?_⟩
  · intro hfs'
    have hfs' : (m.econet.receiver.step b inhibit).frameStart = true := hfs'
    simp [Econet.step, Fcs.step, hfs']
  · intro _ hg
    have hold := h.filled hfs (hopened hg)
    cases hstrobe : m.econet.receiver.dataStrobe with
    | true =>
      simpa [RxRegs.clockFrameStart, Econet.signals, FrameLog.clock, FrameLog.content, hfs, hstrobe]
        using hold.push m.econet.receiver.dataOut
    | false =>
      simpa [RxRegs.clockFrameStart, Econet.signals, FrameLog.clock, FrameLog.content, hfs, hstrobe]
        using hold
  · intro _ hg
    have hold := h.econetCtr hfs (hopened hg)
    cases hstrobe : m.econet.receiver.dataStrobe with
    | true =>
      simp [RxRegs.clockEconetCtr, Econet.signals, FrameLog.clock, hfs, hstrobe, hold,
        BitVec.ofNat_add]
    | false =>
      simpa [RxRegs.clockEconetCtr, Econet.signals, FrameLog.clock, hfs, hstrobe] using hold
  · intro hfs' hg
    have hfs' : (m.econet.receiver.step b inhibit).frameStart = false := hfs'
    have hold := h.rxFcs hfs (hopened hg)
    cases hstrobe : m.econet.receiver.dataStrobe with
    | true =>
      simp [Econet.step, Econet.signals, FrameLog.clock, Fcs.step, hfs, hfs',
        hstrobe, hold, Fcs.ofBytes_concat]
    | false =>
      simpa [Econet.step, Econet.signals, FrameLog.clock, Fcs.step, hfs, hfs',
        hstrobe] using hold

/-- Any edge. -/
theorem RxInv.clk {m : BufferedEconet} {g : FrameLog} (h : RxInv m g) (b inhibit validRst : Bool) :
    RxInv (m.step (.clk b inhibit validRst)) (g.clock m.econet.signals) := by
  cases hfs : m.econet.receiver.frameStart with
  | true => exact h.clk_start hfs b inhibit validRst
  | false => exact h.clk_data hfs b inhibit validRst

/-- **The invariant holds after every run from reset**, whatever is sampled on the line. -/
theorem rxInv_run {m : BufferedEconet} (h : m.AfterReset) (is : List RxInput) :
    RxInv (m.run is) (frameLog m is) := by
  have hrun : ∀ (is : List RxInput) (p : BufferedEconet × FrameLog), RxInv p.1 p.2 →
      RxInv (Machine.run stepLogged p is).1 (Machine.run stepLogged p is).2 := by
    intro is p hp
    refine Machine.run_invariant_of_step
      (I := fun p : BufferedEconet × FrameLog => RxInv p.1 p.2) ?_ is hp
    rintro ⟨m, g⟩ i h
    cases i with
    | clk b inhibit validRst => exact h.clk b inhibit validRst
    | sysWrite a wr d => exact h.sysWrite a wr d
  have := hrun is (m, .empty) (RxInv.afterReset h)
  rwa [run_stepLogged_fst] at this

/-! ### Frames of zero bytes -/

/-- Whether none of the next `fuel` values of a register that takes in zero bytes, the first of them
after `n` bytes, is the good one, other than after two bytes. -/
def goodAfterTwoZeros : ℕ → ℕ → BitVec 16 → Bool
  | 0, _, _ => true
  | fuel + 1, n, v =>
    (v != Fcs.fcsGood || n == 2) && goodAfterTwoZeros fuel (n + 1) (Fcs.update v 0#8)

theorem eq_two_of_goodAfterTwoZeros : ∀ (fuel n k : ℕ) (v : BitVec 16),
    goodAfterTwoZeros fuel n v = true → k < fuel →
    (List.replicate k 0#8).foldl Fcs.update v = Fcs.fcsGood → n + k = 2 := by
  intro fuel
  induction fuel with
  | zero => intro n k v _ hk; omega
  | succ fuel ih =>
    intro n k v hgood hk hv
    rw [goodAfterTwoZeros, Bool.and_eq_true] at hgood
    cases k with
    | zero =>
      have : v = Fcs.fcsGood := hv
      simpa [this] using hgood.1
    | succ k =>
      have := ih (n + 1) k (Fcs.update v 0#8) hgood.2 (by omega) hv
      omega

/-- Of the frames of fewer than 2048 zero bytes only the one of two bytes passes the check. -/
theorem ofBytes_zeros_eq_good {n : ℕ} (hn : n < 2048)
    (h : Fcs.ofBytes (List.replicate n 0#8) = Fcs.fcsGood) : n = 2 := by
  have hcheck : goodAfterTwoZeros 2048 0 Fcs.fcsInit = true := by decide +kernel
  have := eq_two_of_goodAfterTwoZeros 2048 0 n Fcs.fcsInit hcheck hn h
  omega

/-- A list that equals itself moved on by one place, with a zero put in front, is all zeros. -/
theorem eq_replicate_of_shifted {bs : List (BitVec 8)}
    (h : ∀ k, k < bs.length → bs[k]? = (0#8 :: bs)[k]?) : bs = List.replicate bs.length 0#8 := by
  have hzero : ∀ k, k < bs.length → bs[k]? = some 0#8 := by
    intro k
    induction k with
    | zero => intro hk; exact h 0 hk
    | succ k ih => intro hk; exact (h (k + 1) hk).trans (ih (by omega))
  exact List.eq_replicate_of_mem fun b hb => by
    obtain ⟨k, hk, rfl⟩ := List.getElem_of_mem hb
    exact Option.some.inj ((List.getElem?_eq_getElem hk).symm.trans (hzero k hk))

/-! ### Accepted frames -/

/-- The latched registers delimit exactly `bytes` in the buffer. -/
def BufferedEconet.Delimits (m : BufferedEconet) (bytes : List (BitVec 8)) : Prop :=
  m.regs.validCnt.toNat = bytes.length ∧ Ring.Holds m.regs.econetBuf m.regs.validStart bytes

instance (m : BufferedEconet) (bytes : List (BitVec 8)) : Decidable (m.Delimits bytes) :=
  inferInstanceAs (Decidable (_ ∧ _))

/-- The link never reports a start and an end on one edge. -/
theorem RxInv.frameStart_of_frameEnd {m : BufferedEconet} {g : FrameLog} (h : RxInv m g)
    (hend : m.econet.receiver.frameEnd = true) : m.econet.receiver.frameStart = false := by
  by_contra hfs
  have := (h.receiver.frameStart (by simpa using hfs)).2.1
  exact absurd (this.symm.trans hend) (by decide)

/-- What the buffer holds after the edge that accepts a frame: a strobe on this edge writes a `0`
behind the frame. -/
theorem RxInv.holds_accepted {m : BufferedEconet} {g : FrameLog} (h : RxInv m g)
    (hend : m.econet.receiver.frameEnd = true) (hg : g.opened = true) (hlen : g.bytes.length < 2048)
    (b inhibit : Bool) :
    Ring.Holds (m.step (.clk b inhibit false)).regs.econetBuf m.regs.frameStart g.content := by
  have hfs := h.frameStart_of_frameEnd hend
  have hfill := h.filled hfs hg
  -- a strobe that was left high has put one byte before the frame
  have hle : g.content.length ≤ 2048 := by
    rw [FrameLog.content, List.length_append]
    split <;> simp <;> omega
  have hold := hfill.holds hle
  cases hstrobe : m.econet.receiver.dataStrobe with
  | false =>
    simpa [Econet.signals, hstrobe]
      using hold
  | true =>
    have hbuf : (m.step (.clk b inhibit false)).regs.econetBuf
        = Function.update m.regs.econetBuf m.regs.econetPtr 0#8 := by
      simp [hstrobe, (h.receiver.frameEnd hend).2]
    rw [hbuf]
    rcases Nat.lt_or_ge g.content.length 2048 with hlt | hge
    · rw [hfill.ptr]
      exact hold.of_write_outside hlt le_rfl 0#8
    · -- the buffer is full: the `0` falls on the `0` before the frame
      have hclean : g.clean = false := by
        by_contra hclean
        simp only [Bool.not_eq_false] at hclean
        simp [FrameLog.content, hclean] at hge
        omega
      have hptr : m.regs.econetPtr = m.regs.frameStart := by
        rw [hfill.ptr, show g.content.length = 2048 by omega]
        simp
      have hhead : m.regs.econetBuf m.regs.frameStart = 0#8 := by
        have := hold 0 (by omega)
        simpa [FrameLog.content, hclean] using this
      rw [hptr, ← hhead, Function.update_eq_self]
      exact hold

/-- With a `0` before it, a frame that passes the check is found at the latched start only when it
is two zero bytes. -/
theorem holds_iff_two_zeros {mem : BitVec 11 → BitVec 8} {start : BitVec 11}
    {bytes : List (BitVec 8)} (h : Ring.Holds mem start (0#8 :: bytes)) (hlen : bytes.length < 2048)
    (hgood : Fcs.ofBytes bytes = Fcs.fcsGood) :
    Ring.Holds mem start bytes ↔ bytes = [0#8, 0#8] := by
  constructor
  · intro hb
    have hzeros : bytes = List.replicate bytes.length 0#8 := by
      apply eq_replicate_of_shifted
      intro k hk
      have hk' : k < (0#8 :: bytes).length := by rw [List.length_cons]; omega
      rw [List.getElem?_eq_getElem hk, List.getElem?_eq_getElem hk', ← hb k hk, ← h k hk']
    rw [hzeros] at hgood
    rw [hzeros, ofBytes_zeros_eq_good hlen hgood]
    rfl
  · rintro rfl k hk
    have hk' : k < [0#8, 0#8, 0#8].length := by simp at hk ⊢; omega
    rw [h k hk']
    simp only [List.length_cons, List.length_nil] at hk
    interval_cases k <;> rfl

/-- A frame that ends has been opened. -/
theorem RxInv.opened_of_ourFrame {m : BufferedEconet} {g : FrameLog} (h : RxInv m g)
    (hours : m.ourFrame = true) : m.econet.receiver.frameStart = false ∧ g.opened = true := by
  have hend : m.econet.receiver.frameEnd = true := by
    simp only [BufferedEconet.ourFrame, RxRegs.ourFrame, Econet.signals, Bool.and_eq_true] at hours
    exact hours.1.1.1
  have hfs := h.frameStart_of_frameEnd hend
  exact ⟨hfs, by simpa [hfs] using h.opened (Or.inr (Or.inr hend))⟩

/-- The edge that accepts a frame. -/
theorem RxInv.delimits_iff {m : BufferedEconet} {g : FrameLog} (h : RxInv m g)
    (hours : m.ourFrame = true) (hlen : g.bytes.length < 2048) (b inhibit : Bool) :
    (m.step (.clk b inhibit false)).regs.sysFrameValid = true ∧
      m.econet.rxFcs = Fcs.ofBytes g.bytes ∧
      ((m.step (.clk b inhibit false)).Delimits g.bytes ↔
        g.clean = true ∨ g.bytes = [0#8, 0#8]) := by
  have hsplit : m.econet.receiver.frameEnd = true ∧ m.econet.rxFcs = Fcs.fcsGood := by
    simp only [BufferedEconet.ourFrame, RxRegs.ourFrame, Econet.signals, Bool.and_eq_true,
      beq_iff_eq] at hours
    exact ⟨hours.1.1.1, hours.1.1.2⟩
  obtain ⟨hend, hgood⟩ := hsplit
  obtain ⟨hfs, hg⟩ := h.opened_of_ourFrame hours
  have hfcs := h.rxFcs hfs hg
  have hcnt : m.regs.econetCtr.toNat = g.bytes.length := by
    rw [h.econetCtr hfs hg, BitVec.toNat_ofNat, Nat.mod_eq_of_lt hlen]
  have hours' : m.regs.ourFrame m.econet.signals = true := hours
  obtain ⟨hstart, -, hvalid, -⟩ := step_clk_latchValid m b inhibit (by rw [hours', Bool.true_or])
  have hold := h.holds_accepted hend hg hlen b inhibit
  refine ⟨by simp [hours'], hfcs, ?_⟩
  rw [BufferedEconet.Delimits, hvalid, hstart, and_iff_right hcnt]
  cases hclean : g.clean with
  | true =>
    rw [FrameLog.content, hclean, if_pos rfl, List.nil_append] at hold
    exact iff_of_true hold (Or.inl rfl)
  | false =>
    rw [FrameLog.content, hclean, if_neg (by decide), List.singleton_append] at hold
    rw [holds_iff_two_zeros hold hlen (hfcs.symm.trans hgood)]
    simp

/-- **Accepted frames.** After every run from reset, when the end of a frame for this station with a
good check sequence raises `sys_frame_valid`, the check register was computed over the recorded
bytes of the frame, and (for frames below 2048 bytes) the latched registers delimit exactly these
bytes in the buffer if and only if `data_strobe` was low on the clock that took in the opening flag,
or the frame is the one of two zero bytes. -/
theorem acceptedFrame_delimited_iff (m : BufferedEconet) (hreset : m.AfterReset) (is : List RxInput)
    (econetRx inhibit : Bool) (hours : (m.run is).ourFrame = true)
    (hlen : (frameLog m is).bytes.length < 2048) :
    ((m.run is).step (.clk econetRx inhibit false)).regs.sysFrameValid = true ∧
      (m.run is).econet.rxFcs = Fcs.ofBytes (frameLog m is).bytes ∧
      (((m.run is).step (.clk econetRx inhibit false)).Delimits (frameLog m is).bytes ↔
        (frameLog m is).clean = true ∨ (frameLog m is).bytes = [0#8, 0#8]) :=
  (rxInv_run hreset is).delimits_iff hours hlen econetRx inhibit

/-- An acknowledgement from station 1 to station `0x42`, with its check sequence. -/
def ackFrame : List (BitVec 8) := [0x42#8, 0x00#8, 0x01#8, 0x00#8, 0xC7#8, 0xCA#8]

/-- The bits of a frame between its flags. -/
def frameOnLine (bytes : List (BitVec 8)) : List Bool :=
  Hdlc.flag ++ Hdlc.stuff 0 (Hdlc.bytesBits bytes) ++ Hdlc.flag

/-- On a clean line the acknowledgement is delimited exactly. -/
theorem ackFrame_delimited :
    (((BufferedEconet.powerUp 0x0042#16).run (BufferedEconet.samples (frameOnLine ackFrame))).step
      (.clk true false false)).Delimits ackFrame := by
  have hlog : (frameLog (BufferedEconet.powerUp 0x0042#16)
      (BufferedEconet.samples (frameOnLine ackFrame))) = ⟨true, true, ackFrame⟩ := by decide +kernel
  have := acceptedFrame_delimited_iff (BufferedEconet.powerUp 0x0042#16)
    (BufferedEconet.afterReset_powerUp _) (BufferedEconet.samples (frameOnLine ackFrame)) true false
    (by decide +kernel) (by rw [hlog]; decide)
  rw [hlog] at this
  exact this.2.2.mpr (Or.inl rfl)

/-- Two flags with one bit between them, and an idle line: the sixth 1 of the second flag completes
a byte, and leaves `data_strobe` high. -/
def noise : List Bool := Hdlc.flag ++ [false] ++ Hdlc.flag ++ [true, true, true]

/-- After `noise` the same acknowledgement is accepted, and the latched registers delimit other
bytes. -/
theorem ackFrame_after_noise_not_delimited :
    ((BufferedEconet.powerUp 0x0042#16).run
        (BufferedEconet.samples (noise ++ frameOnLine ackFrame))).ourFrame = true ∧
      (frameLog (BufferedEconet.powerUp 0x0042#16)
        (BufferedEconet.samples (noise ++ frameOnLine ackFrame))).bytes = ackFrame ∧
      ¬(((BufferedEconet.powerUp 0x0042#16).run
        (BufferedEconet.samples (noise ++ frameOnLine ackFrame))).step
          (.clk true false false)).Delimits ackFrame := by
  decide +kernel

end Filestick
