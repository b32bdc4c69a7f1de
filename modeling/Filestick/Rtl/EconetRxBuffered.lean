import Filestick.Rtl.EconetRxPhy
import Filestick.Rtl.Fcs
import Mathlib.Logic.Function.Basic

/-!
# The buffered Econet receiver (`econet_rx.v`, `econet_rx_buffered.v`)

`Econet` is the module `econet`: the physical link with the frame check register, which is held in
reset while the link reports the start of a frame.  `BufferedEconet` is the module
`buffered_econet`: it writes every strobed byte to a circular buffer of 2048 bytes, and latches the
place of a frame that is for this station when its end is reported.

All processes clocked by `econet_clk` read the values before the edge; the two asynchronous resets
that a report can trigger (`fcs` by the start of a frame, `frame_state` by its end) take effect
between the edge that raises the report and the next one.
-/

namespace Filestick

/-! ### `econet` -/

/-- The module `econet`. -/
structure Econet where
  receiver : RxPhy
  rxFcs : BitVec 16
deriving DecidableEq, Repr

/-- The outputs of `econet`. -/
structure RxSignals where
  rxByte : BitVec 8
  rxFcs : BitVec 16
  rxByteReady : Bool
  rxFrameStart : Bool
  rxFrameEnd : Bool
deriving DecidableEq, Repr

namespace Econet

def signals (e : Econet) : RxSignals where
  rxByte := e.receiver.dataOut
  rxFcs := e.rxFcs
  rxByteReady := e.receiver.dataStrobe
  rxFrameStart := e.receiver.frameStart
  rxFrameEnd := e.receiver.frameEnd

/-- One rising edge of `econet_clk`.  The outer `Fcs.step` is the asynchronous reset by the start of
a frame reported on this edge. -/
def step (e : Econet) (rx inhibit : Bool) : Econet :=
  let receiver := e.receiver.step rx inhibit
  { receiver := receiver
    rxFcs := Fcs.step (Fcs.step e.rxFcs e.receiver.frameStart e.receiver.dataStrobe
      e.receiver.dataOut) receiver.frameStart false 0#8 }

end Econet

/-! ### `buffered_econet` -/

/-- `FRAME_STATE_IDLE` and `FRAME_STATE_RX`. -/
inductive FrameState where
  | idle
  | rx
deriving DecidableEq, Repr

/-- The registers and the buffer of `buffered_econet`.  The buffer of 512 words is taken as its 2048
bytes: byte lane `i` of word `n` is byte `4 * n + i`. -/
structure RxRegs where
  econetBuf : BitVec 11 → BitVec 8
  econetPtr : BitVec 11
  econetCtr : BitVec 11
  frameStart : BitVec 11
  /-- Only the cells 0 to 5 are ever written or read. -/
  frameAddress : BitVec 11 → BitVec 8
  frameState : FrameState
  monitorMode : Bool
  econetAddress : BitVec 16
  validStart : BitVec 11
  validEnd : BitVec 11
  validCnt : BitVec 11
  validAddress : BitVec 32
  validScout : BitVec 16
  sysFrameValid : Bool

namespace RxRegs

/-- `our_frame`: the end of a frame with a right check sequence for this station's address. -/
def ourFrame (r : RxRegs) (sig : RxSignals) : Bool :=
  sig.rxFrameEnd && sig.rxFcs == Fcs.fcsGood
    && r.econetAddress.extractLsb' 0 8 == r.frameAddress 0
    && r.econetAddress.extractLsb' 8 8 == r.frameAddress 1

/-- `monitor_frame`: the end of any frame, in monitor mode. -/
def monitorFrame (r : RxRegs) (sig : RxSignals) : Bool := sig.rxFrameEnd && r.monitorMode

/-- The process that latches the buffer pointer at the start of a frame. -/
def clockFrameStart (r : RxRegs) (sig : RxSignals) : BitVec 11 :=
  if sig.rxFrameStart then r.econetPtr else r.frameStart

/-- The process that extracts the addresses from the frame: its state. -/
def clockFrameState (r : RxRegs) (sig : RxSignals) : FrameState :=
  if sig.rxFrameEnd then .idle
  else match r.frameState with
    | .idle => if sig.rxFrameStart then .rx else .idle
    | .rx => .rx

/-- The process that extracts the addresses from the frame: its bytes. -/
def clockFrameAddress (r : RxRegs) (sig : RxSignals) : BitVec 11 → BitVec 8 :=
  if sig.rxFrameEnd then r.frameAddress
  else match r.frameState with
    | .idle => r.frameAddress
    | .rx =>
      -- the byte on the last edge before the counter moves on is the one that stays
      if r.econetCtr < 6#11 then Function.update r.frameAddress r.econetCtr sig.rxByte
      else r.frameAddress

/-- The byte counter. -/
def clockEconetCtr (r : RxRegs) (sig : RxSignals) : BitVec 11 :=
  if sig.rxFrameStart then 0#11 else if sig.rxByteReady then r.econetCtr + 1#11 else r.econetCtr

/-- The registers that a valid frame sets. -/
def latchValid (r : RxRegs) : RxRegs :=
  { r with
    validStart := r.frameStart
    validEnd := r.econetPtr
    validCnt := r.econetCtr
    validAddress := r.frameAddress 3 ++ r.frameAddress 2 ++ r.frameAddress 1 ++ r.frameAddress 0
    validScout := r.frameAddress 4 ++ r.frameAddress 5
    sysFrameValid := true }

/-- One rising edge of `econet_clk`.  `validRst` is the level of `valid_rst` at the edge. -/
def clock (r : RxRegs) (sig : RxSignals) (validRst : Bool) : RxRegs :=
  let valid :=
    -- the reset wins over a frame that ends on the same edge
    if validRst then { r with sysFrameValid := false }
    else if r.ourFrame sig || r.monitorFrame sig then r.latchValid
    else r
  { valid with
    frameStart := r.clockFrameStart sig
    frameState := r.clockFrameState sig
    frameAddress := r.clockFrameAddress sig
    econetCtr := r.clockEconetCtr sig
    econetBuf := if sig.rxByteReady then Function.update r.econetBuf r.econetPtr sig.rxByte
      else r.econetBuf
    econetPtr := if sig.rxByteReady then r.econetPtr + 1#11 else r.econetPtr }

/-- `REG_REPLY_ADDRESS`: the address of the sender in the low half, ours in the high half. -/
def replyAddress (r : RxRegs) : BitVec 32 :=
  r.validAddress.extractLsb' 8 8 ++ r.validAddress.extractLsb' 0 8
    ++ r.validAddress.extractLsb' 24 8 ++ r.validAddress.extractLsb' 16 8

/-- `REG_SCOUT_DATA`. -/
def scoutData (r : RxRegs) : BitVec 32 := r.validScout.setWidth 32

/-- The asynchronous reset of `frame_state` by the end of a frame. -/
def frameEndReset (r : RxRegs) (rxFrameEnd : Bool) : RxRegs :=
  if rxFrameEnd then { r with frameState := .idle } else r

/-- A write of the processor to the register at word `sysRegAddr`: `sysWr` are the byte enables.
Any write with byte enable 0 is the reset of `sys_frame_valid`. -/
def sysWrite (r : RxRegs) (sysRegAddr : BitVec 4) (sysWr : BitVec 4) (sysWdata : BitVec 32) :
    RxRegs :=
  { r with
    sysFrameValid := if sysWr.getLsbD 0 then false else r.sysFrameValid
    econetAddress :=
      if sysRegAddr = 6#4 then
        (if sysWr.getLsbD 1 then sysWdata.extractLsb' 8 8 else r.econetAddress.extractLsb' 8 8)
          ++ (if sysWr.getLsbD 0 then sysWdata.extractLsb' 0 8 else r.econetAddress.extractLsb' 0 8)
      else r.econetAddress
    monitorMode :=
      if sysRegAddr = 7#4 ∧ sysWr.getLsbD 1 then sysWdata.getLsbD 8 else r.monitorMode }

end RxRegs

/-- The module `buffered_econet`. -/
structure BufferedEconet where
  econet : Econet
  regs : RxRegs

/-- What can happen to the receiver: an edge of `econet_clk`, or a register write. -/
inductive RxInput where
  | clk (econetRx inhibit validRst : Bool)
  | sysWrite (sysRegAddr : BitVec 4) (sysWr : BitVec 4) (sysWdata : BitVec 32)
deriving DecidableEq, Repr

namespace BufferedEconet

def step (m : BufferedEconet) : RxInput → BufferedEconet
  | .clk econetRx inhibit validRst =>
    let econet := m.econet.step econetRx inhibit
    { econet := econet
      regs := (m.regs.clock m.econet.signals validRst).frameEndReset econet.receiver.frameEnd }
  | .sysWrite a wr d => { m with regs := m.regs.sysWrite a wr d }

/-- `reset` reaches the physical link and the monitor mode only. -/
structure AfterReset (m : BufferedEconet) : Prop where
  receiver : m.econet.receiver = .reset
  monitorMode : m.regs.monitorMode = false

/-- The receiver powered up with its memory cleared, at the station and net of `econetAddress`. -/
def powerUp (econetAddress : BitVec 16) : BufferedEconet where
  econet := ⟨.reset, 0#16⟩
  regs :=
    { econetBuf := fun _ => 0#8
      econetPtr := 0#11
      econetCtr := 0#11
      frameStart := 0#11
      frameAddress := fun _ => 0#8
      frameState := .idle
      monitorMode := false
      econetAddress := econetAddress
      validStart := 0#11
      validEnd := 0#11
      validCnt := 0#11
      validAddress := 0#32
      validScout := 0#16
      sysFrameValid := false }

theorem afterReset_powerUp (econetAddress : BitVec 16) : (powerUp econetAddress).AfterReset :=
  ⟨rfl, rfl⟩

/-- The bits sampled on the line, one an edge, with nothing inhibited. -/
def samples (bits : List Bool) : List RxInput := bits.map fun b => .clk b false false

/-- The receiver after a list of inputs. -/
def run (m : BufferedEconet) (is : List RxInput) : BufferedEconet := Machine.run step m is

/-- `our_frame` in the present state. -/
def ourFrame (m : BufferedEconet) : Bool := m.regs.ourFrame m.econet.signals

end BufferedEconet

end Filestick
