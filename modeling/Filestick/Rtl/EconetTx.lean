import Filestick.Lib.Machine
import Filestick.Rtl.Fcs
import Mathlib.Logic.Function.Basic

/-!
# The Econet transmitter (`econet_tx_phy.v`, `econet_tx_buffered.v`)

`TxPhy` is the module `econet_tx`, which sends flags and stuffed bits, and `EconetTxBuffered` the
module `econet_tx_buffered`, which feeds it the bytes of the transmit buffer and the frame check
sequence.  Both work on the falling edge of `econet_clk` (`EconetTxBuffered.negedge`); the frame
check register takes in bytes on the rising edge (`EconetTxBuffered.posedge`).  A clock period is a
falling edge and the rising edge after it.

The asynchronous resets that depend on the state (`tx_requested` outside `STATE_IDLE`, the frame
check register in `STATE_IDLE`) take effect as soon as the falling edge has set the state.
-/

namespace Filestick

/-! ### `econet_tx` -/

/-- The states of `econet_tx`. -/
inductive TxPhyState where
  | idle
  | startSync
  | transmit
  | endSync
deriving DecidableEq, Repr

/-- The registers of `econet_tx`. -/
structure TxPhy where
  state : TxPhyState
  txbuf : BitVec 8
  bitcount : BitVec 3
  onecount : BitVec 3
  dataOut : Bool
  transmitting : Bool
deriving DecidableEq, Repr

namespace TxPhy

/-- `request_byte`: the next byte is taken in on the next edge. -/
def requestByte (s : TxPhy) : Bool := s.bitcount == 7#3 && s.state != .endSync

/-- `output_bit`. -/
def outputBit (s : TxPhy) : Bool := s.txbuf.getLsbD s.bitcount.toNat

/-- `STATE_IDLE`. -/
def stepIdle (s : TxPhy) (startFrame : Bool) : TxPhy :=
  { s with
    state := if startFrame then .startSync else s.state
    bitcount := 0#3
    dataOut := true }

/-- The two flags: a 0, six 1s and a 0, and then the state `next`. -/
def stepFlag (s : TxPhy) (next : TxPhyState) : TxPhy :=
  { s with
    dataOut := if s.bitcount = 0#3 then false else if s.bitcount < 7#3 then true else false
    state := if s.bitcount = 0#3 then s.state else if s.bitcount < 7#3 then s.state else next
    bitcount := s.bitcount + 1#3 }

/-- `STATE_TRANSMIT`: after five 1s a 0 is inserted, and the bit waits. -/
def stepTransmit (s : TxPhy) (endFrame : Bool) : TxPhy :=
  if s.onecount = 5#3 then
    { s with onecount := 0#3, dataOut := false }
  else
    { s with
      onecount := if s.outputBit then s.onecount + 1#3 else 0#3
      state := if s.bitcount = 7#3 ∧ endFrame then .endSync else s.state
      dataOut := s.outputBit
      bitcount := s.bitcount + 1#3 }

/-- One falling edge of `econet_clk` with `reset` low.  `txbuf` and `transmitting` have processes of
their own. -/
def step (s : TxPhy) (txByte : BitVec 8) (startFrame endFrame : Bool) : TxPhy :=
  let s' := match s.state with
    | .idle => s.stepIdle startFrame
    | .startSync => s.stepFlag .transmit
    | .transmit => s.stepTransmit endFrame
    | .endSync => s.stepFlag .idle
  { s' with
    txbuf := if s.requestByte then txByte else s.txbuf
    transmitting := s.state != .idle }

end TxPhy

/-! ### `econet_tx_buffered` -/

/-- The states of `econet_tx_buffered`. -/
inductive TxState where
  | idle
  | rxwait
  | txStart
  | tx
  | fcs1
  | fcs2
  | txEnd
deriving DecidableEq, Repr

/-- The module `econet_tx_buffered`. -/
structure EconetTxBuffered where
  econetBuf : BitVec 9 → BitVec 32
  bufReg : BitVec 32
  idleCounter : BitVec 4
  turnaround : Bool
  econetCtr : BitVec 11
  bufferStart : BitVec 11
  bufferEnd : BitVec 11
  state : TxState
  txRequested : Bool
  startFrame : Bool
  endFrame : Bool
  transmitter : TxPhy
  txFcs : BitVec 16

/-- Byte lane `lane` of a word. -/
def byteLane (word : BitVec 32) (lane : BitVec 2) : BitVec 8 :=
  word.extractLsb' (8 * lane.toNat) 8

namespace EconetTxBuffered

/-- The byte at an address of the transmit buffer. -/
def bufByte (buf : BitVec 9 → BitVec 32) (a : BitVec 11) : BitVec 8 :=
  byteLane (buf (a.extractLsb' 2 9)) (a.extractLsb' 0 2)

/-- `econet_byte`: the lane of `buf_reg` that `econet_ctr` selects. -/
def econetByte (s : EconetTxBuffered) : BitVec 8 := byteLane s.bufReg (s.econetCtr.extractLsb' 0 2)

/-- `tx_byte`: the byte offered to the transmitter; the bits 2 and 0 of the state select it. -/
def txByte (s : EconetTxBuffered) : BitVec 8 :=
  match s.state with
  | .idle | .rxwait | .txStart | .tx => s.econetByte
  | .fcs1 => ~~~(s.txFcs.extractLsb' 0 8)
  | .fcs2 | .txEnd => ~~~(s.txFcs.extractLsb' 8 8)

/-- `line_ready`: nothing is received, and the line was idle for 15 clocks or this is a reply. -/
def lineReady (s : EconetTxBuffered) (receiving : Bool) : Bool :=
  !receiving && (s.idleCounter == 15#4 || s.turnaround)

/-- `busy`. -/
def busy (s : EconetTxBuffered) : Bool := s.state != .idle || s.transmitter.transmitting

/-- The state machine on a falling edge: `increment_ctr` is `request_byte` of the transmitter. -/
def stepState (s : EconetTxBuffered) (receiving : Bool) : EconetTxBuffered :=
  match s.state with
  | .idle =>
    { s with
      econetCtr := s.bufferStart
      startFrame := false
      endFrame := false
      state := if s.txRequested then (if s.lineReady receiving then .txStart else .rxwait)
        else .idle }
  | .rxwait => { s with state := if s.lineReady receiving then .txStart else .rxwait }
  -- `start_frame` is high for one clock
  | .txStart => { s with startFrame := true, state := .tx }
  | .tx =>
    { s with
      startFrame := false
      state := if s.transmitter.requestByte && s.econetCtr == s.bufferEnd then .fcs1 else .tx
      econetCtr := if s.transmitter.requestByte && s.econetCtr != s.bufferEnd
        then s.econetCtr + 1#11 else s.econetCtr }
  | .fcs1 => { s with state := if s.transmitter.requestByte then .fcs2 else .fcs1 }
  | .fcs2 => { s with state := if s.transmitter.requestByte then .txEnd else .fcs2 }
  | .txEnd =>
    { s with
      -- `end_frame` is high until the state machine is idle again
      endFrame := true
      state := if s.transmitter.requestByte then .idle else .txEnd }

/-- The asynchronous resets after the state has changed. -/
def stateResets (s : EconetTxBuffered) : EconetTxBuffered :=
  { s with
    txRequested := if s.state = .idle then s.txRequested else false
    txFcs := if s.state = .idle then Fcs.fcsInit else s.txFcs }

/-- One falling edge of `econet_clk` with `reset` low.  `receiving` also resets the idle counter. -/
def negedge (s : EconetTxBuffered) (receiving : Bool) : EconetTxBuffered :=
  stateResets
    { s.stepState receiving with
      bufReg := s.econetBuf (s.econetCtr.extractLsb' 2 9)
      idleCounter := if receiving then 0#4
        else if s.idleCounter = 15#4 then s.idleCounter else s.idleCounter + 1#4
      transmitter := s.transmitter.step s.txByte s.startFrame s.endFrame }

/-- One rising edge of `econet_clk`: the frame check register. -/
def posedge (s : EconetTxBuffered) : EconetTxBuffered :=
  { s with
    txFcs := Fcs.step s.txFcs (s.state == .idle) (s.transmitter.requestByte && s.state == .tx)
      s.econetByte }

/-- `receiving` rising between two edges. -/
def receivingEdge (s : EconetTxBuffered) : EconetTxBuffered := { s with idleCounter := 0#4 }

/-- A clock period. -/
def period (s : EconetTxBuffered) (receiving : Bool) : EconetTxBuffered :=
  (s.negedge receiving).posedge

/-- A store of the processor to the transmit buffer: the block RAM has 512 words and ignores the
excess top bit of the word address. -/
def writeBuf (s : EconetTxBuffered) (sysAddr : BitVec 10) (sysWe : BitVec 4)
    (sysWdata : BitVec 32) :
    EconetTxBuffered :=
  let lane := fun i : BitVec 2 =>
    if sysWe.getLsbD i.toNat then byteLane sysWdata i
    else byteLane (s.econetBuf (sysAddr.setWidth 9)) i
  { s with
    econetBuf := Function.update s.econetBuf (sysAddr.setWidth 9)
      (lane 3 ++ lane 2 ++ lane 1 ++ lane 0) }

/-- A store to `REG_STARTADDR`. -/
def writeStart (s : EconetTxBuffered) (sysWdata : BitVec 32) : EconetTxBuffered :=
  { s with bufferStart := sysWdata.setWidth 11 }

/-- A store to `REG_ENDADDR`, which requests a transmission; the request is held in reset while the
state machine is not idle. -/
def writeEnd (s : EconetTxBuffered) (sysWdata : BitVec 32) : EconetTxBuffered :=
  { s with
    bufferEnd := sysWdata.setWidth 11
    txRequested := if s.state = .idle then true else false }

/-- A store to `REG_CONTROL`. -/
def writeControl (s : EconetTxBuffered) (sysWdata : BitVec 32) : EconetTxBuffered :=
  { s with turnaround := sysWdata.getLsbD 0 }

/-- The state after `reset`, from any contents of the registers that it does not reach. -/
def reset (s : EconetTxBuffered) : EconetTxBuffered :=
  { s with
    state := .idle
    startFrame := false
    endFrame := false
    txRequested := false
    idleCounter := 0#4
    txFcs := Fcs.fcsInit
    transmitter := { s.transmitter with
      state := .idle
      txbuf := 0#8
      dataOut := true
      onecount := 0#3 } }

/-- What can happen to the transmitter. -/
inductive Input where
  | period (receiving : Bool)
  | receivingEdge
  | writeBuf (sysAddr : BitVec 10) (sysWe : BitVec 4) (sysWdata : BitVec 32)
  | writeStart (sysWdata : BitVec 32)
  | writeEnd (sysWdata : BitVec 32)
  | writeControl (sysWdata : BitVec 32)
  | reset

/-- The state after an input. -/
def step (s : EconetTxBuffered) : Input → EconetTxBuffered
  | .period receiving => s.period receiving
  | .receivingEdge => s.receivingEdge
  | .writeBuf sysAddr sysWe sysWdata => s.writeBuf sysAddr sysWe sysWdata
  | .writeStart sysWdata => s.writeStart sysWdata
  | .writeEnd sysWdata => s.writeEnd sysWdata
  | .writeControl sysWdata => s.writeControl sysWdata
  | .reset => s.reset

/-- The states that a reset and any inputs after it lead to. -/
def Reachable (s : EconetTxBuffered) : Prop :=
  ∃ (s₀ : EconetTxBuffered) (is : List Input), s = Machine.run step s₀.reset is

/-- The state after `t` clock periods without a store; `receiving u` is sampled in period `u`. -/
def after (s : EconetTxBuffered) (receiving : ℕ → Bool) : ℕ → EconetTxBuffered
  | 0 => s
  | t + 1 => (s.after receiving t).period (receiving t)

/-- The bit on the line, while the line driver is on. -/
def lineBit (s : EconetTxBuffered) : List Bool :=
  if s.transmitter.transmitting then [s.transmitter.dataOut] else []

/-- The bits put on the line in the first `t` clock periods. -/
def driven (s : EconetTxBuffered) (receiving : ℕ → Bool) : ℕ → List Bool
  | 0 => []
  | t + 1 => s.driven receiving t ++ (s.after receiving (t + 1)).lineBit

/-- The transmitter is idle: both state machines are, and the line driver is off. -/
structure Idle (s : EconetTxBuffered) : Prop where
  state : s.state = .idle
  transmitter : s.transmitter.state = .idle
  transmitting : s.transmitter.transmitting = false

end EconetTxBuffered

end Filestick
