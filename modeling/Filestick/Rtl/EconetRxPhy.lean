import Filestick.Lib.Machine

/-!
# The Econet receiver's physical link (`econet_rx_phy.v`)

`RxPhy` holds the registers of the module `econet_rx`, and `RxPhy.step` is its clocked process: one
call is one rising edge of `econet_clk`, every register on the right is the value before the edge.
The four branches of the `case` are `stepIdle`, `stepRxSync`, `stepSync` and `stepWaitIdle`.

`RxPhy.events` reads the three strobes of the module after an edge; `rxEvents` lists them over a
run.
-/

namespace Filestick

/-- The physical link states. -/
inductive PhyState where
  /-- `STATE_PHY_IDLE`: the line is idling. -/
  | idle
  /-- `STATE_PHY_RX_SYNC`: a zero was detected, test for the sync pattern. -/
  | rxSync
  /-- `STATE_PHY_SYNC`: sync successfully received. -/
  | sync
  /-- `STATE_PHY_WAIT_IDLE`: wait for the line to go idle. -/
  | waitIdle
deriving DecidableEq, Repr

/-- The registers of `econet_rx`. -/
structure RxPhy where
  rxbuf : BitVec 8
  dataOut : BitVec 8
  phyState : PhyState
  oneCounter : BitVec 4
  bitCounter : BitVec 4
  dataStrobe : Bool
  endSync : Bool
  frameStart : Bool
  frameEnd : Bool
deriving DecidableEq, Repr

namespace RxPhy

/-- The registers after `reset`. -/
def reset : RxPhy where
  rxbuf := 0#8
  dataOut := 0#8
  phyState := .idle
  oneCounter := 0#4
  bitCounter := 0#4
  dataStrobe := false
  endSync := false
  frameStart := false
  frameEnd := false

/-- `STATE_PHY_IDLE`: the line idles at 1, so a 0 means that someone is transmitting. -/
def stepIdle (s : RxPhy) (econetData inhibit : Bool) : RxPhy :=
  { s with
    oneCounter := 0#4
    endSync := false
    frameStart := false
    frameEnd := false
    phyState := if !econetData && !inhibit then .rxSync else s.phyState }

/-- `STATE_PHY_RX_SYNC`: six 1s and a 0 are a sync pattern, all else is an error or an abort. -/
def stepRxSync (s : RxPhy) (econetData : Bool) : RxPhy :=
  if econetData then
    { s with
      -- a seventh 1 aborts
      phyState := if s.oneCounter = 6#4 then .idle else s.phyState
      oneCounter := s.oneCounter + 1#4 }
  else if s.oneCounter ≠ 6#4 then
    { s with phyState := .waitIdle, oneCounter := 0#4 }
  else
    { s with
      frameEnd := if s.endSync then true else s.frameEnd
      frameStart := if s.endSync then s.frameStart else true
      phyState := if s.endSync then .idle else .sync
      oneCounter := 0#4
      bitCounter := 0#4
      rxbuf := 0#8
      dataOut := 0#8 }

/-- `STATE_PHY_SYNC`: the data bits.  A 0 after five 1s is dropped, and leaves `data_strobe`. -/
def stepSync (s : RxPhy) (econetData : Bool) : RxPhy :=
  if econetData then
    if s.bitCounter = 7#4 then
      { s with
        frameStart := false
        -- a sixth 1 is the beginning of a flag or of an abort
        phyState := if s.oneCounter = 5#4 then .rxSync else s.phyState
        oneCounter := s.oneCounter + 1#4
        dataOut := (s.rxbuf >>> 1) ||| 0x80#8
        bitCounter := 0#4
        dataStrobe := true
        endSync := true }
    else
      { s with
        frameStart := false
        phyState := if s.oneCounter = 5#4 then .rxSync else s.phyState
        oneCounter := s.oneCounter + 1#4
        dataStrobe := false
        rxbuf := 0x80#8 ||| (s.rxbuf >>> 1)
        bitCounter := s.bitCounter + 1#4 }
  else if s.oneCounter = 5#4 then
    -- a stuffed 0
    { s with frameStart := false, oneCounter := 0#4 }
  else if s.bitCounter = 7#4 then
    { s with
      frameStart := false
      oneCounter := 0#4
      dataOut := s.rxbuf >>> 1
      bitCounter := 0#4
      dataStrobe := true
      endSync := true }
  else
    { s with
      frameStart := false
      oneCounter := 0#4
      dataStrobe := false
      rxbuf := s.rxbuf >>> 1
      bitCounter := s.bitCounter + 1#4 }

/-- `STATE_PHY_WAIT_IDLE`: wait for at least seven 1s; a 0 may start a new sync pattern. -/
def stepWaitIdle (s : RxPhy) (econetData : Bool) : RxPhy :=
  if econetData then
    { s with
      phyState := if s.oneCounter = 7#4 then .idle else s.phyState
      oneCounter := s.oneCounter + 1#4 }
  else
    -- the 1s counted so far are counted on
    { s with phyState := .rxSync }

/-- One rising edge of `econet_clk` with `reset` low. -/
def step (s : RxPhy) (econetData inhibit : Bool) : RxPhy :=
  match s.phyState with
  | .idle => s.stepIdle econetData inhibit
  | .rxSync => s.stepRxSync econetData
  | .sync => s.stepSync econetData
  | .waitIdle => s.stepWaitIdle econetData

/-- `receiving`: the line is held low, or the link is not idle. -/
def receiving (s : RxPhy) (econetData inhibit : Bool) : Bool :=
  (!inhibit && !econetData) || s.phyState != .idle

end RxPhy

/-- What the receiver reports on a clock. -/
inductive RxEvent where
  | frameStart
  | byte (b : BitVec 8)
  | frameEnd
deriving DecidableEq, Repr

/-- The strobes that are high after an edge; a byte is reported by `data_strobe` with `data_out`. -/
def RxPhy.events (s : RxPhy) : List RxEvent :=
  (if s.frameStart then [.frameStart] else [])
    ++ (if s.dataStrobe then [.byte s.dataOut] else [])
    ++ (if s.frameEnd then [.frameEnd] else [])

/-- The reports, clock by clock, while the bits are sampled with `inhibit` low. -/
def rxEvents (s : RxPhy) (bits : List Bool) : List RxEvent :=
  (Machine.trace (fun s b => RxPhy.step s b false) RxPhy.events s bits).flatten

/-- The receiver after the bits, sampled with `inhibit` low. -/
def rxRun (s : RxPhy) (bits : List Bool) : RxPhy :=
  Machine.run (fun s b => RxPhy.step s b false) s bits

end Filestick
