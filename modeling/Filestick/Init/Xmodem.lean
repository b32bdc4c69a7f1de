import Filestick.Lib.Overlay
import Filestick.System.File
import Mathlib.Data.List.DropRight

/-!
# Files over XMODEM (`xmodem_server.c`, `icommands.c`)

`XmodemServer` is the receiver, with the bytes that it has handed to `tx_byte`.  `Receive` is the
loop of `i_receive_xmodem`: an iteration takes a byte from the console if there is one, lets the
receiver look at the clock, and writes the packet that it hands out.  The loop also records the
bytes that came in, and the payloads of the packets that were acknowledged, as they stand in these
bytes.
-/

namespace Filestick.Xmodem

open FdTable (FResult)
open FileIo (OpenFile)

/-! ### The receiver -/

/-- `XMODEM_SOH`. -/
def xmodemSoh : BitVec 8 := 0x01#8

/-- `XMODEM_STX`. -/
def xmodemStx : BitVec 8 := 0x02#8

/-- `XMODEM_EOT`. -/
def xmodemEot : BitVec 8 := 0x04#8

/-- `XMODEM_ACK`. -/
def xmodemAck : BitVec 8 := 0x06#8

/-- `XMODEM_NACK`. -/
def xmodemNack : BitVec 8 := 0x15#8

/-- `XMODEM_CAN`. -/
def xmodemCan : BitVec 8 := 0x18#8

/-- `'C'`: the receiver asks for packets with a CRC. -/
def charC : BitVec 8 := 0x43#8

/-- `xmodem_server_state`. -/
inductive XmodemState where
  | start
  | soh
  | blockNum
  | blockNeg
  | data
  | crc0
  | crc1
  | processPacket
  | successful
  | failure
deriving DecidableEq, Repr

/-- `struct xmodem_server`; `tx` has the bytes that were handed to `tx_byte`. -/
structure XmodemServer where
  state : XmodemState
  packetData : ℕ → BitVec 8
  packetPos : ℕ
  crc : BitVec 16
  packetSize : ℕ
  repeating : Bool
  lastEventTime : ℤ
  blockNum : BitVec 32
  errorCount : BitVec 32
  tx : List (BitVec 8)

namespace XmodemServer

/-- `tx_byte`. -/
def txByte (xdm : XmodemServer) (byte : BitVec 8) : XmodemServer :=
  { xdm with tx := xdm.tx ++ [byte] }

/-- `xmodem_server_init`. -/
def init : XmodemServer :=
  ⟨.start, fun _ => 0#8, 0, 0#16, 0, false, 0, 0#32, 0#32, [charC]⟩

/-- The loop of `xmodem_server_crc`. -/
def crcBits (crc : BitVec 16) : ℕ → BitVec 16
  | 0 => crc
  | n + 1 => crcBits (if crc &&& 0x8000#16 ≠ 0#16 then crc <<< 1 ^^^ 0x1021#16 else crc <<< 1) n

/-- `xmodem_server_crc`. -/
def crcByte (crc : BitVec 16) (byte : BitVec 8) : BitVec 16 :=
  crcBits (crc ^^^ byte.setWidth 16 <<< 8) 8

/-- The first `packet_size` bytes of `packet_data`. -/
def packet (xdm : XmodemServer) : List (BitVec 8) := Overlay.slice xdm.packetData 0 xdm.packetSize

/-- The number of the next packet, or of the last one again. -/
def expected (xdm : XmodemServer) (repeating : Bool) : BitVec 8 :=
  (if repeating then xdm.blockNum else xdm.blockNum + 1#32).setWidth 8

/-- A byte in the wrong place: it may be the first one of a packet. -/
def resync (xdm : XmodemServer) (byte : BitVec 8) : XmodemServer :=
  if byte = xmodemSoh ∨ byte = xmodemStx then { xdm with state := .blockNum }
  else { xdm with state := .soh }

/-- `XMODEM_STATE_SOH`. -/
def rxSoh (xdm : XmodemServer) (byte : BitVec 8) : XmodemServer :=
  if byte = xmodemSoh then { xdm with state := .blockNum, packetSize := 128 }
  else if byte = xmodemStx then { xdm with state := .blockNum, packetSize := 1024 }
  else if byte = xmodemEot then { xdm with state := .successful }.txByte xmodemAck
  else xdm

/-- `XMODEM_STATE_BLOCK_NUM`. -/
def rxBlockNum (xdm : XmodemServer) (byte : BitVec 8) : XmodemServer :=
  if byte = xdm.expected false then { xdm with state := .blockNeg, repeating := false }
  else if byte = xdm.expected true then { xdm with state := .blockNeg, repeating := true }
  else xdm.resync byte

/-- `XMODEM_STATE_BLOCK_NEG`. -/
def rxBlockNeg (xdm : XmodemServer) (byte : BitVec 8) : XmodemServer :=
  if byte = ~~~(xdm.expected xdm.repeating) then { xdm with packetPos := 0, state := .data }
  else xdm.resync byte

/-- `XMODEM_STATE_DATA`. -/
def rxData (xdm : XmodemServer) (byte : BitVec 8) : XmodemServer :=
  let xdm := { xdm with
    packetData := Function.update xdm.packetData xdm.packetPos byte
    packetPos := xdm.packetPos + 1 }
  if xdm.packetSize ≤ xdm.packetPos then { xdm with state := .crc0 } else xdm

/-- `XMODEM_STATE_CRC1`. -/
def rxCrc1 (xdm : XmodemServer) (byte : BitVec 8) : XmodemServer :=
  let xdm := { xdm with crc := xdm.crc ||| byte.setWidth 16 }
  if xdm.packet.foldl crcByte 0#16 ≠ xdm.crc then
    { xdm with errorCount := xdm.errorCount + 1#32, state := .soh }.txByte xmodemNack
  else if xdm.repeating then { xdm with state := .soh }
  else { xdm with state := .processPacket }

/-- `xmodem_server_rx_byte`. -/
def rxByte (xdm : XmodemServer) (byte : BitVec 8) : XmodemServer :=
  match xdm.state with
  | .start | .soh => xdm.rxSoh byte
  | .blockNum => xdm.rxBlockNum byte
  | .blockNeg => xdm.rxBlockNeg byte
  | .data => xdm.rxData byte
  | .crc0 => { xdm with crc := byte.setWidth 16 <<< 8, state := .crc1 }
  | .crc1 => xdm.rxCrc1 byte
  | .processPacket | .successful | .failure => xdm

/-- `xmodem_server_is_done`. -/
def isDone (xdm : XmodemServer) : Bool := xdm.state = .successful ∨ xdm.state = .failure

/-- `xmodem_server_process` up to its look at the packet: the timer is started, the first `'C'` is
repeated, a packet that does not arrive is asked for again, and too many errors end the transfer. -/
def tick (xdm : XmodemServer) (msTime : ℤ) : XmodemServer :=
  let xdm := if xdm.lastEventTime = 0 then { xdm with lastEventTime := msTime } else xdm
  let xdm := if xdm.state = .start ∧ 500 < msTime - xdm.lastEventTime then
      { xdm.txByte charC with lastEventTime := msTime } else xdm
  let xdm := if 1000 < msTime - xdm.lastEventTime then
      { xdm.txByte xmodemNack with
        errorCount := xdm.errorCount + 1#32
        state := .soh
        lastEventTime := msTime } else xdm
  if 100 ≤ xdm.errorCount.toNat then
    { xdm.txByte xmodemCan with state := .failure, lastEventTime := msTime }
  else xdm

/-- `xmodem_server_process`: the packet and its number, where it returns the length of one. -/
def process (xdm : XmodemServer) (msTime : ℤ) :
    XmodemServer × Option (List (BitVec 8) × BitVec 32) :=
  if xdm.isDone then (xdm, none)
  else
    -- 0 stands for a timer that was not started
    let msTime := if msTime = 0 then 1 else msTime
    let xdm := xdm.tick msTime
    if xdm.state ≠ .processPacket then (xdm, none)
    else
      ({ xdm.txByte xmodemAck with
          lastEventTime := msTime
          blockNum := xdm.blockNum + 1#32
          state := .soh },
        some (xdm.packet, xdm.blockNum))

end XmodemServer

/-! ### The loop -/

/-- The loop of `i_receive_xmodem`, the bytes that came in, and the payloads of the packets that
were acknowledged. -/
structure Receive where
  xdm : XmodemServer
  faketime : BitVec 32
  file : OpenFile
  received : List (BitVec 8)
  acked : List (List (BitVec 8))

/-- What an iteration finds: a byte from the console, and what the disc makes of a write. -/
structure Input where
  rx : Option (BitVec 8)
  disc : FileIo.Transfer
deriving DecidableEq, Repr

namespace Receive

/-- The receiver and the bytes that came in, once the console has been looked at. -/
def listen (r : Receive) (rx : Option (BitVec 8)) : Receive :=
  match rx with
  | some byte => { r with xdm := r.xdm.rxByte byte, received := r.received ++ [byte] }
  | none => r

/-- `xmodem_server_process`, with the time that the iteration gives it. -/
def poll (r : Receive) : XmodemServer × Option (List (BitVec 8) × BitVec 32) :=
  r.xdm.process (r.faketime >>> 2).toNat

/-- The payload of a packet of `n` bytes that has just come in: what is before its two bytes of
CRC. -/
def payload (received : List (BitVec 8)) (n : ℕ) : List (BitVec 8) := (received.rdrop 2).rtake n

/-- An iteration of the loop.  What `write` returns is not looked at. -/
def step (r : Receive) (i : Input) : Receive :=
  if r.xdm.isDone then r
  else
    let r := r.listen i.rx
    let polled := r.poll
    match polled.2 with
    | none => { r with xdm := polled.1, faketime := r.faketime + 1#32 }
    | some (resp, _) =>
      { r with
        xdm := polled.1
        faketime := r.faketime + 1#32
        file := if 0 < resp.length then (FileIo.fileioWrite r.file resp i.disc).1 else r.file
        acked := r.acked ++ [payload r.received resp.length] }

/-- The loop before its first iteration. -/
def start (file : OpenFile) : Receive := ⟨.init, 0#32, file, [], []⟩

end Receive

/-- `O_CREAT|O_WRONLY`. -/
def rxFlags : BitVec 32 := 0x201#32

end Filestick.Xmodem
