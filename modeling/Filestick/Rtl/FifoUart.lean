import Mathlib.Data.BitVec
import Mathlib.Logic.Function.Basic

/-!
# The receive side of the UART (`fifo.v`, `fifo_uart.v`)

`Fifo n` has the registers of `fifo` with `FIFO_SIZE = 2 ^ n`, and `FifoUart n` those of the
receive side of `fifo_uart`: the FIFO, the byte and the flag that `buart` shows, and the handshake
that moves the byte from the one to the other.  The serial receiver of `buart` is left out: on each
clock it either completes a byte or does not.
-/

namespace Filestick

/-- The registers of `fifo`, for a FIFO of `2 ^ n` bytes. -/
structure Fifo (n : ℕ) where
  fifoBuf : BitVec n → BitVec 8
  dataOut : BitVec 8
  fifoInPtr : BitVec n
  fifoOutPtr : BitVec n

namespace Fifo

variable {n : ℕ}

/-- `data_ready`. -/
def dataReady (f : Fifo n) : Bool := f.fifoInPtr != f.fifoOutPtr

/-- `avail`. -/
def avail (f : Fifo n) : BitVec n := f.fifoInPtr - f.fifoOutPtr

/-- `full`. -/
def full (f : Fifo n) : Bool := f.avail.toNat == 2 ^ n - 1

/-- `bytes_avail`: the port is 16 bits wide. -/
def bytesAvail (f : Fifo n) : BitVec 16 := f.avail.setWidth 16

/-- The read process and the write process on one clock. -/
def clock (f : Fifo n) (dataIn : BitVec 8) (wr rd : Bool) : Fifo n where
  fifoBuf := if wr then Function.update f.fifoBuf f.fifoInPtr dataIn else f.fifoBuf
  dataOut := if rd then f.fifoBuf f.fifoOutPtr else f.dataOut
  fifoInPtr := if wr then f.fifoInPtr + 1 else f.fifoInPtr
  fifoOutPtr := if rd then f.fifoOutPtr + 1 else f.fifoOutPtr

end Fifo

/-- What happens on a clock: the byte that the UART completes, and `rd` from the processor. -/
structure UartInput where
  arrival : Option (BitVec 8)
  rd : Bool

/-- The FIFO, the receive registers of `buart`, and the handshake of `fifo_uart`. -/
structure FifoUart (n : ℕ) where
  fifo : Fifo n
  recvBufData : BitVec 8
  recvBufValid : Bool
  uartRxFifoWrite : Bool
  uartRd : Bool
  uartReadState : Bool

namespace FifoUart

variable {n : ℕ}

/-- The handshake takes the byte of the UART on this clock (`cts` is `full`). -/
def takes (u : FifoUart n) : Bool := !u.uartReadState && u.recvBufValid && !u.fifo.full

/-- One clock. -/
def clock (u : FifoUart n) (i : UartInput) : FifoUart n where
  fifo := u.fifo.clock u.recvBufData u.uartRxFifoWrite i.rd
  recvBufData := i.arrival.getD u.recvBufData
  -- a byte that completes while the last one is being taken is kept
  recvBufValid := i.arrival.isSome || (u.recvBufValid && !u.uartRd)
  uartRxFifoWrite := if u.uartReadState then false else u.takes || u.uartRxFifoWrite
  uartRd := if u.uartReadState then false else u.takes || u.uartRd
  uartReadState := u.takes

/-- After a reset, with an empty FIFO. -/
structure Init (u : FifoUart n) : Prop where
  empty : u.fifo.fifoInPtr = u.fifo.fifoOutPtr
  recvBufValid : u.recvBufValid = false
  uartRxFifoWrite : u.uartRxFifoWrite = false
  uartRd : u.uartRd = false
  uartReadState : u.uartReadState = false

end FifoUart

end Filestick
