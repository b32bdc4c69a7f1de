import Filestick.Lib.Prog
import Filestick.Rtl.EconetTx
import Filestick.Rtl.Equiv.EconetRxBuffered
import Filestick.System.MaxFileDescriptors

/-!
# The Econet driver (`raw_econet.c`, `econet_rx.S`, `isr_trap.S`)

The shared state is a `Driver`: the receiver, the transmitter and timer A, wired as in `toplevel.v`,
the variables of the driver, and a record of what has happened, which no code reads.  `econetRead`,
`econetPeek`, `econetWrite` and the interrupt handler `isrTrap` are programs over it, one access an
instruction that touches a register, the buffers or a variable.  `econetKernel` puts them on one
processor.
-/

namespace Filestick.RawEconet

/-! ### Timer A (`timer.v`) -/

/-- The registers of `timer`. -/
structure Timer where
  timerval : BitVec 32
  count : BitVec 32
  enable : Bool
deriving DecidableEq, Repr

namespace Timer

/-- `interrupt`. -/
def interrupt (t : Timer) : Bool := t.count == t.timerval && t.enable

/-- A clock. -/
def tick (t : Timer) : Timer :=
  { t with count := if t.enable && t.count < t.timerval then t.count + 1#32 else t.count }

/-- A store to `REG_TIMERVAL`. -/
def writeVal (t : Timer) (v : BitVec 32) : Timer := { t with timerval := v }

/-- A store to `REG_STATUS`: bit 0 resets the counter and bit 1 enables it. -/
def writeStatus (t : Timer) (v : BitVec 32) : Timer :=
  { t with enable := v.getLsbD 1, count := if v.getLsbD 0 then 0#32 else t.count }

end Timer

/-! ### The state -/

/-- A destination of a descriptor. -/
structure EconetAddr where
  port : BitVec 8
  net : BitVec 8
  station : BitVec 8
deriving DecidableEq, Repr

/-- A file descriptor, below `MAX_FILE_DESCRIPTORS`. -/
abbrev Fd := Fin 16

/-- The variables of the driver, and the interrupt enable of the processor. -/
structure Vars where
  mstatus : Bool
  handshakeState : BitVec 32
  pendingPort : BitVec 32
  bufStart : BitVec 32
  bufLen : BitVec 32
  txStart : BitVec 32
  txEnd : BitVec 32
  txStatus : BitVec 32
  timeoutState : BitVec 32
  monitorFrames : BitVec 32
  lastMonitorFrames : BitVec 32
  portList : BitVec 8 → BitVec 8
  fdRxPortmap : Fd → BitVec 8
  fdTxDestmap : Fd → EconetAddr
  econetAddress : BitVec 16

/-- What the receiver has done: the frame that it receives, the last one that it accepted, and the
number of bytes that it has stored since the start of that one, and since the first byte that is not
read of the payload acknowledged last. -/
structure RxLog where
  frame : FrameLog
  accepted : List (BitVec 8)
  since : ℕ
  unreadSince : ℕ

/-- What the driver has done: the port named by the last acknowledged scout; of the payload
acknowledged last, its port, what is not read, and where that is in the buffer; the payloads
acknowledged and the bytes returned, with their ports; whether `econet_read` copies, and whether
`econet_write` is between its wait for the line and its request. -/
structure Delivery where
  scoutPort : BitVec 8
  unreadPort : BitVec 8
  unread : List (BitVec 8)
  unreadStart : BitVec 11
  acked : List (BitVec 8 × List (BitVec 8))
  returned : List (BitVec 8 × List (BitVec 8))
  reading : Bool
  writing : Bool

/-- The shared state. -/
structure Driver where
  rx : BufferedEconet
  tx : EconetTxBuffered
  timer : Timer
  /-- The level on the line. -/
  econetRx : Bool
  vars : Vars
  log : RxLog
  deliv : Delivery

namespace Driver

/-- `econet_transmitting`, which inhibits the receiver. -/
def transmitting (d : Driver) : Bool := d.tx.transmitter.transmitting

/-- `receiving`. -/
def receiving (d : Driver) : Bool :=
  (!d.transmitting && !d.econetRx) || d.rx.econet.receiver.phyState != .idle

/-- `sys_frame_valid`. -/
def frameValid (d : Driver) : Bool := d.rx.regs.sysFrameValid

/-- The ready flag of a port: bit 7 of its entry in `econet_port_list`. -/
def flag (d : Driver) (port : BitVec 8) : Bool := (d.vars.portList port).getLsbD 7

/-- A frame is accepted on the next rising edge of `econet_clk`. -/
def accepts (d : Driver) : Bool :=
  d.rx.regs.ourFrame d.rx.econet.signals || d.rx.regs.monitorFrame d.rx.econet.signals

/-- A byte is stored on the next rising edge of `econet_clk`. -/
def strobes (d : Driver) : Bool := d.rx.econet.receiver.dataStrobe

/-- The transmitter has nothing in hand: no request, `STATE_IDLE`, and not transmitting. -/
def txFree (d : Driver) : Bool :=
  !d.tx.txRequested && d.tx.state == .idle && !d.tx.transmitter.transmitting

end Driver

/-! ### The hardware -/

/-- The moves of the hardware: the line changes its level, `econet_clk` rises or falls, or the
system clock ticks. -/
inductive Hw where
  | line (level : Bool)
  | rise
  | fall
  | tick
deriving DecidableEq, Repr

/-- The record of the receiver on a rising edge. -/
def RxLog.rise (g : RxLog) (sig : RxSignals) (accepts : Bool) : RxLog :=
  let stored := if sig.rxByteReady then 1 else 0
  { frame := g.frame.clock sig
    accepted := if accepts then g.frame.bytes else g.accepted
    since := (if accepts then g.frame.content.length else g.since) + stored
    unreadSince := g.unreadSince + stored }

namespace Driver

/-- What the clocks and the line do. -/
def move (d : Driver) : Hw → Driver
  | .line level => { d with econetRx := level }
  | .rise =>
    { d with
      rx := d.rx.step (.clk d.econetRx d.transmitting false)
      tx := d.tx.posedge
      log := d.log.rise d.rx.econet.signals d.accepts }
  | .fall => { d with tx := d.tx.negedge d.receiving }
  | .tick => { d with timer := d.timer.tick }

/-- `receiving` holds the idle counter of the transmitter in reset. -/
def settle (d : Driver) : Driver := if d.receiving then { d with tx := d.tx.receivingEdge } else d

/-- A move of the hardware. -/
def hw (d : Driver) (i : Hw) : Driver := (d.move i).settle

end Driver

/-! ### Accesses -/

/-- The labels of accesses: a store to the transmit buffer, `TXSTART` or `TXEND`; the two reads of
the loop in which `econet_write` waits for the line; the first access of `.data_ack`, and its store
that marks the port as ready; a read of the receive buffer; the first access of `.econet_monitor`;
the stores to `econet_handshake_state` of `STATE_WAITDATA`, of `STATE_TXSCOUT`, of `STATE_TXDATA`,
of `.data_ack`, of `.rx_data_ack`, of `.tx_error` and of `econet_timeout`; the store of the port of
an acknowledged scout; the first store that binds a descriptor to a port; and the others. -/
inductive Access where
  | plain
  | txStore
  | lineStatus
  | lineIdle
  | dataAck
  | ready
  | rxRead
  | monitor
  | scoutState
  | scoutPort (port : BitVec 8)
  | txScout (dest : EconetAddr)
  | ackScout
  | dataState
  | ackData
  | errorState
  | timeoutState
  | bind (fd : Fd) (port : BitVec 8)
deriving DecidableEq, Repr

/-- Code of the driver. -/
abbrev Code := Prog Driver Access

/-- A load. -/
def load {α : Type} (f : Driver → α) : Code α := .read .plain f

/-- A store to a variable. -/
def store (f : Vars → Vars) : Code Unit := .modify .plain fun d => { d with vars := f d.vars }

/-- A store to a variable with a label. -/
def storeAs (l : Access) (f : Vars → Vars) : Code Unit :=
  .modify l fun d => { d with vars := f d.vars }

/-- A store to a register of timer A. -/
def storeTimer (f : Timer → Timer) : Code Unit :=
  .modify .plain fun d => { d with timer := f d.timer }

/-- A store to the transmit buffer, `TXSTART` or `TXEND`. -/
def storeTx (f : EconetTxBuffered → EconetTxBuffered) : Code Unit :=
  .modify .txStore fun d => { d with tx := f d.tx }

/-- A store to `TXSTATUS`. -/
def storeTxStatus (v : BitVec 32) : Code Unit :=
  .modify .plain fun d => { d with tx := d.tx.writeControl v }

/-! ### `econet_rx.S` -/

/-- `RXLEN`. -/
def rxLen (d : Driver) : BitVec 32 := d.rx.regs.validCnt.setWidth 32

/-- `REPLYADDR`: the address of the sender before ours. -/
def replyAddr (d : Driver) : BitVec 32 :=
  d.rx.regs.validAddress.extractLsb' 0 16 ++ d.rx.regs.validAddress.extractLsb' 16 16

/-- What is sent of a frame to the reader: all but our address and the check sequence. -/
def payload (frame : List (BitVec 8)) : List (BitVec 8) := (frame.drop 2).take (frame.length - 4)

/-- `.econet_ack`. -/
def econetAck : Code Unit := do
  -- a reply does not wait until the line is idle
  storeTxStatus 1#32
  let reply ← load replyAddr
  storeTx (·.writeBuf 0#10 0b1111#4 reply)
  storeTx (·.writeStart 0#32)
  -- the store to `TXEND` requests the transmission
  storeTx (·.writeEnd 3#32)
  -- a quarter of a second for the next frame of the peer
  storeTimer (·.writeVal 3000000#32)
  storeTimer (·.writeStatus 2#32)

/-- `.econet_rx_imm`: the machine type is the only immediate operation that is answered. -/
def econetRxImm : Code Unit := do
  let len ← load rxLen
  if len = 12#32 then
    let flag ← load fun d => d.rx.regs.validScout.extractLsb' 8 8
    if flag = 0x88#8 then
      storeTxStatus 1#32
      let reply ← load replyAddr
      storeTx (·.writeBuf 0#10 0b1111#4 reply)
      -- `ECONET_MACHTYPE`
      storeTx (·.writeBuf 1#10 0b1111#4 0x00012F42#32)
      storeTx (·.writeStart 0#32)
      storeTx (·.writeEnd 7#32)

/-- `.scout_ack`. -/
def scoutAck : Code Unit := do
  let len ← load rxLen
  if len = 8#32 then
    let port ← load fun d => d.rx.regs.validScout.extractLsb' 0 8
    let fd ← load fun d => d.vars.portList port
    -- 0 is the entry of a port that no descriptor listens on
    if fd ≠ 0#8 then
      storeAs .scoutState ({ · with handshakeState := 1#32 })
      Prog.modify (.scoutPort port) fun d =>
        { d with
          vars := { d.vars with pendingPort := port.setWidth 32 }
          deliv := { d.deliv with scoutPort := port } }
      econetAck
  else econetRxImm

/-- The record of an acknowledged payload. -/
def Driver.acknowledge (d : Driver) : Driver :=
  { d with
    log := { d.log with unreadSince := d.log.since - 2 }
    deliv := { d.deliv with
      unreadPort := d.vars.pendingPort.setWidth 8
      unread := payload d.log.accepted
      unreadStart := d.rx.regs.validStart + 2#11
      acked := d.deliv.acked ++ [(d.deliv.scoutPort, payload d.log.accepted)] } }

/-- `.data_ack`.  The entry of the port is addressed by the low byte of `econet_pending_port`, which
is all that is ever stored there. -/
def dataAck : Code Unit := do
  let port ← Prog.read .dataAck fun d => d.vars.pendingPort.setWidth 8
  let fd ← load fun d => d.vars.portList port
  Prog.modify .ready fun d => Driver.acknowledge { d with
    vars := { d.vars with portList := Function.update d.vars.portList port (fd ||| 0x80#8) } }
  storeAs .dataState ({ · with handshakeState := 0#32 })
  let start ← load fun d => d.rx.regs.validStart.setWidth 32
  -- past our address
  store ({ · with bufStart := start + 2#32 })
  let len ← load rxLen
  -- without our address and the check sequence
  store ({ · with bufLen := len - 4#32 })
  econetAck

/-- `.tx_error`. -/
def txError : Code Unit := do
  storeAs .errorState ({ · with handshakeState := 0#32 })
  store ({ · with txStatus := 2#32 })

/-- `.rx_scout_ack`. -/
def rxScoutAck : Code Unit := do
  let len ← load rxLen
  if len = 6#32 then
    -- the length is all that is checked: any station may have sent the frame
    storeTxStatus 1#32
    storeAs .ackScout ({ · with handshakeState := 3#32 })
    let start ← load (·.vars.txStart)
    storeTx (·.writeStart start)
    let fin ← load (·.vars.txEnd)
    storeTx (·.writeEnd fin)
    storeTimer (·.writeVal 3000000#32)
    storeTimer (·.writeStatus 2#32)
  else txError

/-- `.rx_data_ack`. -/
def rxDataAck : Code Unit := do
  let len ← load rxLen
  if len = 6#32 then
    storeAs .ackData ({ · with handshakeState := 0#32 })
    store ({ · with txStatus := 1#32 })
  else txError

/-- `.econet_monitor`. -/
def rxMonitor : Code Unit := do
  -- nothing is acknowledged, and the timer is not started again
  let frames ← Prog.read .monitor (·.vars.monitorFrames)
  store ({ · with monitorFrames := frames + 1#32 })
  let start ← load fun d => d.rx.regs.validStart.setWidth 32
  store ({ · with bufStart := start })
  let len ← load rxLen
  store ({ · with bufLen := len })

/-- `econet_rx`. -/
def econetRx : Code Unit := do
  Prog.modify .plain fun d => { d with rx := d.rx.step (.sysWrite 7#4 1#4 1#32) }
  -- every frame stops the timer
  storeTimer (·.writeStatus 1#32)
  let monitor ← load (·.rx.regs.monitorMode)
  if monitor then rxMonitor
  else
    let state ← load (·.vars.handshakeState)
    if state = 0#32 then scoutAck
    else if state = 1#32 then dataAck
    else if state = 2#32 then rxScoutAck
    else if state = 3#32 then rxDataAck
    else pure ()

/-- `econet_timeout`. -/
def econetTimeout : Code Unit := do
  storeTimer (·.writeStatus 1#32)
  -- `econet_write` tells by this state which frame was not answered
  let state ← load (·.vars.handshakeState)
  store ({ · with timeoutState := state })
  storeAs .timeoutState ({ · with handshakeState := 0#32 })

/-- `isr_trap`.  The other devices that it looks at have nothing to do with Econet. -/
def isrTrap : Code Unit := do
  let valid ← load Driver.frameValid
  if valid then econetRx
  else
    let timeout ← load (·.timer.interrupt)
    if timeout then econetTimeout else pure ()

/-! ### `raw_econet.c` -/

/-- The errors that the driver returns. -/
inductive Errno where
  | einval
  | emsgsize
  | edestaddrreq
  | ehostunreach
  | etimedout
deriving DecidableEq, Repr

/-- What a system call returns.  A read also gives the port of its descriptor and the bytes that it
has copied. -/
inductive Reply where
  | data (port : BitVec 8) (bytes : List (BitVec 8))
  | monitored (bytes : List (BitVec 8))
  | count (n : BitVec 32)
  | error (e : Errno)
deriving DecidableEq, Repr

/-- The accesses of `memcpy` to the side that is a buffer: words when both sides are aligned, and
bytes. -/
def memcpyChunks (dest src : BitVec 32) (n : ℕ) : List ℕ :=
  if dest.extractLsb' 0 2 ||| src.extractLsb' 0 2 = 0#2 ∧ 4 ≤ n then
    List.replicate (n / 4) 4 ++ List.replicate (n % 4) 1
  else List.replicate n 1

/-- `memcpy` from the receive buffer: its 2048 bytes repeat in the address space. -/
def copyRx : List ℕ → BitVec 32 → Code (List (BitVec 8))
  | [], _ => pure []
  | c :: cs, src => do
    let bytes ← Prog.read .rxRead fun d => Ring.slice d.rx.regs.econetBuf (src.setWidth 11) c
    let rest ← copyRx cs (src + BitVec.ofNat 32 c)
    return bytes ++ rest

/-- `copy_sz`: `econet_buf_len` is read once more when it is not above `count`. -/
def copySize (count : BitVec 32) : Code (BitVec 32) := do
  let len ← load (·.vars.bufLen)
  if count < len then return count else load (·.vars.bufLen)

/-- `econet_monitor`. -/
def econetMonitor (ptr count : BitVec 32) : Code Reply := do
  Prog.wait [] (.plain, fun d => d.vars.monitorFrames == d.vars.lastMonitorFrames) id
  let copySz ← copySize count
  let start ← load (·.vars.bufStart)
  let bytes ← copyRx (memcpyChunks ptr (0x810000#32 + start) copySz.toNat) (0x810000#32 + start)
  let len ← load (·.vars.bufLen)
  if copySz < len then
    let len ← load (·.vars.bufLen)
    store ({ · with bufLen := len - copySz })
    let start ← load (·.vars.bufStart)
    store ({ · with bufStart := start + copySz })
  else store fun v => { v with lastMonitorFrames := v.lastMonitorFrames + 1#32 }
  return .monitored bytes

/-- The record when `econet_read` starts to copy. -/
def Driver.beginRead (d : Driver) : Driver := { d with deliv := { d.deliv with reading := true } }

/-- The record when `econet_read` leaves a part of the payload. -/
def Driver.keepRest (d : Driver) (n : BitVec 32) : Driver :=
  { d with
    log := { d.log with unreadSince := d.log.unreadSince - n.toNat }
    deliv := { d.deliv with
      unread := d.deliv.unread.drop n.toNat
      unreadStart := d.deliv.unreadStart + n.setWidth 11
      reading := false } }

/-- The record when `econet_read` has read all of the payload. -/
def Driver.endRead (d : Driver) : Driver := { d with deliv := { d.deliv with reading := false } }

/-- `econet_read` once the port is ready. -/
def copyOut (fd : Fd) (port : BitVec 8) (ptr count : BitVec 32) : Code Reply := do
  let copySz ← copySize count
  let start ← load (·.vars.bufStart)
  let bytes ← copyRx (memcpyChunks ptr (0x810000#32 + start) copySz.toNat) (0x810000#32 + start)
  let len ← load (·.vars.bufLen)
  if copySz < len then
    let len ← load (·.vars.bufLen)
    store ({ · with bufLen := len - copySz })
    let start ← load (·.vars.bufStart)
    Prog.modify .plain fun d =>
      Driver.keepRest { d with vars := { d.vars with bufStart := start + copySz } } copySz
  else
    -- the entry of the port without its ready flag
    Prog.modify .plain fun d => Driver.endRead { d with vars := { d.vars with
      portList := Function.update d.vars.portList port (BitVec.ofNat 8 fd.val) } }
  return .data port bytes

/-- `econet_read`. -/
def econetRead (fd : Fd) (ptr count : BitVec 32) : Code Reply := do
  let monitor ← load (·.rx.regs.monitorMode)
  if monitor then econetMonitor ptr count
  else
    let port ← load (·.vars.fdRxPortmap fd)
    if port = 0#8 then return .error .einval
    else
      Prog.wait [] (.plain, fun d => !d.flag port) Driver.beginRead
      copyOut fd port ptr count

/-- `econet_peek`. -/
def econetPeek (fd : Fd) : Code Reply := do
  let monitor ← load (·.rx.regs.monitorMode)
  if monitor then return .count (← load (·.vars.bufLen))
  else
    let port ← load (·.vars.fdRxPortmap fd)
    if port = 0#8 then return .error .einval
    else
      let ready ← load (·.flag port)
      if ready then return .count (← load (·.vars.bufLen)) else return .count 0#32

/-- One access of `memcpy` to the transmit buffer: a word, or a byte in its lane. -/
def writeChunk (offset : ℕ) (bytes : List (BitVec 8)) (tx : EconetTxBuffered) : EconetTxBuffered :=
  let lane := offset % 4
  let word := bytes.foldr (fun b (acc : BitVec 32) => acc <<< 8 ||| b.setWidth 32) 0#32
  tx.writeBuf (BitVec.ofNat 10 (offset / 4)) (BitVec.ofNat 4 ((2 ^ bytes.length - 1) * 2 ^ lane))
    (word <<< (8 * lane))

/-- `memcpy` to the transmit buffer. -/
def copyTx : List ℕ → ℕ → List (BitVec 8) → Code Unit
  | [], _, _ => pure ()
  | c :: cs, offset, bytes => do
    storeTx (writeChunk offset (bytes.take c))
    copyTx cs (offset + c) (bytes.drop c)

/-- The record when `econet_write` finds the line idle. -/
def Driver.beginWrite (d : Driver) : Driver := { d with deliv := { d.deliv with writing := true } }

/-- `econet_write` from `DISABLE_INTERRUPTS` to the store to `TXSTART`. -/
def setUpFrames (dest : EconetAddr) (ptr : BitVec 32) (bytes : List (BitVec 8)) : Code Unit := do
  store ({ · with mstatus := false })
  let address ← load (·.vars.econetAddress)
  let addr := address ++ dest.net ++ dest.station
  -- the scout frame
  storeTx (·.writeBuf 0#10 0b1111#4 addr)
  storeTx (writeChunk 4 [0x80#8])
  storeTx (writeChunk 5 [dest.port])
  -- the data frame
  storeTx (·.writeBuf 2#10 0b1111#4 addr)
  copyTx (memcpyChunks 0x82000C#32 ptr bytes.length) 12 bytes
  store ({ · with txStart := 8#32 })
  store ({ · with txEnd := 11#32 + BitVec.ofNat 32 bytes.length })
  storeTimer (·.writeVal 1200000#32)
  storeTimer (·.writeStatus 3#32)
  storeAs (.txScout dest) ({ · with handshakeState := 2#32 })
  storeTx (·.writeStart 0#32)

/-- `econet_write` once the transmission of the scout is requested. -/
def awaitHandshake (count : BitVec 32) : Code Reply := do
  store ({ · with mstatus := true })
  Prog.wait [] (.plain, fun d => 2#32 ≤ d.vars.handshakeState) id
  let status ← load (·.vars.txStatus)
  if status = 1#32 then return .count count
  else
    let timeout ← load (·.vars.timeoutState)
    if timeout = 2#32 then return .error .ehostunreach else return .error .etimedout

/-- `econet_write`: `bytes` are the `count` bytes at `ptr`. -/
def econetWrite (fd : Fd) (ptr : BitVec 32) (bytes : List (BitVec 8)) : Code Reply := do
  if 2040 < bytes.length then return .error .emsgsize
  else
    store ({ · with txStatus := 0#32 })
    store ({ · with timeoutState := 0#32 })
    storeTxStatus 0#32
    let dest ← load (·.vars.fdTxDestmap fd)
    if dest.station = 0#8 then return .error .edestaddrreq
    else
      -- `*econet_state & 3`, and then `econet_handshake_state`, with interrupts enabled
      Prog.wait [(.lineStatus, fun d => d.receiving || d.frameValid)]
        (.lineIdle, fun d => 0#32 < d.vars.handshakeState) Driver.beginWrite
      setUpFrames dest ptr bytes
      Prog.modify .txStore fun d =>
        { d with tx := d.tx.writeEnd 5#32, deliv := { d.deliv with writing := false } }
      awaitHandshake (BitVec.ofNat 32 bytes.length)

/-! ### The system -/

/-- The system calls. -/
inductive Call where
  | read (fd : Fd) (ptr count : BitVec 32)
  | peek (fd : Fd)
  | write (fd : Fd) (ptr : BitVec 32) (bytes : List (BitVec 8))

/-- The code of a call. -/
def Call.code : Call → Code Reply
  | .read fd ptr count => econetRead fd ptr count
  | .peek fd => econetPeek fd
  | .write fd ptr bytes => econetWrite fd ptr bytes

/-- The record of what a call returns. -/
def finish : Reply → Driver → Driver
  | .data port bytes, d =>
    { d with deliv := { d.deliv with returned := d.deliv.returned ++ [(port, bytes)] } }
  | _, d => d

/-- The driver on its processor. -/
def econetKernel : Kernel Driver Access Hw Call Reply where
  env i d := d.hw i
  call := Call.code
  finish := finish
  isr := isrTrap
  enabled d := d.vars.mstatus

/-- The system. -/
abbrev System := Interrupted Driver Access Reply

/-- A step of the system. -/
abbrev Event := SysEvent Hw Call

/-- The record before anything has happened. -/
def Delivery.empty : Delivery := ⟨0#8, 0#8, [], 0#11, [], [], false, false⟩

/-- The system after a reset, with any descriptors bound to any ports, and no frame waiting. -/
structure Init (y : System) : Prop where
  thread : y.thread = none
  isr : y.isr = none
  reset : y.shared.rx.AfterReset
  frameValid : y.shared.frameValid = false
  tx : ∃ s : EconetTxBuffered, y.shared.tx = s.reset
  handshakeState : y.shared.vars.handshakeState = 0#32
  pendingPort : y.shared.vars.pendingPort = 0#32
  flag : ∀ port, y.shared.flag port = false
  frame : y.shared.log.frame = .empty
  deliv : y.shared.deliv = .empty

/-! ### A station -/

/-- Station `0x42` after power-up, with descriptor 3 bound to port `0x99` and descriptor 4 to port
`0x9A`. -/
def station : System where
  shared :=
    { rx := .powerUp 0x0042#16
      tx := EconetTxBuffered.reset
        { econetBuf := fun _ => 0#32, bufReg := 0#32, idleCounter := 0#4, turnaround := false
          econetCtr := 0#11, bufferStart := 0#11, bufferEnd := 0#11, state := .idle
          txRequested := false, startFrame := false, endFrame := false
          transmitter := ⟨.idle, 0#8, 0#3, 0#3, true, false⟩, txFcs := 0#16 }
      timer := ⟨0#32, 0#32, false⟩
      econetRx := true
      vars :=
        { mstatus := true, handshakeState := 0#32, pendingPort := 0#32, bufStart := 0#32
          bufLen := 0#32
          txStart := 0#32, txEnd := 0#32, txStatus := 0#32, timeoutState := 0#32
          monitorFrames := 0#32, lastMonitorFrames := 0#32
          portList := fun port => if port = 0x99#8 then 3#8 else if port = 0x9A#8 then 4#8 else 0#8
          fdRxPortmap := fun fd => if fd = 3 then 0x99#8 else if fd = 4 then 0x9A#8 else 0#8
          fdTxDestmap := fun _ => ⟨0x99#8, 0#8, 1#8⟩
          econetAddress := 0x0042#16 }
      log := ⟨.empty, [], 0, 0⟩
      deliv := .empty }
  thread := none
  isr := none

theorem init_station : Init station where
  thread := rfl
  isr := rfl
  reset := BufferedEconet.afterReset_powerUp _
  frameValid := rfl
  tx := ⟨_, rfl⟩
  handshakeState := rfl
  pendingPort := rfl
  flag := by decide
  frame := rfl
  deliv := rfl

/-- The line carries these levels, one a period of the clock. -/
def onLine (levels : List Bool) : List Event :=
  levels.flatMap fun level => [.env (.line level), .env .fall, .env .rise]

/-- The line is idle. -/
def idleLine (n : ℕ) : List Event := onLine (List.replicate n true)

/-- A frame with its check sequence. -/
def checked (bytes : List (BitVec 8)) : List (BitVec 8) :=
  bytes ++ [~~~((Fcs.ofBytes bytes).extractLsb' 0 8), ~~~((Fcs.ofBytes bytes).extractLsb' 8 8)]

/-- Station 1 sends these bytes to station `0x42`. -/
def fromPeer (bytes : List (BitVec 8)) : List Event :=
  onLine (frameOnLine (checked ([0x42#8, 0#8, 1#8, 0#8] ++ bytes)) ++ [true, true])

/-- The handler runs. -/
def handled : List Event := .interrupt :: List.replicate 25 .isr

/-- A call, and `n` steps of it. -/
def called (c : Call) (n : ℕ) : List Event := .call c :: List.replicate n .thread

end Filestick.RawEconet
