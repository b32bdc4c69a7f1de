import Filestick.System.RawEconet

/-!
# The control calls of the Econet driver (`raw_econet.c`)

`econet_ioctl` and `econet_close` beside the calls of `RawEconet`.  The clock and terminator
register is not part of the model, nor is what a request stores through `ptr`.
-/

namespace Filestick.RawEconet

/-- `econet_set_addr`: the store to the register also resets `sys_frame_valid`. -/
def econetSetAddr (netstation : BitVec 16) : Code Reply := do
  store ({ · with econetAddress := netstation })
  Prog.modify .plain fun d =>
    { d with rx := d.rx.step (.sysWrite 6#4 0b1111#4 (netstation.setWidth 32)) }
  return .count 0#32

/-- `econet_set_rx_port`. -/
def econetSetRxPort (fd : Fd) (port : BitVec 8) : Code Reply := do
  storeAs (.bind fd port) fun v => { v with fdRxPortmap := Function.update v.fdRxPortmap fd port }
  -- neither the old port of `fd` nor the old descriptor of `port` is looked at
  store fun v => { v with portList := Function.update v.portList port (BitVec.ofNat 8 fd.val) }
  return .count 0#32

/-- A store to a field of `fd_tx_destmap[fd]`. -/
def storeDest (fd : Fd) (f : EconetAddr → EconetAddr) : Code Unit :=
  store fun v => { v with fdTxDestmap := Function.update v.fdTxDestmap fd (f (v.fdTxDestmap fd)) }

/-- `econet_set_tx_addr`. -/
def econetSetTxAddr (fd : Fd) (dest : EconetAddr) : Code Reply := do
  storeDest fd ({ · with port := dest.port })
  storeDest fd ({ · with net := dest.net })
  storeDest fd ({ · with station := dest.station })
  return .count 0#32

/-- `ECONET_SET_MONITOR`: the monitor mode is byte 1 of the status register. -/
def econetSetMonitor (value : BitVec 8) : Code Reply := do
  store ({ · with monitorFrames := 0#32 })
  store ({ · with lastMonitorFrames := 0#32 })
  Prog.modify .plain fun d =>
    { d with rx := d.rx.step (.sysWrite 7#4 0b0010#4 (value.setWidth 32 <<< 8)) }
  return .count 0#32

/-- `econet_ioctl`; `dest` is what `ptr` points to. -/
def econetIoctl (fd : Fd) (request : BitVec 32) (dest : EconetAddr) : Code Reply :=
  let reqId := request &&& 0xFF000000#32
  if reqId = 0x01000000#32 then econetSetAddr (request.setWidth 16)
  else if reqId = 0x02000000#32 then econetSetRxPort fd (request.setWidth 8)
  else if reqId = 0x03000000#32 then econetSetTxAddr fd dest
  else if reqId = 0x04000000#32 then econetSetMonitor (request.setWidth 8)
  else if reqId = 0x05000000#32 then pure (.count 0#32)
  else if reqId = 0x81000000#32 then do
    let _ ← load (·.vars.econetAddress)
    return .count 0#32
  else if reqId = 0x85000000#32 then pure (.count 0#32)
  else if reqId = 0xF0000000#32 then pure (.count 0#32)
  else pure (.error .einval)

/-- `econet_close`. -/
def econetClose (fd : Fd) : Code Reply := do
  let port ← load (·.vars.fdRxPortmap fd)
  if port ≠ 0#8 then
    store fun v => { v with portList := Function.update v.portList port 0#8 }
    store fun v => { v with fdRxPortmap := Function.update v.fdRxPortmap fd 0#8 }
  return .count 0#32

/-- All calls of the driver. -/
inductive NetCall where
  | io (c : Call)
  | ioctl (fd : Fd) (request : BitVec 32) (dest : EconetAddr)
  | close (fd : Fd)

/-- The code of a call. -/
def NetCall.code : NetCall → Code Reply
  | .io c => c.code
  | .ioctl fd request dest => econetIoctl fd request dest
  | .close fd => econetClose fd

/-- The driver on its processor, with all its calls. -/
def netKernel : Kernel Driver Access Hw NetCall Reply where
  env i d := d.hw i
  call := NetCall.code
  finish := finish
  isr := isrTrap
  enabled d := d.vars.mstatus

/-- A step of the system with all its calls. -/
abbrev NetEvent := SysEvent Hw NetCall

/-- A step of the system as one of the system with all its calls. -/
def Event.net : Event → NetEvent
  | .env i => .env i
  | .call c => .call (.io c)
  | .thread => .thread
  | .interrupt => .interrupt
  | .isr => .isr

/-- A control call, and `n` steps of it. -/
def controlled (fd : Fd) (request : BitVec 32) (dest : EconetAddr) (n : ℕ) : List NetEvent :=
  .call (.ioctl fd request dest) :: List.replicate n .thread

end Filestick.RawEconet
