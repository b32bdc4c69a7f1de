import Filestick.Lib.Ghost
import Filestick.System.EconetIoctl
import Filestick.System.Fd

/-!
# Econet descriptors (`fd.c` over `raw_econet.c`)

The system calls on the table of descriptors, with the driver of those that belong to `/dev/econet`.
The handler does not look at the table.  Calls on other devices do nothing here but to the table.
-/

namespace Filestick.RawEconet

/-- The driver and the table of descriptors. -/
abbrev FdState := Driver × FdTable.Sys

/-- Code of the driver leaves the table as it is. -/
def leaveTable (_ : Access) (_ : Driver) (s : FdTable.Sys) : FdTable.Sys := s

/-- Code of the driver, in a system call. -/
def onDriver {α β : Type} (r : α → β) (p : Code α) : Prog FdState Access β := p.observe leaveTable r

/-- `SYS_read`, `SYS_write`, `SYS_peek` and `SYS_ioctl`: the code `p` of the driver, on one of its
descriptors. -/
def sysCall (fd : Fd) (p : Code Reply) : Prog FdState Access (Option Reply) := do
  let device ← Prog.read .plain fun z => FdTable.sysDevice z.2 fd
  if device = some .econet then onDriver some p else return none

/-- `SYS_open`. -/
def sysOpenCode (pathname : List Char) (flags : BitVec 32) (res : FdTable.FResult) :
    Prog FdState Access (Option Reply) := do
  Prog.modify .plain fun z => (z.1, (FdTable.sysOpen z.2 pathname flags (FdTable.plainOpen res)).1)
  return none

/-- `SYS_close`: `econet_close`, then the entry of the table is freed. -/
def sysCloseCode (fd : Fd) (res : FdTable.FResult) : Prog FdState Access (Option Reply) := do
  let device ← Prog.read .plain fun z => FdTable.sysDevice z.2 fd
  if 3 ≤ fd.val ∧ device = some .econet then
    let reply ← onDriver some (econetClose fd)
    Prog.modify .plain fun z => (z.1, (FdTable.closeFd z.2 fd res).1)
    return reply
  else
    Prog.modify .plain fun z => (z.1, (FdTable.closeFd z.2 fd res).1)
    return none

/-- The descriptor of a call. -/
def Call.fd : Call → Fd
  | .read fd _ _ => fd
  | .peek fd => fd
  | .write fd _ _ => fd

/-- The system calls. -/
inductive FdCall where
  | open (pathname : List Char) (flags : BitVec 32) (res : FdTable.FResult)
  | close (fd : Fd) (res : FdTable.FResult)
  | io (c : Call)
  | ioctl (fd : Fd) (request : BitVec 32) (dest : EconetAddr)

/-- The code of a call. -/
def FdCall.code : FdCall → Prog FdState Access (Option Reply)
  | .open pathname flags res => sysOpenCode pathname flags res
  | .close fd res => sysCloseCode fd res
  | .io c => sysCall c.fd c.code
  | .ioctl fd request dest => sysCall fd (econetIoctl fd request dest)

/-- The driver and the table of descriptors on one processor. -/
def fdKernel : Kernel FdState Access Hw FdCall (Option Reply) where
  env i z := (z.1.hw i, z.2)
  call := FdCall.code
  finish a z := (a.elim z.1 fun reply => finish reply z.1, z.2)
  isr := onDriver id isrTrap
  enabled z := z.1.vars.mstatus

/-- The system. -/
abbrev FdSystem := Interrupted FdState Access (Option Reply)

/-- A step of the system. -/
abbrev FdEvent := SysEvent Hw FdCall

/-- The system after `fd_init` and `econet_init`. -/
structure FdInit (y : FdSystem) : Prop where
  thread : y.thread = none
  isr : y.isr = none
  table : ∃ flash, y.shared.2 = FdTable.boot flash
  portList : ∀ port, y.shared.1.vars.portList port = 0#8
  portmap : ∀ fd, y.shared.1.vars.fdRxPortmap fd = 0#8

/-! ### A station -/

/-- Station `0x42` before any call. -/
def bootStation : FdSystem where
  shared := ({ station.shared with vars := { station.shared.vars with
    portList := fun _ => 0#8, fdRxPortmap := fun _ => 0#8 } }, FdTable.boot fun _ => 0xFF#8)
  thread := none
  isr := none

theorem fdInit_bootStation : FdInit bootStation := ⟨rfl, rfl, ⟨_, rfl⟩, fun _ => rfl, fun _ => rfl⟩

/-- A step of the driver as one of the system with the table of descriptors. -/
def Event.fd : Event → FdEvent
  | .env i => .env i
  | .call c => .call (.io c)
  | .thread => .thread
  | .interrupt => .interrupt
  | .isr => .isr

/-- A call, and the steps of it. -/
def systemCall (c : FdCall) : List FdEvent := .call c :: List.replicate 8 .thread

/-- `SYS_open` of `/dev/econet`. -/
def openEconet : List FdEvent := systemCall (.open "/dev/econet".toList 2#32 .FR_OK)

/-- `ECONET_SET_RECV_PORT`. -/
def bindPort (fd : Fd) (port : BitVec 8) : List FdEvent :=
  systemCall (.ioctl fd (0x02000000#32 ||| port.setWidth 32) ⟨0#8, 0#8, 0#8⟩)

end Filestick.RawEconet
