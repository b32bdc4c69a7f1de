import Filestick.Lib.Machine
import Filestick.System.MaxFileDescriptors
import Filestick.System.SpiFlashdev
import Mathlib.Data.Fintype.Basic

/-!
# File descriptors (`fd.c`, `dev_open.c`, `file.c`, `flashdisc.c`)

`Sys` has the table of descriptors, the SPI flash driver with its own table, and the descriptor of
the flash disc.  The calls of FatFS are parameters of the calls that make them.

What `econet_close` does to the tables of the Econet driver is left to the model of that driver:
nothing here reads them.  The `mode` of an open call is read by none of the functions.
-/

namespace Filestick.FdTable

open SpiFlashdev (Dev)

/-! ### Results -/

/-- `FRESULT` of FatFS. -/
inductive FResult where
  | FR_OK
  | FR_DISK_ERR
  | FR_INT_ERR
  | FR_NOT_READY
  | FR_NO_FILE
  | FR_NO_PATH
  | FR_INVALID_NAME
  | FR_DENIED
  | FR_EXIST
  | FR_INVALID_OBJECT
  | FR_WRITE_PROTECTED
  | FR_INVALID_DRIVE
  | FR_NOT_ENABLED
  | FR_NO_FILESYSTEM
  | FR_MKFS_ABORTED
  | FR_TIMEOUT
  | FR_LOCKED
  | FR_NOT_ENOUGH_CORE
  | FR_TOO_MANY_OPEN_FILES
  | FR_INVALID_PARAMETER
deriving DecidableEq, Repr

/-- The errors, which the calls return as negative numbers; `fatfs` is `EFATFS_START` and the
result. -/
inductive Errno where
  | ebadf
  | emfile
  | enoent
  | eio
  | enomem
  | eexist
  | erofs
  | einval
  | fatfs (res : FResult)
deriving DecidableEq, Repr

/-- `fatfs_to_errno`. -/
def fatfsToErrno : FResult → Except Errno Unit
  | .FR_OK => .ok ()
  | .FR_DISK_ERR => .error .eio
  | .FR_NO_FILE => .error .enoent
  | .FR_NO_PATH => .error .enoent
  | .FR_NOT_ENOUGH_CORE => .error .enomem
  | .FR_TOO_MANY_OPEN_FILES => .error .emfile
  | .FR_EXIST => .error .eexist
  | .FR_WRITE_PROTECTED => .error .erofs
  | res => .error (.fatfs res)

/-- The errors of the SPI flash driver. -/
def flashErrno : SpiFlashdev.Errno → Errno
  | .emfile => .emfile
  | .eio => .eio
  | .enomem => .enomem
  | .einval => .einval

/-! ### The table -/

/-- The function tables of the devices. -/
inductive FDfunction where
  /-- `cons_func` of `console.c`. -/
  | console
  /-- `led_func` of `rgbled.c`. -/
  | led
  /-- `spiflash_func` of `spi_flashdev.c`. -/
  | spiflash
  /-- `econet_func` of `raw_econet.c`. -/
  | econet
  /-- `fileio_func` of `file.c`. -/
  | fileio
deriving DecidableEq, Repr

/-- `FD`: an entry of the table.  No function table is `NULL`, and `data` is a pointer. -/
structure FD where
  flags : BitVec 32
  fdfunc : Option FDfunction
  data : BitVec 32
  fd : ℕ
deriving DecidableEq, Repr

/-- A file descriptor, below `MAX_FILE_DESCRIPTORS`. -/
abbrev Fd := Fin 16

/-- `FLAG_ALLOCATED`. -/
def flagAllocated : BitVec 32 := 0x80000000#32

/-- The descriptors: `fdtable`, the SPI flash driver and `flash_fd`, which is negative when there is
none. -/
structure Sys where
  fdtable : Fd → FD
  flash : Dev
  flashFd : Option Fd

namespace Sys

/-- `fdtable[fd] = e`. -/
def set (s : Sys) (fd : Fd) (e : FD) : Sys := { s with fdtable := Function.update s.fdtable fd e }

end Sys

/-- The first free entry of the table. -/
def firstFree (t : Fd → FD) : Option Fd := (List.finRange 16).find? fun i => (t i).flags == 0#32

/-- `fd_alloc`. -/
def fdAlloc (s : Sys) : Option (Fd × Sys) :=
  (firstFree s.fdtable).map fun i =>
    (i, s.set i { s.fdtable i with flags := flagAllocated, fd := i.val })

/-- `fd_dealloc`. -/
def fdDealloc (s : Sys) (fd : Fd) : Sys :=
  s.set fd { s.fdtable fd with flags := 0#32, fdfunc := none, data := 0#32 }

/-! ### Opening -/

/-- `open_table`. -/
def openTable : List (List Char × FDfunction) :=
  [("console".toList, .console), ("rgbled".toList, .led), ("spiflash".toList, .spiflash),
    ("econet".toList, .econet)]

/-- `open_console`, `rgbled_open` and `econet_open`. -/
def openPlain (s : Sys) (fd : Fd) (f : FDfunction) : Sys × Except Errno Unit :=
  (s.set fd { s.fdtable fd with fdfunc := some f }, .ok ())

/-- `spiflash_open`. -/
def spiflashOpen (s : Sys) (fd : Fd) : Sys × Except Errno Unit :=
  match SpiFlashdev.spiflashOpen s.flash (s.fdtable fd).fd with
  | (_, .error e) => (s, .error (flashErrno e))
  | (flash, .ok ()) =>
    ({ s.set fd { s.fdtable fd with fdfunc := some .spiflash } with flash := flash }, .ok ())

/-- `open_device_impl` of an entry of `open_table`. -/
def openDeviceImpl (s : Sys) (fd : Fd) : FDfunction → Sys × Except Errno Unit
  | .spiflash => spiflashOpen s fd
  | f => openPlain s fd f

/-- `open_device`. -/
def openDevice (s : Sys) (devname : List Char) (flags : BitVec 32) : Sys × Except Errno Fd :=
  match fdAlloc s with
  | none => (s, .error .emfile)
  | some (fdnum, s) =>
    match openTable.lookup devname with
    -- the entry is given back on every error
    | none => (fdDealloc s fdnum, .error .enoent)
    | some f =>
      match openDeviceImpl s fdnum f with
      | (s, .ok ()) =>
        (s.set fdnum { s.fdtable fdnum with flags := (s.fdtable fdnum).flags ||| flags }, .ok fdnum)
      | (s, .error e) => (fdDealloc s fdnum, .error e)

/-- The flags of `f_open` for those of `open`. -/
def fatfsFlags (flags : BitVec 32) : BitVec 8 :=
  (if (flags + 1#32) &&& 1#32 ≠ 0#32 then 0x01#8 else 0#8)
    ||| (if (flags + 1#32) &&& 2#32 ≠ 0#32 then 0x02#8 else 0#8)
    ||| (if flags &&& 0x0008#32 ≠ 0#32 then 0x30#8 else 0#8)
    ||| (if flags &&& 0x0200#32 ≠ 0#32 then 0x08#8 else 0#8)
    ||| (if flags &&& 0x0400#32 ≠ 0#32 then 0x08#8 else 0#8)

/-- `f_open` on a handle of `fhnd`, a path and flags: what it does to the descriptors, and its
result. -/
abbrev FOpen := ℕ → List Char → BitVec 8 → Sys → Sys × FResult

/-- `fileio_open`: the handle of descriptor `fd` is `fhnd[fd - MIN_FD_NUMBER]`. -/
def fileioOpen (s : Sys) (path : List Char) (flags : BitVec 32) (fOpen : FOpen) :
    Sys × Except Errno Fd :=
  match fdAlloc s with
  | none => (s, .error .emfile)
  | some (fdnum, s) =>
    -- `f_open` runs with the entry already in use
    let s := s.set fdnum { s.fdtable fdnum with fdfunc := some .fileio }
    let r := fOpen (fdnum.val - 3) path (fatfsFlags flags) s
    match fatfsToErrno r.2 with
    | .ok () => (r.1, .ok fdnum)
    | .error e => (fdDealloc r.1 fdnum, .error e)

/-- `SYS_open`. -/
def sysOpen (s : Sys) (pathname : List Char) (flags : BitVec 32) (fOpen : FOpen) :
    Sys × Except Errno Fd :=
  if "/dev/".toList.isPrefixOf pathname then openDevice s (pathname.drop 5) flags
  else fileioOpen s pathname flags fOpen

/-! ### Closing -/

/-- `spiflash_close`. -/
def spiflashClose (s : Sys) (fd : Fd) : Sys × Except Errno Unit :=
  match SpiFlashdev.spiflashClose s.flash fd.val with
  | (flash, .ok ()) => ({ s with flash := flash }, .ok ())
  | (flash, .error e) => ({ s with flash := flash }, .error (flashErrno e))

/-- `fd_close` of a function table, where it has one.  `fClose` is the result of `f_close`. -/
def fdClose (s : Sys) (fd : Fd) (fClose : FResult) : FDfunction → Option (Sys × Except Errno Unit)
  | .console => none
  | .led => some (s, .ok ())
  | .spiflash => some (spiflashClose s fd)
  | .econet => some (s, .ok ())
  | .fileio => some (s, fatfsToErrno fClose)

/-- `SYS_close`, for a descriptor of the table.  An entry in use has a function table. -/
def closeFd (s : Sys) (fd : Fd) (fClose : FResult) : Sys × Except Errno Unit :=
  -- the console is never closed
  if fd.val < 3 then (s, .ok ())
  else if (s.fdtable fd).flags ≠ 0#32 then
    match (s.fdtable fd).fdfunc.bind (fdClose s fd fClose) with
    -- the entry is freed whatever the device returns
    | some (s, rc) => (fdDealloc s fd, rc)
    | none => (s, .error .ebadf)
  else (s, .error .ebadf)

/-- `SYS_close`.  The check of the bounds lets 16 through: the entry past the end of the table is
read, which is `none` here. -/
def sysClose (s : Sys) (fd : ℤ) (fClose : FResult) : Option (Sys × Except Errno Unit) :=
  if 16 < fd ∨ fd < 0 then some (s, .error .ebadf)
  else if h : fd.toNat < 16 then some (closeFd s ⟨fd.toNat, h⟩ fClose)
  else none

/-! ### The start -/

/-- `fd_init` and `spiflash_init`, on a chip with contents `flash`. -/
def boot (flash : ℕ → BitVec 8) : Sys :=
  let s : Sys := ⟨fun _ => ⟨0#32, none, 0#32, 0⟩, SpiFlashdev.init flash, none⟩
  let s := (openDevice s "console".toList 0#32).1
  let s := (openDevice s "console".toList 1#32).1
  (openDevice s "console".toList 1#32).1

/-! ### The calls -/

/-- `f_open` of a volume that is not to be initialised leaves the descriptors alone. -/
def plainOpen (res : FResult) : FOpen := fun _ _ _ s => (s, res)

/-- The calls of a user program, with the results of `f_open` and `f_close` where they are made. -/
inductive Call where
  | open (pathname : List Char) (flags : BitVec 32) (res : FResult)
  | close (fd : Fd) (res : FResult)

/-- A call.  No volume is mounted by these calls. -/
def Call.step (s : Sys) : Call → Sys
  | .open pathname flags res => (sysOpen s pathname flags (plainOpen res)).1
  | .close fd res => (sysClose s fd.val res).elim s Prod.fst

/-! ### The flash disc -/

/-- `intflash_init`: `SYS_open` of `/dev/spiflash`, with `O_RDWR`, which is 2. -/
def intflashInit (s : Sys) : Sys :=
  match s.flashFd with
  | some _ => s
  | none =>
    match openDevice s "spiflash".toList 2#32 with
    | (s, .ok fd) => { s with flashFd := some fd }
    | (s, .error _) => { s with flashFd := none }

/-- `intflash_release`. -/
def intflashRelease (s : Sys) (fClose : FResult) : Sys :=
  match s.flashFd with
  | some fd =>
    { (if 0 < fd.val then (closeFd s fd fClose).1 else s) with flashFd := none }
  | none => { s with flashFd := none }

/-- The device that `SYS_lseek`, `SYS_read` and `SYS_write` hand a call on a descriptor to. -/
def sysDevice (s : Sys) (fd : Fd) : Option FDfunction :=
  if (s.fdtable fd).flags ≠ 0#32 then (s.fdtable fd).fdfunc else none

/-- The device that `intflash_read` and `intflash_write` reach; they return at once when `flash_fd`
is negative. -/
def intflashDevice (s : Sys) : Option FDfunction := s.flashFd.bind (sysDevice s)

/-- `f_open` that may have to initialise its volume: `disk_initialize` calls `intflash_init`. -/
def discOpen (init : Bool) (res : FResult) : FOpen := fun _ _ _ s =>
  (if init then intflashInit s else s, res)

/-- Mounting and unmounting the flash disc, and the calls of a user program, on any number. -/
inductive DiscCall where
  | mount
  | unmount (res : FResult)
  | open (pathname : List Char) (flags : BitVec 32) (init : Bool) (res : FResult)
  | close (fd : ℤ) (res : FResult)

/-- A call; `none` when it reads past the table. -/
def DiscCall.run (s : Sys) : DiscCall → Option Sys
  | .mount => some (intflashInit s)
  | .unmount res => some (intflashRelease s res)
  | .open pathname flags init res => some (sysOpen s pathname flags (discOpen init res)).1
  | .close fd res => (sysClose s fd res).map Prod.fst

/-- A call, if none before it has read past the table. -/
def DiscCall.step (s : Option Sys) (c : DiscCall) : Option Sys := s.bind c.run

end Filestick.FdTable
