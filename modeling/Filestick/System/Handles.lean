import Filestick.System.Fd

/-!
# The calls on handles (`fd.c`, `directory.c`)

The calls of a user program on a number that stands for an open descriptor or an open directory.
Each call checks the number by itself.  A call that gets past its check with a number that is not an
index of its table reads memory beyond the table, and is `none` here.

What the devices do is a parameter, and so are `f_readdir` and `f_closedir`.
-/

namespace Filestick.FdTable

/-! ### Descriptors -/

/-- The calls on a descriptor that are handed to its device, with their arguments. -/
inductive FdOp where
  | write (buf count : BitVec 32)
  | read (buf count : BitVec 32)
  | peek
  | ioctl (request ptr : BitVec 32)
  | fstat (statbuf : BitVec 32)
  | lseek (offset whence : BitVec 32)
deriving DecidableEq, Repr

/-- The members of the function tables that are not `NULL`. -/
def FDfunction.has : FDfunction → FdOp → Bool
  | .console, .lseek .. => false
  | .console, _ => true
  | .led, .write .. => true
  | .led, .read .. => true
  | .led, _ => false
  | .spiflash, .peek => false
  | .spiflash, .ioctl .. => false
  | .spiflash, _ => true
  | .econet, .lseek .. => false
  | .econet, .fstat .. => false
  | .econet, _ => true
  | .fileio, .peek => false
  | .fileio, .ioctl .. => false
  | .fileio, _ => true

/-! ### Directories -/

/-- `FILINFO`, as far as it is read. -/
structure FilInfo where
  fname : List (BitVec 8)
  fattrib : BitVec 8
  fsize : BitVec 32
deriving DecidableEq, Repr

/-- `struct dirent`. -/
structure Dirent where
  dName : List (BitVec 8)
  dIsdir : Bool
  dSize : BitVec 32
deriving DecidableEq, Repr

/-- `DIRHND`. -/
structure DirHnd (D : Type) where
  isOpen : Bool
  dir : D

/-! ### The state -/

/-- What the calls work on: the descriptors, `dhnd`, `fno`, what the argument `d` of `SYS_readdir`
points to, and the devices. -/
structure Handles (D σ : Type) where
  sys : Sys
  dhnd : Fin 8 → DirHnd D
  fno : FilInfo
  dirent : Dirent
  devices : σ

/-- The errors of these calls, which are returned as negative numbers. -/
inductive HandleErrno where
  | ebadf
  | espipe
  | emfile
  | fatfs (e : Errno)
deriving DecidableEq, Repr

/-- What a call returns: a number that a device has returned, 0, or an error. -/
inductive Answer where
  | device (n : BitVec 32)
  | ok
  | error (e : HandleErrno)
deriving DecidableEq, Repr

/-- What is called: the members of the function tables, `f_readdir` and `f_closedir`. -/
structure Below (D σ : Type) where
  fdfunc : FDfunction → Fd → FdOp → Handles D σ → Handles D σ × BitVec 32
  fReaddir : D → D × FilInfo × FResult
  fClosedir : D → D × FResult

variable {D σ : Type} (B : Below D σ)

/-! ### `fd.c` -/

/-- A call on an entry of the table: the member of its function table, or the error `missing`. -/
def onEntry (s : Handles D σ) (fd : Fd) (op : FdOp) (missing : HandleErrno) :
    Handles D σ × Answer :=
  match (if (s.sys.fdtable fd).flags ≠ 0#32 then (s.sys.fdtable fd).fdfunc else none) with
  | some f =>
    if f.has op then ((B.fdfunc f fd op s).1, .device (B.fdfunc f fd op s).2)
    else (s, .error missing)
  | none => (s, .error missing)

/-- A call on a number: the check lets `MAX_FILE_DESCRIPTORS` through. -/
def onDescriptor (s : Handles D σ) (fd : ℤ) (op : FdOp) (missing : HandleErrno) :
    Option (Handles D σ × Answer) :=
  if 16 < fd ∨ fd < 0 then some (s, .error .ebadf)
  else if h : fd.toNat < 16 then some (onEntry B s ⟨fd.toNat, h⟩ op missing)
  else none

/-- `SYS_write`. -/
def sysWrite (s : Handles D σ) (fd : ℤ) (buf count : BitVec 32) : Option (Handles D σ × Answer) :=
  onDescriptor B s fd (.write buf count) .ebadf

/-- `SYS_read`. -/
def sysRead (s : Handles D σ) (fd : ℤ) (buf count : BitVec 32) : Option (Handles D σ × Answer) :=
  onDescriptor B s fd (.read buf count) .ebadf

/-- `SYS_peek`. -/
def sysPeek (s : Handles D σ) (fd : ℤ) : Option (Handles D σ × Answer) :=
  onDescriptor B s fd .peek .ebadf

/-- `SYS_ioctl`. -/
def sysIoctl (s : Handles D σ) (fd : ℤ) (request ptr : BitVec 32) :
    Option (Handles D σ × Answer) :=
  onDescriptor B s fd (.ioctl request ptr) .ebadf

/-- `SYS_fstat`. -/
def sysFstat (s : Handles D σ) (fd : ℤ) (statbuf : BitVec 32) : Option (Handles D σ × Answer) :=
  onDescriptor B s fd (.fstat statbuf) .ebadf

/-- `SYS_lseek`: a device without it is not seekable. -/
def sysLseek (s : Handles D σ) (fd : ℤ) (offset whence : BitVec 32) :
    Option (Handles D σ × Answer) :=
  onDescriptor B s fd (.lseek offset whence) .espipe

/-- What `SYS_close` returns. -/
def closeAnswer : Except Errno Unit → Answer
  | .ok () => .ok
  | .error .ebadf => .error .ebadf
  | .error e => .error (.fatfs e)

/-- `SYS_close`, on the whole state. -/
def sysCloseHandle (s : Handles D σ) (fd : ℤ) (fClose : FResult) :
    Option (Handles D σ × Answer) :=
  (sysClose s.sys fd fClose).map fun r => ({ s with sys := r.1 }, closeAnswer r.2)

/-! ### `directory.c` -/

/-- `fatfs_to_errno`, as the result of a call. -/
def fatfsAnswer (res : FResult) : Answer :=
  match fatfsToErrno res with
  | .ok () => .ok
  | .error e => .error (.fatfs e)

/-- A call on the number of a directory: the check lets `MAX_DHND` through, and every negative
number. -/
def onDirectory (s : Handles D σ) (dh : ℤ) (f : Fin 8 → Handles D σ × Answer) :
    Option (Handles D σ × Answer) :=
  if 8 < dh then some (s, .error .emfile)
  else if h : 0 ≤ dh ∧ dh.toNat < 8 then
    if (s.dhnd ⟨dh.toNat, h.2⟩).isOpen = false then some (s, .error .ebadf)
    else some (f ⟨dh.toNat, h.2⟩)
  else none

/-- `dhnd[dh] = e`. -/
def Handles.setDhnd (s : Handles D σ) (dh : Fin 8) (e : DirHnd D) : Handles D σ :=
  { s with dhnd := Function.update s.dhnd dh e }

/-- `SYS_closedir`. -/
def sysClosedir (s : Handles D σ) (dh : ℤ) : Option (Handles D σ × Answer) :=
  onDirectory s dh fun i =>
    let r := B.fClosedir (s.dhnd i).dir
    -- the handle stays open when `f_closedir` fails
    (s.setDhnd i ⟨if r.2 = .FR_OK then false else true, r.1⟩, fatfsAnswer r.2)

/-- `SYS_readdir`. -/
def sysReaddir (s : Handles D σ) (dh : ℤ) : Option (Handles D σ × Answer) :=
  onDirectory s dh fun i =>
    let r := B.fReaddir (s.dhnd i).dir
    let s := { s.setDhnd i ⟨true, r.1⟩ with fno := r.2.1 }
    (if r.2.2 = .FR_OK then
      -- `strlcpy` leaves room for the end of the string in `d_name`
      { s with dirent :=
          ⟨r.2.1.fname.take 255, r.2.1.fattrib &&& 0x10#8 ≠ 0#8, r.2.1.fsize⟩ }
    else s, fatfsAnswer r.2.2)

/-! ### All calls -/

/-- The calls on a handle. -/
inductive HandleCall where
  | write (buf count : BitVec 32)
  | read (buf count : BitVec 32)
  | peek
  | ioctl (request ptr : BitVec 32)
  | fstat (statbuf : BitVec 32)
  | lseek (offset whence : BitVec 32)
  | close (fClose : FResult)
  | readdir
  | closedir
deriving DecidableEq, Repr

/-- A call on the handle `n`. -/
def HandleCall.run (s : Handles D σ) (n : ℤ) : HandleCall → Option (Handles D σ × Answer)
  | .write buf count => sysWrite B s n buf count
  | .read buf count => sysRead B s n buf count
  | .peek => sysPeek B s n
  | .ioctl request ptr => sysIoctl B s n request ptr
  | .fstat statbuf => sysFstat B s n statbuf
  | .lseek offset whence => sysLseek B s n offset whence
  | .close fClose => sysCloseHandle s n fClose
  | .readdir => sysReaddir B s n
  | .closedir => sysClosedir B s n

/-- The call is on a directory. -/
def HandleCall.onDir : HandleCall → Bool
  | .readdir | .closedir => true
  | _ => false

/-- The number of entries of the table of a call. -/
def HandleCall.size (c : HandleCall) : ℤ := if c.onDir then 8 else 16

end Filestick.FdTable
