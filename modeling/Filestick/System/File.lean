import Filestick.Lib.Machine
import Filestick.Lib.Splice
import Filestick.System.Fd

/-!
# Files (`file.c`)

A file is the bytes that it has.  The functions of FatFS are at the level of files: which bytes they
change, where the file pointer is afterwards, and what they return.  What the disc makes of a call
is a parameter of it, for instance how many bytes it takes before it is full or fails.
-/

namespace Filestick.FileIo

open FdTable
open Splice

/-! ### The flags -/

/-- `FA_WRITE`. -/
def faWrite : BitVec 8 := 0x02#8

/-- `FA_READ`. -/
def faRead : BitVec 8 := 0x01#8

/-- `FA_CREATE_NEW`. -/
def faCreateNew : BitVec 8 := 0x04#8

/-- `FA_CREATE_ALWAYS`. -/
def faCreateAlways : BitVec 8 := 0x08#8

/-- `FA_OPEN_ALWAYS`. -/
def faOpenAlways : BitVec 8 := 0x10#8

/-- `FA_SEEKEND`; `FA_OPEN_APPEND` is this flag and `FA_OPEN_ALWAYS`. -/
def faSeekend : BitVec 8 := 0x20#8

/-- `FA_MODIFIED`. -/
def faModified : BitVec 8 := 0x40#8

/-! ### Opening -/

/-- A directory entry: `AM_DIR`, `AM_RDO` and the bytes of the file. -/
structure Entry where
  dir : Bool
  readOnly : Bool
  content : List (BitVec 8)
deriving DecidableEq, Repr

/-- `FIL`, with the bytes of the file that it is attached to. -/
structure OpenFile where
  flag : BitVec 8
  err : FResult
  fptr : ℕ
  content : List (BitVec 8)
  le : fptr ≤ content.length
deriving DecidableEq, Repr

/-- What the disc makes of `f_open`: the results of `dir_register`, of freeing the clusters of the
old file, and of the search for its last sector. -/
structure OpenDisc where
  register : FResult
  remove : FResult
  seek : FResult
deriving DecidableEq, Repr

/-- What a path leads to after `f_open`, and the file object or the result. -/
structure OpenResult where
  entry : Except FResult Entry
  file : Except FResult OpenFile

/-- The `FRESULT` that `f_open` returns. -/
def OpenResult.res (r : OpenResult) : FResult :=
  match r.file with
  | .ok _ => .FR_OK
  | .error res => res

/-- The end of `f_open`: the file object. -/
def attach (mode : BitVec 8) (content : List (BitVec 8)) (seek : FResult) :
    Except FResult OpenFile :=
  let flag := if mode &&& faCreateAlways ≠ 0#8 then mode ||| faModified else mode
  if mode &&& faSeekend ≠ 0#8 ∧ 0 < content.length then
    if seek = .FR_OK then .ok ⟨flag, .FR_OK, content.length, content, le_rfl⟩
    else .error seek
  else .ok ⟨flag, .FR_OK, 0, content, Nat.zero_le _⟩

/-- `f_open`, where `follow_path` has found `found`. -/
def fOpen (mode : BitVec 8) (found : Except FResult Entry) (disc : OpenDisc) : OpenResult :=
  let mode := mode &&& 0x3f#8
  if mode &&& (faCreateAlways ||| faOpenAlways ||| faCreateNew) ≠ 0#8 then
    match found with
    | .error .FR_NO_FILE =>
      if disc.register = .FR_OK then
        ⟨.ok ⟨false, false, []⟩, attach (mode ||| faCreateAlways) [] disc.seek⟩
      else ⟨found, .error disc.register⟩
    | .error res => ⟨found, .error res⟩
    | .ok entry =>
      if entry.readOnly || entry.dir then ⟨found, .error .FR_DENIED⟩
      else if mode &&& faCreateNew ≠ 0#8 then ⟨found, .error .FR_EXIST⟩
      else if mode &&& faCreateAlways ≠ 0#8 then
        -- the entry is emptied before its clusters are freed
        ⟨.ok ⟨false, false, []⟩,
          if disc.remove = .FR_OK then attach mode [] disc.seek else .error disc.remove⟩
      else ⟨found, attach mode entry.content disc.seek⟩
  else
    match found with
    | .error res => ⟨found, .error res⟩
    | .ok entry =>
      if entry.dir then ⟨found, .error .FR_NO_FILE⟩
      else if mode &&& faWrite ≠ 0#8 ∧ entry.readOnly then ⟨found, .error .FR_DENIED⟩
      else ⟨found, attach mode entry.content disc.seek⟩

/-- What `fileio_open` leaves: the descriptors, what it returns, what the path leads to and the open
file. -/
structure Opened where
  sys : Sys
  rc : Except Errno Fd
  entry : Except FResult Entry
  file : Option OpenFile

/-- `fileio_open`, with what it does to the file. -/
def fileioOpen (s : Sys) (path : List Char) (flags : BitVec 32) (found : Except FResult Entry)
    (disc : OpenDisc) : Opened :=
  let r := FdTable.fileioOpen s path flags fun _ _ mode s => (s, (fOpen mode found disc).res)
  match fdAlloc s with
  | none => ⟨r.1, r.2, found, none⟩
  | some _ =>
    let opened := fOpen (fatfsFlags flags) found disc
    ⟨r.1, r.2, opened.entry, opened.file.toOption⟩

/-! ### The calls on an open file -/

/-- What the disc makes of a transfer: the number of bytes that it takes or gives before it is full
or fails, and the result. -/
structure Transfer where
  done : ℕ
  res : FResult
deriving DecidableEq, Repr

/-- The number of bytes that `f_write` stores: it does not store past an error, in a file that is
not open for writing, or past 4 GiB. -/
def OpenFile.stored (o : OpenFile) (buff : List (BitVec 8)) (disc : Transfer) : ℕ :=
  if o.err ≠ .FR_OK ∨ o.flag &&& faWrite = 0#8 then 0
  else
    let btw := if 2 ^ 32 ≤ o.fptr + buff.length then 0xFFFFFFFF - o.fptr else buff.length
    min disc.done btw

theorem OpenFile.stored_le (o : OpenFile) (buff : List (BitVec 8)) (disc : Transfer) :
    o.stored buff disc ≤ buff.length := by
  unfold OpenFile.stored
  dsimp only
  split_ifs with hbad hwrap
  · exact Nat.zero_le _
  · exact (Nat.min_le_right _ _).trans (by omega)
  · exact Nat.min_le_right _ _

/-- The file after `bytes` have been stored at the file pointer. -/
def OpenFile.store (o : OpenFile) (bytes : List (BitVec 8)) : OpenFile :=
  { o with
    fptr := o.fptr + bytes.length
    content := splice o.content o.fptr bytes
    le := by
      rw [length_splice o.le]
      exact Nat.le_max_right _ _ }

/-- `f_write`. -/
def fWrite (o : OpenFile) (buff : List (BitVec 8)) (disc : Transfer) :
    OpenFile × Except FResult ℕ :=
  if o.err ≠ .FR_OK then (o, .error o.err)
  else if o.flag &&& faWrite = 0#8 then (o, .error .FR_DENIED)
  else
    let o' := o.store (buff.take (o.stored buff disc))
    if disc.res = .FR_OK then
      ({ o' with flag := o.flag ||| faModified }, .ok (o.stored buff disc))
    else ({ o' with err := disc.res }, .error disc.res)

/-- `fileio_write`. -/
def fileioWrite (o : OpenFile) (buf : List (BitVec 8)) (disc : Transfer) :
    OpenFile × Except Errno ℕ :=
  match fWrite o buf disc with
  | (o, .ok bytesWritten) => (o, .ok bytesWritten)
  | (o, .error res) => (o, (fatfsToErrno res).map fun _ => 0)

/-- The file after its pointer has gone on by `n` bytes of it. -/
def OpenFile.skip (o : OpenFile) (n : ℕ) : OpenFile :=
  { o with
    fptr := min (o.fptr + n) o.content.length
    le := Nat.min_le_right _ _ }

/-- `f_read`. -/
def fRead (o : OpenFile) (btr : ℕ) (disc : Transfer) :
    OpenFile × Except FResult (List (BitVec 8)) :=
  if o.err ≠ .FR_OK then (o, .error o.err)
  else if o.flag &&& faRead = 0#8 then (o, .error .FR_DENIED)
  else
    let br := min disc.done (min btr (o.content.length - o.fptr))
    if disc.res = .FR_OK then (o.skip br, .ok ((o.content.drop o.fptr).take br))
    else ({ o.skip br with err := disc.res }, .error disc.res)

/-- `fileio_read`. -/
def fileioRead (o : OpenFile) (count : ℕ) (disc : Transfer) :
    OpenFile × Except Errno (List (BitVec 8)) :=
  match fRead o count disc with
  | (o, .ok bytes) => (o, .ok bytes)
  | (o, .error res) => (o, (fatfsToErrno res).map fun _ => [])

/-- What the disc makes of `f_lseek`: how far a file can be stretched, what is then in it, and the
result. -/
structure Seek where
  reach : ℕ
  fill : ℕ → BitVec 8
  res : FResult

/-- The file with its pointer at `ofs`; it is stretched as far as the disc has room. -/
def OpenFile.seek (o : OpenFile) (ofs : ℕ) (disc : Seek) : OpenFile :=
  let fptr := if ofs ≤ o.content.length then ofs else max o.content.length (min ofs disc.reach)
  { o with
    fptr := fptr
    content := o.content ++ (List.range (fptr - o.content.length)).map disc.fill
    le := by
      rw [List.length_append, List.length_map, List.length_range]
      omega }

/-- `f_lseek`. -/
def fLseek (o : OpenFile) (ofs : ℕ) (disc : Seek) : OpenFile × FResult :=
  if o.err ≠ .FR_OK then (o, o.err)
  else
    let ofs := if o.content.length < ofs ∧ o.flag &&& faWrite = 0#8 then o.content.length else ofs
    ({ o.seek ofs disc with err := disc.res }, disc.res)

/-- The values of `whence`. -/
inductive Whence where
  | seekCur
  | seekEnd
  | seekSet
deriving DecidableEq, Repr

/-- `fileio_lseek`. -/
def fileioLseek (o : OpenFile) (offset : BitVec 32) (whence : Whence) (disc : Seek) :
    OpenFile × Except Errno ℕ :=
  let target := match whence with
    | .seekCur => BitVec.ofNat 32 o.fptr + offset
    | .seekEnd => BitVec.ofNat 32 o.content.length + offset
    | .seekSet => offset
  let r := fLseek o target.toNat disc
  (r.1, (fatfsToErrno r.2).map fun _ => r.1.fptr)

/-- A call on an open file. -/
inductive FileCall where
  | write (buf : List (BitVec 8)) (disc : Transfer)
  | read (count : ℕ) (disc : Transfer)
  | lseek (offset : BitVec 32) (whence : Whence) (disc : Seek)

/-- The file after a call. -/
def FileCall.step (o : OpenFile) : FileCall → OpenFile
  | .write buf disc => (fileioWrite o buf disc).1
  | .read count disc => (fileioRead o count disc).1
  | .lseek offset whence disc => (fileioLseek o offset whence disc).1

end Filestick.FileIo
