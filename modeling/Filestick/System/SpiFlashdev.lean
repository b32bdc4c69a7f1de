import Mathlib.Algebra.Group.Int.Defs
import Mathlib.Algebra.Group.Nat.Defs
import Mathlib.Data.List.Basic

/-!
# The SPI flash device (`spi_flashdev.c`)

The device reads the flash chip directly and writes it through a buffer that holds one erase sector
of 4 KiB.  There is one buffer for all open descriptors.

Addresses and counts are `uint32_t`: numbers with explicit reduction modulo `2 ^ 32`.
`flash_memcpy` and the erase and program sequence of `spiflash_writebuffer` are modelled by what
they do to the contents of the chip.  `kmalloc` is a parameter of the calls that use it.
-/

namespace Filestick.SpiFlashdev

/-- The error numbers of the device. -/
inductive Errno where
  | emfile
  | eio
  | enomem
  | einval
deriving DecidableEq, Repr

/-- `OpenFD`: an entry of `fd_list`; `fd` is 0 in a free one. -/
structure OpenFD where
  fd : ℕ
  fileptr : ℕ
deriving DecidableEq, Repr

/-- The variables of the driver, and the contents of the chip. -/
structure Dev where
  flash : ℕ → BitVec 8
  fdList : List OpenFD
  writebuf : Option (List (BitVec 8))
  writeBlkOffset : ℕ
  writeBlkEnd : ℕ

/-- `MAX_FLASH_FDS`. -/
def maxFlashFds : ℕ := 4

/-- `WRITE_SECTOR_SIZE`. -/
def writeSectorSize : ℕ := 4096

/-- `WRITE_OFFSET_MASK`. -/
def writeOffsetMask : ℕ := 0xFFFFF000

/-- `WRITE_FILEPTR_OFFSET_MASK`. -/
def writeFileptrOffsetMask : ℕ := 0x00000FFF

/-- `spiflash_init`, on a chip with contents `flash`. -/
def init (flash : ℕ → BitVec 8) : Dev :=
  ⟨flash, List.replicate maxFlashFds ⟨0, 0⟩, none, 0, 0⟩

/-! ### Descriptors -/

/-- `new_fd`: the first free entry is taken. -/
def newFd : List OpenFD → ℕ → Option (List OpenFD)
  | [], _ => none
  | e :: es, fd => if e.fd = 0 then some (⟨fd, 0⟩ :: es) else (newFd es fd).map (e :: ·)

/-- `get_fd`: the index of the first entry of `fd`. -/
def getFd (l : List OpenFD) (fd : ℕ) : Option ℕ := l.findIdx? fun e => e.fd == fd

/-- `fdinfo->fileptr`. -/
def fileptr (d : Dev) (fdinfo : ℕ) : ℕ := (d.fdList.getD fdinfo ⟨0, 0⟩).fileptr

/-- `fdinfo->fileptr = p`. -/
def setFileptr (d : Dev) (fdinfo p : ℕ) : Dev :=
  { d with fdList := d.fdList.modify fdinfo fun e => { e with fileptr := p } }

/-- `spiflash_open`, for the descriptor number `fd`. -/
def spiflashOpen (d : Dev) (fd : ℕ) : Dev × Except Errno Unit :=
  match newFd d.fdList fd with
  | none => (d, .error .emfile)
  | some l => ({ d with fdList := l }, .ok ())

/-! ### The sector buffer -/

/-- `flash_memcpy`: the bytes of the chip from `src`. -/
def flashMemcpy (flash : ℕ → BitVec 8) (src size : ℕ) : List (BitVec 8) :=
  (List.range size).map fun k => flash (src + k)

/-- `spiflash_writebuffer`: the sector at `write_blk_offset` is erased and programmed. -/
def spiflashWritebuffer (d : Dev) : Dev :=
  { d with
    flash := fun a =>
      if d.writeBlkOffset ≤ a ∧ a < d.writeBlkOffset + writeSectorSize then
        (d.writebuf.getD []).getD (a - d.writeBlkOffset) 0
      else d.flash a
    writeBlkOffset := 0
    writebuf := none }

/-- `spiflash_load_sector`, for the file pointer `p`. -/
def spiflashLoadSector (d : Dev) (p : ℕ) (kmalloc : Bool) : Dev × Except Errno Unit :=
  if kmalloc then
    let offset := p &&& writeOffsetMask
    ({ d with
        writeBlkOffset := offset
        writeBlkEnd := (offset + writeSectorSize) % 2 ^ 32
        writebuf := some (flashMemcpy d.flash offset writeSectorSize) }, .ok ())
  else ({ d with writebuf := none }, .error .enomem)

/-- The first part of `spiflash_write_to_sector`: the buffer is made to hold the sector that is
written next. -/
def prepareSector (d : Dev) (p endAddr : ℕ) (kmalloc : Bool) : Dev × Except Errno Unit :=
  if d.writebuf.isNone then spiflashLoadSector d p kmalloc
  -- what is written leaves the sector of the buffer at its end or lies before it
  else if endAddr > d.writeBlkEnd ∨ p < d.writeBlkOffset then
    spiflashLoadSector (spiflashWritebuffer d) p kmalloc
  else (d, .ok ())

/-- `memcpy(writebuf + offset, buf, count)`. -/
def memcpyInto (writebuf : List (BitVec 8)) (offset : ℕ) (buf : List (BitVec 8)) :
    List (BitVec 8) :=
  writebuf.take offset ++ buf ++ writebuf.drop (offset + buf.length)

/-- `spiflash_write_to_sector`: the number of bytes of `buf` that were written. -/
def spiflashWriteToSector (d : Dev) (p : ℕ) (buf : List (BitVec 8)) (kmalloc : Bool) :
    Dev × Except Errno ℕ :=
  let endAddr := (buf.length + p) % 2 ^ 32
  match prepareSector d p endAddr kmalloc with
  | (d, .error e) => (d, .error e)
  | (d, .ok ()) =>
    let fileptrInBlk := p &&& writeFileptrOffsetMask
    -- no more than what fits into the sector, in 32-bit arithmetic
    let count :=
      if endAddr > d.writeBlkEnd then (2 ^ 32 + d.writeBlkEnd - p) % 2 ^ 32 else buf.length
    let d := { d with
      writebuf := d.writebuf.map fun b => memcpyInto b fileptrInBlk (buf.take count) }
    -- a full sector is written out at once
    (if endAddr ≥ d.writeBlkEnd then spiflashWritebuffer d else d, .ok count)

/-! ### The calls -/

/-- `spiflash_read`: the bytes read, whose number is the return value. -/
def spiflashRead (d : Dev) (fd count : ℕ) : Dev × Except Errno (List (BitVec 8)) :=
  match getFd d.fdList fd with
  | none => (d, .error .eio)
  | some fdinfo =>
    -- the chip is read, so what is in the buffer is written out first
    let d := if d.writebuf.isSome then spiflashWritebuffer d else d
    (setFileptr d fdinfo ((fileptr d fdinfo + count) % 2 ^ 32),
      .ok (flashMemcpy d.flash (fileptr d fdinfo) count))

/-- The loop of `spiflash_write`, for at most `fuel` turns; `none` if it has not come to its end. -/
def writeLoop (kmalloc : Bool) : ℕ → Dev → ℕ → List (BitVec 8) → Option (Dev × Except Errno Unit)
  | 0, _, _, _ => none
  | fuel + 1, d, fdinfo, buf =>
    match spiflashWriteToSector d (fileptr d fdinfo) buf kmalloc with
    | (d, .error e) => some (d, .error e)
    | (d, .ok bytes) =>
      let d := setFileptr d fdinfo ((fileptr d fdinfo + bytes) % 2 ^ 32)
      if (buf.drop bytes).length ≠ 0 then writeLoop kmalloc fuel d fdinfo (buf.drop bytes)
      else some (d, .ok ())

/-- `spiflash_write`. -/
def spiflashWrite (fuel : ℕ) (d : Dev) (fd : ℕ) (buf : List (BitVec 8)) (kmalloc : Bool) :
    Option (Dev × Except Errno ℕ) :=
  match getFd d.fdList fd with
  | none => some (d, .error .eio)
  | some fdinfo =>
    (writeLoop kmalloc fuel d fdinfo buf).map fun r => (r.1, r.2.map fun _ => buf.length)

/-- `spiflash_sync`. -/
def spiflashSync (d : Dev) : Dev := if d.writebuf.isSome then spiflashWritebuffer d else d

/-- The values of `whence`. -/
inductive Whence where
  | SEEK_SET
  | SEEK_CUR
  | SEEK_END
  | other
deriving DecidableEq, Repr

/-- The position that a seek leads to. -/
def seekTo (p : ℕ) (offset : ℤ) : Whence → Option ℕ
  | .SEEK_SET => some (offset % 2 ^ 32).toNat
  | .SEEK_CUR => some ((p + offset) % 2 ^ 32).toNat
  | .SEEK_END => some ((0xFFFFFF + offset) % 2 ^ 32).toNat
  | .other => none

/-- `spiflash_lseek`. -/
def spiflashLseek (d : Dev) (fd : ℕ) (offset : ℤ) (whence : Whence) : Dev × Except Errno ℕ :=
  match getFd d.fdList fd with
  | none => (d, .error .eio)
  | some fdinfo =>
    match seekTo (fileptr d fdinfo) offset whence with
    | none => (d, .error .einval)
    | some p => (setFileptr d fdinfo p, .ok p)

/-- `spiflash_close`. -/
def spiflashClose (d : Dev) (fd : ℕ) : Dev × Except Errno Unit :=
  match getFd d.fdList fd with
  | none => (d, .error .eio)
  | some fdinfo =>
    let d := if d.writebuf.isSome then spiflashWritebuffer d else d
    ({ d with fdList := d.fdList.modify fdinfo fun e => { e with fd := 0 } }, .ok ())

end Filestick.SpiFlashdev
