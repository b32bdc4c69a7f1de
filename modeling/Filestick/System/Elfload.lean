import Filestick.System.Strings

/-!
# Loading programs (`elfload.c`, `brk.c`)

The locals of the loader are not in the memory of the model.  Those that are not initialised, the
two headers that the loader reads into and the `status` of `elf_run`, have any values to begin with.
The headers have the layout of ELF32; only the fields that the loader looks at are read.  What is
printed is not modelled, nor is what `kmalloc` and the file system do to the memory of the kernel.
-/

namespace Filestick.Elf

/-- `USRMEM_START`. -/
def usrmemStart : Addr := 0x10000#32

/-- `USER_SP`. -/
def userSp : Addr := 0x21C00#32

/-- `ENOEXEC`, which is returned as it is. -/
def enoexec : BitVec 32 := 8#32

/-- `-ENOMEM`. -/
def negEnomem : BitVec 32 := -12#32

/-! ### The arguments -/

/-- `MAXARGS`. -/
def maxArgs : ℕ := 7

/-- A word in memory: its low byte is first. -/
def wordBytes (x : BitVec 32) : List (BitVec 8) :=
  (List.range 4).map fun i => x.extractLsb' (8 * i) 8

/-- The loop of `setup_stack_args` while `n` entries of `args` are left: the tokens, and the last
one that `strtok` has returned. -/
def tokeniseArgs : ℕ → Tok → Option (List Addr × Tok)
  | 0, t => some ([], t)
  | n + 1, t =>
    if t.tok = 0#32 then some ([], t)
    else do
      let r ← tokeniseArgs n (← strtok t.mem t.last 0#32 [0x20#8])
      return (t.tok :: r.1, r.2)

/-- What `setup_stack_args` returns and leaves. -/
structure Setup where
  sp : Addr
  filename : Addr
  mem : Mem
  last : Addr

/-- The size of the copy of the arguments, for their length: a multiple of 16 in 16 bits. -/
def argBytes (len : ℕ) : BitVec 16 :=
  let argbytes := BitVec.ofNat 16 (len + 1)
  if argbytes &&& 0xFFF0#16 ≠ argbytes then (argbytes &&& 0xFFF0#16) + 16#16 else argbytes

/-- `setup_stack_args`. -/
def setupStackArgs (mem : Mem) (last unparsedArgs sp : Addr) : Option Setup := do
  let argbytes := argBytes (← strlen mem unparsedArgs)
  let stackptr := sp - argbytes.setWidth 32
  let mem ← memset mem stackptr 0#8 (argbytes.setWidth 32)
  let mem := memcpy mem stackptr unparsedArgs (← strlen mem unparsedArgs)
  let filename := stackptr
  let (args, t) ← tokeniseArgs maxArgs (← strtok mem last stackptr [0x20#8])
  -- `args` is cleared before
  let block := args ++ List.replicate (maxArgs - args.length) 0#32
  let stackptr := stackptr - 28#32
  let mem := Ring.writeAll t.mem stackptr (block.flatMap wordBytes)
  let stackptr := stackptr - 4#32
  let mem := Ring.writeAll mem stackptr (wordBytes (BitVec.ofNat 32 args.length))
  return ⟨stackptr, filename, mem, t.last⟩

/-! ### Files -/

/-- A file that is open.  Its size has 32 bits. -/
structure File where
  bytes : List (BitVec 8)
  size_lt : bytes.length < 2 ^ 32

/-- What `SYS_read` copies at a position. -/
def File.read (f : File) (pos : BitVec 32) (count : ℕ) : List (BitVec 8) :=
  (f.bytes.drop pos.toNat).take count

/-- A local buffer. -/
abbrev Buf := ℕ → BitVec 8

namespace Buf

/-- Bytes that are read into a buffer; behind them it stays as it was. -/
def fill (b : Buf) (bytes : List (BitVec 8)) : Buf := fun i => (bytes[i]?).getD (b i)

/-- A halfword of a buffer. -/
def half (b : Buf) (i : ℕ) : BitVec 16 := b (i + 1) ++ b i

/-- A word of a buffer. -/
def word (b : Buf) (i : ℕ) : BitVec 32 := b (i + 3) ++ b (i + 2) ++ b (i + 1) ++ b i

end Buf

/-- `Elf32_Ehdr`, with the first word of `e_ident`, `EI_CLASS` and `EI_DATA`. -/
structure Elf32Ehdr where
  magic : BitVec 32
  eiClass : BitVec 8
  eiData : BitVec 8
  eType : BitVec 16
  eMachine : BitVec 16
  eEntry : BitVec 32
  ePhoff : BitVec 32
  ePhnum : BitVec 16
deriving DecidableEq, Repr

/-- `Elf32_Phdr`. -/
structure Elf32Phdr where
  pType : BitVec 32
  pOffset : BitVec 32
  pPaddr : BitVec 32
  pFilesz : BitVec 32
  pMemsz : BitVec 32
deriving DecidableEq, Repr

/-- The header in a buffer. -/
def Buf.ehdr (b : Buf) : Elf32Ehdr :=
  ⟨b.word 0, b 4, b 5, b.half 16, b.half 18, b.word 24, b.word 28, b.half 44⟩

/-- The program header in a buffer. -/
def Buf.phdr (b : Buf) : Elf32Phdr := ⟨b.word 0, b.word 4, b.word 12, b.word 16, b.word 20⟩

/-- `PT_LOAD`. -/
def Elf32Phdr.isLoad (h : Elf32Phdr) : Bool := h.pType == 1#32

/-- A segment below the memory of the user. -/
def Elf32Phdr.isLow (h : Elf32Phdr) : Bool := h.isLoad && decide (h.pPaddr < usrmemStart)

/-! ### The program break -/

/-- `program_brk` and `min_brk`. -/
structure Brk where
  programBrk : Addr
  minBrk : Addr
deriving DecidableEq, Repr

/-- `set_min_brk`. -/
def setMinBrk (addr : Addr) : Brk := ⟨addr, addr⟩

/-- `SYS_brk`; `sp` is the stack pointer of the user. -/
def sysBrk (b : Brk) (gp sp addr : Addr) : Brk × Addr :=
  let minGp := gp + 0x800#32
  let minBrk := if b.minBrk < minGp then minGp else b.minBrk
  let programBrk := if b.programBrk < minBrk then minBrk else b.programBrk
  let maxBrk := sp - 1024#32
  if maxBrk < addr ∨ addr < minBrk then (⟨programBrk, minBrk⟩, programBrk)
  else (⟨addr, minBrk⟩, addr)

/-! ### The loader -/

/-- What the loader works on: the memory, the program break, and a record of the blocks that it has
stored, which no code reads. -/
structure Image where
  mem : Mem
  brk : Brk
  stores : List (Addr × List (BitVec 8))

/-- A block is stored. -/
def Image.store (m : Image) (a : Addr) (bytes : List (BitVec 8)) : Image :=
  { m with mem := Ring.writeAll m.mem a bytes, stores := m.stores ++ [(a, bytes)] }

/-- What is in the locals that are not initialised: the header and the program header of
`elf_load_fd`, and the program header of `elf_validate_phdr`. -/
structure Locals where
  header : Buf
  phdr : Buf
  validated : Buf

/-- `elf_read_ehdr`: its result and the header. -/
def elfReadEhdr (f : File) (offset : BitVec 32) (header : Buf) : BitVec 32 × Elf32Ehdr :=
  let h := (header.fill (f.read offset 52)).ehdr
  if h.magic ≠ 0x464c457f#32 then (enoexec, h)
  else if h.eiClass ≠ 1#8 then (enoexec, h)
  else if h.eiData ≠ 1#8 then (enoexec, h)
  -- `EM_RISCV` and `ET_EXEC`
  else if h.eMachine ≠ 243#16 then (enoexec, h)
  else if h.eType ≠ 2#16 then (enoexec, h)
  else (0#32, h)

/-- The loop of `elf_validate_phdr`, with `n` headers left. -/
def validateFrom (f : File) : ℕ → BitVec 32 → Buf → BitVec 32
  | 0, _, _ => 0#32
  | n + 1, pos, phdr =>
    let bytes := f.read pos 32
    let phdr := phdr.fill bytes
    if phdr.phdr.isLoad then
      if phdr.phdr.pPaddr < usrmemStart then enoexec
      else validateFrom f n (pos + BitVec.ofNat 32 bytes.length) phdr
    else validateFrom f n (pos + BitVec.ofNat 32 bytes.length) phdr

/-- `elf_validate_phdr`. -/
def elfValidatePhdr (f : File) (offset : BitVec 32) (h : Elf32Ehdr) (phdr : Buf) : BitVec 32 :=
  validateFrom f h.ePhnum.toNat (offset + h.ePhoff) phdr

/-- The loop of `elf_load_fd`, with `n` headers left: whether it comes to its end, and what it
leaves. -/
def loadFrom (f : File) (offset : BitVec 32) : ℕ → BitVec 32 → Buf → Image → Bool × Image
  | 0, _, _, m => (true, m)
  | n + 1, pos, phdr, m =>
    let bytes := f.read pos 32
    let phdr := phdr.fill bytes
    let curpos := pos + BitVec.ofNat 32 bytes.length
    let h := phdr.phdr
    if h.isLoad then
      if h.pPaddr < usrmemStart then (false, m)
      else
        -- the position is `curpos` again after the segment has been read
        let m := m.store h.pPaddr (f.read (offset + h.pOffset) h.pFilesz.toNat)
        loadFrom f offset n curpos phdr { m with brk := setMinBrk (h.pPaddr + h.pMemsz) }
    else loadFrom f offset n curpos phdr m

/-- What `elf_load_fd` returns, stores in `*status` and leaves; the start address is 0 on
failure. -/
structure Loaded where
  start : Addr
  status : BitVec 32
  image : Image

/-- `elf_load_fd`; it stops the machine when the stack is not above the start of the memory. -/
def elfLoadFd (f : File) (offset : BitVec 32) (stackPtr : Addr) (l : Locals) (m : Image) :
    Option Loaded :=
  let (status, h) := elfReadEhdr f offset l.header
  if status ≠ 0#32 then some ⟨0#32, status, m⟩
  else
    let status := elfValidatePhdr f offset h l.validated
    if status = 0#32 then
      let memsz := stackPtr - usrmemStart
      if memsz.slt 1#32 then none
      else do
        let mem ← memset m.mem usrmemStart 0#8 memsz
        let m := { m with
          mem, stores := m.stores ++ [(usrmemStart, List.replicate memsz.toNat 0#8)] }
        let (done, m) := loadFrom f offset h.ePhnum.toNat (offset + h.ePhoff) l.phdr m
        return ⟨if done then h.eEntry else 0#32, status, m⟩
    else some ⟨0#32, status, m⟩

/-- The surroundings of the loader: the memory that `kmalloc` gives out for a size, the files that
`SYS_open` finds by their paths, and what the locals have to begin with. -/
structure Env where
  kmalloc : ℕ → Option Addr
  sysOpen : List (BitVec 8) → Option File
  locals : Locals
  status : BitVec 32

/-- The bytes of the string at an address. -/
def stringAt (mem : Mem) (s : Addr) : Option (List (BitVec 8)) :=
  (strlen mem s).map (Ring.slice mem s)

/-- `elf_load`: `*status` is not set when the file cannot be opened. -/
def elfLoad (env : Env) (filename : Addr) (offset : BitVec 32) (stackPtr : Addr) (m : Image) :
    Option Loaded := do
  match env.sysOpen (← stringAt m.mem filename) with
  | none => return ⟨0#32, env.status, m⟩
  | some f => elfLoadFd f offset stackPtr env.locals m

/-- How `elf_run` ends: a program is started with a stack pointer, or a status is returned. -/
inductive Run where
  | started (sp start : Addr) (image : Image)
  | returned (status : BitVec 32) (mem : Mem)

/-- `elf_run` once the arguments are out of the way of the user stack. -/
def runArgs (env : Env) (last args : Addr) (m : Image) : Option Run := do
  let s ← setupStackArgs m.mem last args userSp
  let r ← elfLoad env s.filename 0#32 s.sp { m with mem := s.mem }
  if r.start ≠ 0#32 then return .started s.sp r.start r.image
  return .returned r.status r.image.mem

/-- `elf_run`; `last` is the variable of `strtok`. -/
def elfRun (env : Env) (last args : Addr) (m : Image) : Option Run :=
  -- `NOT_IN_KERNEL_SPACE`
  if 10000 < args.toNat then do
    match env.kmalloc ((← strlen m.mem args) + 1) with
    | none => return .returned negEnomem m.mem
    | some tmpargs =>
      let mem := memcpy m.mem tmpargs args ((← strlen m.mem args) + 1)
      runArgs env last tmpargs { m with mem }
  else runArgs env last args m

end Filestick.Elf
