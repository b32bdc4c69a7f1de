import Filestick.System.Elfload

/-!
# The command line (`cli.c`)

`parseCmd` works in the memory of the program, with `cmdbuf` at an address.  The result says which
function is called with which arguments, and what the memory is at that time; what the functions do
is not modelled.  Where the arguments are found by `strtok`, the loop is the one of
`setup_stack_args`.
-/

namespace Filestick.Cli

open Elf (Addr Mem)

/-- `MAXARGS`. -/
def maxArgs : ℕ := 7

/-- The functions of the commands. -/
inductive CmdFunc where
  | iEbreak
  | iReceiveXmodem
  | iHexdump
  | iLs
  | iConfigure
  | iMkdir
  | iChdir
  | iRm
  | iPoke
  | iPeek
deriving DecidableEq, Repr

/-- `CmdTable`: an entry of the table. -/
structure CmdEntry where
  cmd : List (BitVec 8)
  cmdfunc : CmdFunc
deriving DecidableEq, Repr

/-- The bytes of a constant string. -/
def ascii (s : String) : List (BitVec 8) := s.toList.map fun c => BitVec.ofNat 8 c.toNat

/-- `commands`. -/
def commands : List CmdEntry :=
  [⟨ascii "ebreak", .iEbreak⟩, ⟨ascii "rx", .iReceiveXmodem⟩, ⟨ascii "hexdump", .iHexdump⟩,
    ⟨ascii "ls", .iLs⟩, ⟨ascii "configure", .iConfigure⟩, ⟨ascii "mkdir", .iMkdir⟩,
    ⟨ascii "cd", .iChdir⟩, ⟨ascii "rm", .iRm⟩, ⟨ascii "poke", .iPoke⟩, ⟨ascii "peek", .iPeek⟩]

/-! ### Strings of the C library -/

/-- The loop of `strcpy`. -/
def strcpyFrom : ℕ → Mem → Addr → Addr → Option Mem
  | 0, _, _, _ => none
  | n + 1, mem, dest, src =>
    let c := mem src
    let mem := Function.update mem dest c
    if c = 0#8 then some mem else strcpyFrom n mem (dest + 1#32) (src + 1#32)

/-- `strcpy`. -/
def strcpy (mem : Mem) (dest src : Addr) : Option Mem := strcpyFrom (2 ^ 32) mem dest src

/-- `strncmp` of a constant string and the string at an address is 0. -/
def strncmpEq (mem : Mem) : List (BitVec 8) → ℕ → Addr → Bool
  | _, 0, _ => true
  | [], _ + 1, s2 => mem s2 = 0#8
  | c :: s1, n + 1, s2 => mem s2 = c && strncmpEq mem s1 n (s2 + 1#32)

/-! ### The command -/

/-- The first loop of `clean_cmdbuf`: the number of spaces, of at most `size` bytes. -/
def skipSpaces (mem : Mem) : ℕ → Addr → ℕ
  | 0, _ => 0
  | size + 1, src => if mem src ≠ 0x20#8 then 0 else skipSpaces mem size (src + 1#32) + 1

/-- The second loop of `clean_cmdbuf`, for a string of `len` bytes: control characters and spaces at
the end are overwritten with 0. -/
def trimEnd (mem : Mem) (dest : Addr) : ℕ → Mem × ℕ
  | 0 => (mem, 0)
  | len + 1 =>
    if 32 < (mem (dest + BitVec.ofNat 32 len)).toNat then (mem, len + 1)
    else trimEnd (Function.update mem (dest + BitVec.ofNat 32 len) 0#8) dest len

/-- `clean_cmdbuf`. -/
def cleanCmdbuf (mem : Mem) (dest src : Addr) (size : ℕ) : Option (Mem × ℕ) :=
  let i := skipSpaces mem size src
  -- nothing but whitespace
  if i = size then some (mem, 0)
  else do
    let mem ← strcpy mem dest (src + BitVec.ofNat 32 i)
    let len ← Elf.strlen mem dest
    return trimEnd mem dest len

/-- The test of `internal_command` for an entry. -/
def isCommand (mem : Mem) (cmdbuf : Addr) (entry : CmdEntry) : Bool :=
  let clen := entry.cmd.length
  let c := mem (cmdbuf + BitVec.ofNat 32 clen)
  (c = 0x20#8 || c = 0#8) && strncmpEq mem entry.cmd clen cmdbuf

/-- `internal_command`. -/
def internalCommand (mem : Mem) (cmdbuf : Addr) : Option CmdEntry :=
  commands.find? (isCommand mem cmdbuf)

/-- What `parse_cmd` calls, and the memory then. -/
inductive Action where
  | nothing
  | call (cmdfunc : CmdFunc) (argv : List Addr) (mem : Mem)
  | execElf (args : Addr) (mem : Mem)

/-- `run_internal_command`. -/
def runInternalCommand (mem : Mem) (last : Addr) (entry : CmdEntry) (cmdbuf : Addr) :
    Option Action := do
  let (args, t) ← Elf.tokeniseArgs maxArgs (← Elf.strtok mem last cmdbuf [0x20#8])
  return .call entry.cmdfunc args t.mem

/-- `parse_cmd`; `last` is the variable of `strtok`. -/
def parseCmd (mem : Mem) (last cmdbuf rawCmdbuf : Addr) : Option Action := do
  let mem := Ring.writeAll mem cmdbuf (List.replicate 256 0#8)
  -- `sizeof(raw_cmdbuf)` is the size of a pointer
  let (mem, bytes) ← cleanCmdbuf mem cmdbuf rawCmdbuf 4
  if bytes ≠ 0 ∧ mem cmdbuf ≠ 0x23#8 then
    match internalCommand mem cmdbuf with
    | some entry => runInternalCommand mem last entry cmdbuf
    | none => return .execElf cmdbuf mem
  else return .nothing

end Filestick.Cli
