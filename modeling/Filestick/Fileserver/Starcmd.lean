import Filestick.Init.Cli
import Filestick.System.Message

/-!
# Star commands (`fileserver/starcmd.c`)

`handle_starcmd` takes the words of a command line from `econet_buf`, which is in the memory at an
address.  The result says which function of the table is called with which arguments, and what the
memory is at that time; what the functions do is not modelled, nor is what is printed.
-/

namespace Filestick.FileServer

open Cli (ascii)
open Elf (Addr Mem)

/-- `MAXARGS`. -/
def maxArgs : ℕ := 8

/-- `FC_COMMANDLINE`. -/
def fcCommandline : BitVec 32 := 0#32

/-- The functions of the commands. -/
inductive CmdFunc where
  | cmdIAm
  | cmdEcho
deriving DecidableEq, Repr

/-- `CmdTable`: an entry of the table; its pointer to a function may be null. -/
structure CmdTable where
  cmd : List (BitVec 8)
  cmdfunc : Option CmdFunc
deriving DecidableEq, Repr

/-- `commands`, without the entry that ends it. -/
def commands : List CmdTable :=
  [⟨ascii "i", some .cmdIAm⟩, ⟨ascii "echo", some .cmdEcho⟩]

/-- `tolower`. -/
def toLower (c : BitVec 8) : BitVec 8 := if 0x41#8 ≤ c ∧ c ≤ 0x5A#8 then c + 0x20#8 else c

/-- `strcasecmp` of a constant string and the string at an address is 0. -/
def strcasecmpEq (mem : Mem) : List (BitVec 8) → Addr → Bool
  | [], s2 => toLower (mem s2) = 0#8
  | c :: s1, s2 => toLower c = toLower (mem s2) && strcasecmpEq mem s1 (s2 + 1#32)

/-- What a message leads to. -/
inductive Action where
  | unknownFunction
  | nothing
  | notHandled
  | call (cmdfunc : CmdFunc) (argv : List Addr) (mem : Mem)

/-- The arguments of a command, as `handle_starcmd` takes them from the payload. -/
def starcmdArgs (mem : Mem) (last buf : Addr) (msg : NetFSMsg) : Option (List Addr × Mem) :=
  if 0 < msg.paysize.toNat then do
    let (args, t) ← Elf.tokeniseArgs maxArgs
      (← Elf.strtok mem last (buf + BitVec.ofNat 32 msg.payload) [0x20#8])
    return (args, t.mem)
  else some ([], mem)

/-- `handle_starcmd`; `last` is the variable of `strtok`, and `buf` the address of `econet_buf`. -/
def handleStarcmd (mem : Mem) (last buf : Addr) (msg : NetFSMsg) : Option Action := do
  let (args, mem) ← starcmdArgs mem last buf msg
  match args with
  | [] => return .nothing
  | arg :: _ =>
    match commands.find? fun entry => strcasecmpEq mem entry.cmd arg with
    | some ⟨_, some cmdfunc⟩ => return .call cmdfunc args mem
    | _ => return .notHandled

/-- `econet_handle_message`. -/
def econetHandleMessage (mem : Mem) (last buf : Addr) (msg : NetFSMsg) : Option Action :=
  if msg.functionCode = fcCommandline then handleStarcmd mem last buf msg
  else some .unknownFunction

end Filestick.FileServer
