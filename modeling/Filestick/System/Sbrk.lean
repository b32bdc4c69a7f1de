import Filestick.System.Elfload

/-!
# The break as the library sees it (`sbrk.c`)

`memptr` is the static of the library, and `brk` are the two of `SYS_brk`.  The global pointer stays
the same while a program runs; the stack pointer may be another one at each call.
-/

namespace Filestick.Sbrk

open Elf (Addr Brk setMinBrk sysBrk)

/-- What is kept from one call to the next. -/
structure State where
  memptr : Addr
  brk : Brk
deriving DecidableEq, Repr

/-- A program that has just been loaded, with a last segment that ends at `e`. -/
def fresh (e : Addr) : State := ⟨0#32, setMinBrk e⟩

/-- The arguments of a call: `*user_sp` and `incr`. -/
structure Call where
  sp : Addr
  incr : BitVec 32
deriving DecidableEq, Repr

/-- `memptr` is asked for while it is `NULL`. -/
def fetch (gp : Addr) (s : State) (sp : Addr) : State :=
  if s.memptr = 0#32 then
    let r := sysBrk s.brk gp sp 0#32
    ⟨r.2, r.1⟩
  else s

/-- `_sbrk`: `none` is `(caddr_t)-1`, which comes with `ENOMEM` in `errno`. -/
def sbrk (gp : Addr) (s : State) (c : Call) : State × Option Addr :=
  let s := fetch gp s c.sp
  let r := sysBrk s.brk gp c.sp (s.memptr + c.incr)
  if r.2 = s.memptr then (⟨s.memptr, r.1⟩, none)
  else (⟨r.2, r.1⟩, some s.memptr)

/-- The state behind a call. -/
def next (gp : Addr) (s : State) (c : Call) : State := (sbrk gp s c).1

end Filestick.Sbrk
