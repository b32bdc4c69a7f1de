import Filestick.System.SpiBlock

/-!
# `memcpy` (`memcpy.c`)

The loops as they are in the source, with the addresses that they store to.  The loops count a
`size_t` down, which is the number of their turns.
-/

namespace Filestick.Memcpy

open Elf (Addr Mem)
open SpiBlock (loadWord storeWord)

/-- The pointers of a loop, the memory, and where it has been stored to. -/
structure Copy where
  d : Addr
  s : Addr
  mem : Mem
  stored : List Addr

/-- `UNALIGNED`. -/
def unaligned (x y : Addr) : Bool := (x &&& 3#32) ||| (y &&& 3#32) ≠ 0#32

/-- `*d++ = *s++` for words. -/
def Copy.word (c : Copy) : Copy :=
  { d := c.d + 4#32
    s := c.s + 4#32
    mem := storeWord c.mem c.d (loadWord c.mem c.s)
    stored := c.stored ++ (List.range 4).map fun i => c.d + BitVec.ofNat 32 i }

/-- `*ud++ = *us++`. -/
def Copy.byte (c : Copy) : Copy :=
  { d := c.d + 1#32
    s := c.s + 1#32
    mem := Function.update c.mem c.d (c.mem c.s)
    stored := c.stored ++ [c.d] }

/-- `while(aligned--)`. -/
def wordLoop : ℕ → Copy → Copy
  | 0, c => c
  | aligned + 1, c => wordLoop aligned c.word

/-- `while(n--)`. -/
def byteLoop : ℕ → Copy → Copy
  | 0, c => c
  | n + 1, c => byteLoop n c.byte

/-- `memcpy`: the pointer that it returns, and what it leaves. -/
def memcpy (mem : Mem) (dest src : Addr) (n : BitVec 32) : Addr × Copy :=
  let c : Copy := ⟨dest, src, mem, []⟩
  if !unaligned dest src && 4#32 ≤ n then
    let c := wordLoop (n >>> 2).toNat c
    -- pick up remainder
    (dest, byteLoop (n &&& 3#32).toNat c)
  else (dest, byteLoop n.toNat c)

end Filestick.Memcpy
