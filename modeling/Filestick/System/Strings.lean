import Filestick.System.RawEconet

/-!
# Memory and strings (`memset.S`, `memcpy.c`, `strlen.c`, `strtok.c`)

The memory is a function of a 32-bit address.  A function that may not come back is an `Option`; its
loops get as many turns as there are addresses.
-/

namespace Filestick.Elf

/-- An address; 0 is `NULL`. -/
abbrev Addr := BitVec 32

/-- The memory. -/
abbrev Mem := Addr → BitVec 8

/-- `memset` stores before it looks at the count, so that a count of 0 runs over all of the memory,
with the code in it. -/
def memset (mem : Mem) (s : Addr) (c : BitVec 8) (n : BitVec 32) : Option Mem :=
  if n = 0#32 then none else some (Ring.writeAll mem s (List.replicate n.toNat c))

/-- The accesses of `memcpy`, which are words or bytes. -/
def copyChunks (mem : Mem) : List ℕ → Addr → Addr → Mem
  | [], _, _ => mem
  | c :: cs, dest, src =>
    copyChunks (Ring.writeAll mem dest (Ring.slice mem src c)) cs (dest + BitVec.ofNat 32 c)
      (src + BitVec.ofNat 32 c)

/-- `memcpy`. -/
def memcpy (mem : Mem) (dest src : Addr) (n : ℕ) : Mem :=
  copyChunks mem (RawEconet.memcpyChunks dest src n) dest src

/-- The loop of `strlen`. -/
def strlenFrom (mem : Mem) : ℕ → Addr → Option ℕ
  | 0, _ => none
  | n + 1, s => if mem s = 0#8 then some 0 else (strlenFrom mem n (s + 1#32)).map (· + 1)

/-- `strlen`. -/
def strlen (mem : Mem) (s : Addr) : Option ℕ := strlenFrom mem (2 ^ 32) s

/-- The first loop of `strtok_r`: it skips leading delimiters. -/
def skipDelims (mem : Mem) (delim : List (BitVec 8)) : ℕ → Addr → Option Addr
  | 0, _ => none
  | n + 1, s => if mem s ∈ delim then skipDelims mem delim n (s + 1#32) else some s

/-- The second loop of `strtok_r`: it looks for a delimiter, or the end of the string. -/
def scanToken (mem : Mem) (delim : List (BitVec 8)) : ℕ → Addr → Option Addr
  | 0, _ => none
  | n + 1, s => if mem s ∈ delim ∨ mem s = 0#8 then some s else scanToken mem delim n (s + 1#32)

/-- What `strtok` returns and leaves: the token, the variable `last`, and the memory. -/
structure Tok where
  tok : Addr
  last : Addr
  mem : Mem

/-- `strtok`. -/
def strtok (mem : Mem) (last s : Addr) (delim : List (BitVec 8)) : Option Tok := do
  let s := if s = 0#32 then last else s
  if s = 0#32 then return ⟨0#32, last, mem⟩
  let tok ← skipDelims mem delim (2 ^ 32) s
  -- no more than delimiters
  if mem tok = 0#8 then return ⟨0#32, 0#32, mem⟩
  let fin ← scanToken mem delim (2 ^ 32) (tok + 1#32)
  if mem fin = 0#8 then return ⟨tok, 0#32, mem⟩
  return ⟨tok, fin + 1#32, Function.update mem fin 0#8⟩

end Filestick.Elf
