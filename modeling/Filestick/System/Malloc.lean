import Filestick.System.Elfload

/-!
# Memory from the allocator of the system (`malloc.c`)

The library takes its memory from `sys_malloc`, which is a parameter: it keeps its data in the
memory, and gives a block of at least the size that it is asked for, or none.
-/

namespace Filestick.Malloc

open Elf (Addr Mem Brk sysBrk)

/-- A block, with the bytes that it has room for. -/
structure Block where
  ptr : Addr
  room : ℕ
  ptr_ne : ptr ≠ 0#32

/-- `sys_malloc_init` and `sys_malloc`. -/
structure Allocator where
  sysMallocInit : Mem → Addr → BitVec 32 → Mem × Addr
  sysMalloc : Mem → Addr → (bytes : BitVec 32) → Mem × Option { b : Block // bytes.toNat ≤ b.room }

/-- `mempool`, the break, and the memory. -/
structure State where
  mempool : Addr
  brk : Brk
  mem : Mem

/-- `DEFAULT_BRK`. -/
def defaultBrk : Addr := 0x21C00#32 - 2048#32

/-- `setup_malloc`, with the stack pointer of the user at its two calls of `sys_brk`. -/
def setupMalloc (A : Allocator) (gp sp : Addr) (s : State) : State × Bool :=
  let start := sysBrk s.brk gp sp 0#32
  let actual := sysBrk start.1 gp sp defaultBrk
  if start.2 < actual.2 then
    let pool := A.sysMallocInit s.mem start.2 (actual.2 - start.2)
    if pool.2 ≠ 0#32 then (⟨start.2, actual.1, pool.1⟩, true)
    else (⟨0#32, actual.1, pool.1⟩, false)
  else (⟨0#32, actual.1, s.mem⟩, false)

/-- What each function starts with. -/
def ensurePool (A : Allocator) (gp sp : Addr) (s : State) : State × Bool :=
  if s.mempool = 0#32 then setupMalloc A gp sp s else (s, true)

/-- `__wrap__malloc_r`; `none` is `NULL`. -/
def wrapMallocR (A : Allocator) (gp sp : Addr) (s : State) (size : BitVec 32) :
    State × Option Block :=
  let r := ensurePool A gp sp s
  if r.2 then
    let m := A.sysMalloc r.1.mem r.1.mempool size
    ({ r.1 with mem := m.1 }, m.2.map Subtype.val)
  else (r.1, none)

/-- `memset` of the library. -/
def memset (mem : Mem) (s : Addr) (c : BitVec 8) (n : BitVec 32) : Mem :=
  Ring.writeAll mem s (List.replicate n.toNat c)

/-- `__wrap__calloc_r`. -/
def wrapCallocR (A : Allocator) (gp sp : Addr) (s : State) (nmemb size : BitVec 32) :
    State × Option Block :=
  let r := ensurePool A gp sp s
  if r.2 then
    let bytes := nmemb * size
    let m := A.sysMalloc r.1.mem r.1.mempool bytes
    match m.2 with
    | some b => ({ r.1 with mem := memset m.1 b.val.ptr 0#8 bytes }, some b.val)
    | none => ({ r.1 with mem := m.1 }, none)
  else (r.1, none)

end Filestick.Malloc
