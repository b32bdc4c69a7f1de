import Filestick.System.Memcpy

/-!
# The allocator (`tlsf.c`, `kmalloc.c`)

The calls of `sys_malloc_init`, `sys_malloc`, `sys_realloc` and `sys_free` are these functions.
Everything that the allocator keeps is in the memory: a header before each block, and the structure
`control_t` at the address that its callers hand on.  What is printed is not modelled.
-/

namespace Filestick.Tlsf

open Elf (Addr Mem)
open SpiBlock (loadWord storeWord)

/-! ### Bits -/

/-- One of the lines of `tlsf_fls_generic`. -/
def flsStep (mask : BitVec 32) (n : ℕ) (s : BitVec 32 × ℤ) : BitVec 32 × ℤ :=
  if s.1 &&& mask = 0#32 then (s.1 <<< n, s.2 - n) else s

/-- `tlsf_fls_generic`. -/
def tlsfFlsGeneric (word : BitVec 32) : ℤ :=
  let s := (word, if word = 0#32 then 32 - 1 else 32)
  let s := flsStep 0xFFFF0000#32 16 s
  let s := flsStep 0xFF000000#32 8 s
  let s := flsStep 0xF0000000#32 4 s
  let s := flsStep 0xC0000000#32 2 s
  let s := flsStep 0x80000000#32 1 s
  s.2

/-- `tlsf_ffs`. -/
def tlsfFfs (word : BitVec 32) : ℤ := tlsfFlsGeneric (word &&& (~~~word + 1#32)) - 1

/-- `tlsf_fls`. -/
def tlsfFls (word : BitVec 32) : ℤ := tlsfFlsGeneric word - 1

/-! ### Constants -/

/-- `SL_INDEX_COUNT_LOG2`. -/
def slIndexCountLog2 : ℕ := 5

/-- `SL_INDEX_COUNT`. -/
def slIndexCount : ℕ := 32

/-- `FL_INDEX_SHIFT`. -/
def flIndexShift : ℕ := 7

/-- `FL_INDEX_COUNT`. -/
def flIndexCount : ℕ := 24

/-- `ALIGN_SIZE`. -/
def alignSize : BitVec 32 := 4#32

/-- `SMALL_BLOCK_SIZE`. -/
def smallBlockSize : BitVec 32 := 128#32

/-- `block_header_free_bit`. -/
def blockHeaderFreeBit : BitVec 32 := 1#32

/-- `block_header_prev_free_bit`. -/
def blockHeaderPrevFreeBit : BitVec 32 := 2#32

/-- `block_header_overhead`. -/
def blockHeaderOverhead : BitVec 32 := 4#32

/-- `block_start_offset`. -/
def blockStartOffset : BitVec 32 := 8#32

/-- `sizeof(block_header_t)`. -/
def blockHeaderBytes : BitVec 32 := 16#32

/-- `block_size_min`. -/
def blockSizeMin : BitVec 32 := 12#32

/-- `block_size_max`. -/
def blockSizeMax : BitVec 32 := 0x40000000#32

/-! ### Headers

The fields of `block_header_t` are `prev_phys_block`, `size`, `next_free` and `prev_free`. -/

/-- The field `size`, with the two bits. -/
def sizeField (block : Addr) : Addr := block + 4#32

/-- The field `next_free`. -/
def nextFree (block : Addr) : Addr := block + 8#32

/-- The field `prev_free`. -/
def prevFree (block : Addr) : Addr := block + 12#32

/-- `block_size`. -/
def blockSize (mem : Mem) (block : Addr) : BitVec 32 :=
  loadWord mem (sizeField block) &&& ~~~(blockHeaderFreeBit ||| blockHeaderPrevFreeBit)

/-- `block_set_size`. -/
def blockSetSize (mem : Mem) (block : Addr) (size : BitVec 32) : Mem :=
  let oldsize := loadWord mem (sizeField block)
  storeWord mem (sizeField block)
    (size ||| (oldsize &&& (blockHeaderFreeBit ||| blockHeaderPrevFreeBit)))

/-- `block_is_free`. -/
def blockIsFree (mem : Mem) (block : Addr) : Bool :=
  loadWord mem (sizeField block) &&& blockHeaderFreeBit ≠ 0#32

/-- `block_set_free`. -/
def blockSetFree (mem : Mem) (block : Addr) : Mem :=
  storeWord mem (sizeField block) (loadWord mem (sizeField block) ||| blockHeaderFreeBit)

/-- `block_set_used`. -/
def blockSetUsed (mem : Mem) (block : Addr) : Mem :=
  storeWord mem (sizeField block) (loadWord mem (sizeField block) &&& ~~~blockHeaderFreeBit)

/-- `block_is_prev_free`. -/
def blockIsPrevFree (mem : Mem) (block : Addr) : Bool :=
  loadWord mem (sizeField block) &&& blockHeaderPrevFreeBit ≠ 0#32

/-- `block_set_prev_free`. -/
def blockSetPrevFree (mem : Mem) (block : Addr) : Mem :=
  storeWord mem (sizeField block) (loadWord mem (sizeField block) ||| blockHeaderPrevFreeBit)

/-- `block_set_prev_used`. -/
def blockSetPrevUsed (mem : Mem) (block : Addr) : Mem :=
  storeWord mem (sizeField block) (loadWord mem (sizeField block) &&& ~~~blockHeaderPrevFreeBit)

/-- `block_from_ptr`. -/
def blockFromPtr (ptr : Addr) : Addr := ptr - blockStartOffset

/-- `block_to_ptr`. -/
def blockToPtr (block : Addr) : Addr := block + blockStartOffset

/-- `offset_to_block`. -/
def offsetToBlock (ptr : Addr) (size : BitVec 32) : Addr := ptr + size

/-- `block_prev`. -/
def blockPrev (mem : Mem) (block : Addr) : Addr := loadWord mem block

/-- `block_next`. -/
def blockNext (mem : Mem) (block : Addr) : Addr :=
  offsetToBlock (blockToPtr block) (blockSize mem block - blockHeaderOverhead)

/-- `block_link_next`, with the neighbour that it returns. -/
def blockLinkNext (mem : Mem) (block : Addr) : Mem × Addr :=
  let next := blockNext mem block
  (storeWord mem next block, next)

/-- `block_mark_as_free`. -/
def blockMarkAsFree (mem : Mem) (block : Addr) : Mem :=
  let r := blockLinkNext mem block
  blockSetFree (blockSetPrevFree r.1 r.2) block

/-- `block_mark_as_used`. -/
def blockMarkAsUsed (mem : Mem) (block : Addr) : Mem :=
  let next := blockNext mem block
  blockSetUsed (blockSetPrevUsed mem next) block

/-! ### Sizes -/

/-- `align_up`. -/
def alignUp (x align : BitVec 32) : BitVec 32 := (x + (align - 1#32)) &&& ~~~(align - 1#32)

/-- `align_down`. -/
def alignDown (x align : BitVec 32) : BitVec 32 := x - (x &&& (align - 1#32))

/-- `adjust_request_size`. -/
def adjustRequestSize (size align : BitVec 32) : BitVec 32 :=
  if size ≠ 0#32 then
    let aligned := alignUp size align
    if aligned < blockSizeMax then (if blockSizeMin < aligned then aligned else blockSizeMin)
    else 0#32
  else 0#32

/-- `mapping_insert`, with the two numbers that it finds. -/
def mappingInsert (size : BitVec 32) : ℕ × ℕ :=
  if size < smallBlockSize then (0, size.toNat / (128 / slIndexCount))
  else
    let fl := (tlsfFls size).toNat
    let sl := (size >>> (fl - slIndexCountLog2)).toNat ^^^ (1 <<< slIndexCountLog2)
    (fl - (flIndexShift - 1), sl)

/-- `mapping_search`. -/
def mappingSearch (size : BitVec 32) : ℕ × ℕ :=
  if smallBlockSize ≤ size then
    let round := (1#32 <<< ((tlsfFls size).toNat - slIndexCountLog2)) - 1#32
    mappingInsert (size + round)
  else mappingInsert size

/-! ### The free lists

`control_t` starts with `block_null`, so that `&control->block_null` is its own address. -/

/-- `&control->fl_bitmap`. -/
def flBitmap (control : Addr) : Addr := control + 16#32

/-- `&control->sl_bitmap[fl]`. -/
def slBitmap (control : Addr) (fl : ℕ) : Addr := control + BitVec.ofNat 32 (20 + 4 * fl)

/-- `&control->blocks[fl][sl]`. -/
def blocks (control : Addr) (fl sl : ℕ) : Addr :=
  control + BitVec.ofNat 32 (116 + 4 * (slIndexCount * fl + sl))

/-- `tlsf_size`. -/
def tlsfSize : BitVec 32 := 3188#32

/-- `search_suitable_block`: the block, or 0, and the list that it is the first one of. -/
def searchSuitableBlock (mem : Mem) (control : Addr) (fl sl : ℕ) : Addr × ℕ × ℕ :=
  let slMap := loadWord mem (slBitmap control fl) &&& (~~~0#32 <<< sl)
  if slMap = 0#32 then
    -- the next larger ones that are not empty
    let flMap := loadWord mem (flBitmap control) &&& (~~~0#32 <<< (fl + 1))
    if flMap = 0#32 then (0#32, fl, sl)
    else
      let fl := (tlsfFfs flMap).toNat
      let sl := (tlsfFfs (loadWord mem (slBitmap control fl))).toNat
      (loadWord mem (blocks control fl sl), fl, sl)
  else
    let sl := (tlsfFfs slMap).toNat
    (loadWord mem (blocks control fl sl), fl, sl)

/-- `remove_free_block`. -/
def removeFreeBlock (mem : Mem) (control block : Addr) (fl sl : ℕ) : Mem :=
  let prev := loadWord mem (prevFree block)
  let next := loadWord mem (nextFree block)
  let mem := storeWord mem (prevFree next) prev
  let mem := storeWord mem (nextFree prev) next
  if loadWord mem (blocks control fl sl) = block then
    let mem := storeWord mem (blocks control fl sl) next
    if next = control then
      let mem := storeWord mem (slBitmap control fl)
        (loadWord mem (slBitmap control fl) &&& ~~~(1#32 <<< sl))
      if loadWord mem (slBitmap control fl) = 0#32 then
        storeWord mem (flBitmap control) (loadWord mem (flBitmap control) &&& ~~~(1#32 <<< fl))
      else mem
    else mem
  else mem

/-- `insert_free_block`. -/
def insertFreeBlock (mem : Mem) (control block : Addr) (fl sl : ℕ) : Mem :=
  let current := loadWord mem (blocks control fl sl)
  let mem := storeWord mem (nextFree block) current
  let mem := storeWord mem (prevFree block) control
  let mem := storeWord mem (prevFree current) block
  let mem := storeWord mem (blocks control fl sl) block
  let mem := storeWord mem (flBitmap control) (loadWord mem (flBitmap control) ||| 1#32 <<< fl)
  storeWord mem (slBitmap control fl) (loadWord mem (slBitmap control fl) ||| 1#32 <<< sl)

/-- `block_remove`. -/
def blockRemove (mem : Mem) (control block : Addr) : Mem :=
  let i := mappingInsert (blockSize mem block)
  removeFreeBlock mem control block i.1 i.2

/-- `block_insert`. -/
def blockInsert (mem : Mem) (control block : Addr) : Mem :=
  let i := mappingInsert (blockSize mem block)
  insertFreeBlock mem control block i.1 i.2

/-! ### Splitting and merging -/

/-- `block_can_split`. -/
def blockCanSplit (mem : Mem) (block : Addr) (size : BitVec 32) : Bool :=
  blockHeaderBytes + size ≤ blockSize mem block

/-- `block_split`, with the second block, which it returns. -/
def blockSplit (mem : Mem) (block : Addr) (size : BitVec 32) : Mem × Addr :=
  let remaining := offsetToBlock (blockToPtr block) (size - blockHeaderOverhead)
  let remainSize := blockSize mem block - (size + blockHeaderOverhead)
  let mem := blockSetSize mem remaining remainSize
  let mem := blockSetSize mem block size
  (blockMarkAsFree mem remaining, remaining)

/-- `block_absorb`, which returns `prev`. -/
def blockAbsorb (mem : Mem) (prev block : Addr) : Mem × Addr :=
  let mem := storeWord mem (sizeField prev)
    (loadWord mem (sizeField prev) + (blockSize mem block + blockHeaderOverhead))
  ((blockLinkNext mem prev).1, prev)

/-- `block_merge_prev`. -/
def blockMergePrev (mem : Mem) (control block : Addr) : Mem × Addr :=
  if blockIsPrevFree mem block then
    let prev := blockPrev mem block
    blockAbsorb (blockRemove mem control prev) prev block
  else (mem, block)

/-- `block_merge_next`. -/
def blockMergeNext (mem : Mem) (control block : Addr) : Mem × Addr :=
  let next := blockNext mem block
  if blockIsFree mem next then blockAbsorb (blockRemove mem control next) block next
  else (mem, block)

/-- `block_trim_free`. -/
def blockTrimFree (mem : Mem) (control block : Addr) (size : BitVec 32) : Mem :=
  if blockCanSplit mem block size then
    let r := blockSplit mem block size
    let mem := (blockLinkNext r.1 block).1
    let mem := blockSetPrevFree mem r.2
    blockInsert mem control r.2
  else mem

/-- `block_trim_used`. -/
def blockTrimUsed (mem : Mem) (control block : Addr) (size : BitVec 32) : Mem :=
  if blockCanSplit mem block size then
    let r := blockSplit mem block size
    let mem := blockSetPrevUsed r.1 r.2
    let r := blockMergeNext mem control r.2
    blockInsert r.1 control r.2
  else mem

/-- `block_locate_free`; 0 is `NULL`. -/
def blockLocateFree (mem : Mem) (control : Addr) (size : BitVec 32) : Mem × Addr :=
  if size ≠ 0#32 then
    let i := mappingSearch size
    if i.1 < flIndexCount then
      let r := searchSuitableBlock mem control i.1 i.2
      if r.1 ≠ 0#32 then (removeFreeBlock mem control r.1 r.2.1 r.2.2, r.1) else (mem, 0#32)
    else (mem, 0#32)
  else (mem, 0#32)

/-- `block_prepare_used`. -/
def blockPrepareUsed (mem : Mem) (control block : Addr) (size : BitVec 32) : Mem × Addr :=
  if block ≠ 0#32 then
    let mem := blockTrimFree mem control block size
    let mem := blockMarkAsUsed mem block
    (mem, blockToPtr block)
  else (mem, 0#32)

/-! ### Pools -/

/-- The inner loop of `control_construct`. -/
def constructLists (control : Addr) (fl : ℕ) (mem : Mem) : Mem :=
  (List.range slIndexCount).foldl (fun mem sl => storeWord mem (blocks control fl sl) control) mem

/-- `control_construct`. -/
def controlConstruct (mem : Mem) (control : Addr) : Mem :=
  let mem := storeWord mem (nextFree control) control
  let mem := storeWord mem (prevFree control) control
  let mem := storeWord mem (flBitmap control) 0#32
  (List.range flIndexCount).foldl
    (fun mem fl => constructLists control fl (storeWord mem (slBitmap control fl) 0#32)) mem

/-- `tlsf_pool_overhead`. -/
def tlsfPoolOverhead : BitVec 32 := 2#32 * blockHeaderOverhead

/-- `tlsf_add_pool`; 0 is `NULL`. -/
def tlsfAddPool (mem : Mem) (tlsf pool : Addr) (bytes : BitVec 32) : Mem × Addr :=
  let poolBytes := alignDown (bytes - tlsfPoolOverhead) alignSize
  if pool.srem alignSize ≠ 0#32 then (mem, 0#32)
  else if poolBytes < blockSizeMin ∨ blockSizeMax < poolBytes then (mem, 0#32)
  else
    let block := offsetToBlock pool (-blockHeaderOverhead)
    let mem := blockSetSize mem block poolBytes
    let mem := blockSetFree mem block
    let mem := blockSetPrevUsed mem block
    let mem := blockInsert mem tlsf block
    -- a block of size 0 is behind the last one
    let r := blockLinkNext mem block
    let mem := blockSetSize r.1 r.2 0#32
    let mem := blockSetUsed mem r.2
    (blockSetPrevFree mem r.2, pool)

/-- `tlsf_create`; 0 is `NULL`. -/
def tlsfCreate (mem : Mem) (start : Addr) : Mem × Addr :=
  if start.srem alignSize ≠ 0#32 then (mem, 0#32) else (controlConstruct mem start, start)

/-- `tlsf_create_with_pool`, which is `sys_malloc_init`. -/
def tlsfCreateWithPool (mem : Mem) (start : Addr) (bytes : BitVec 32) : Mem × Addr :=
  let r := tlsfCreate mem start
  ((tlsfAddPool r.1 r.2 (start + tlsfSize) (bytes - tlsfSize)).1, r.2)

/-! ### The interface -/

/-- `tlsf_malloc`. -/
def tlsfMalloc (mem : Mem) (tlsf : Addr) (size : BitVec 32) : Mem × Addr :=
  let adjust := adjustRequestSize size alignSize
  let r := blockLocateFree mem tlsf adjust
  blockPrepareUsed r.1 tlsf r.2 adjust

/-- `tlsf_free`. -/
def tlsfFree (mem : Mem) (tlsf ptr : Addr) : Mem :=
  if ptr ≠ 0#32 then
    let block := blockFromPtr ptr
    let mem := blockMarkAsFree mem block
    let r := blockMergePrev mem tlsf block
    let r := blockMergeNext r.1 tlsf r.2
    blockInsert r.1 tlsf r.2
  else mem

/-- `tlsf_realloc`. -/
def tlsfRealloc (mem : Mem) (tlsf ptr : Addr) (size : BitVec 32) : Mem × Addr :=
  if ptr ≠ 0#32 ∧ size = 0#32 then (tlsfFree mem tlsf ptr, 0#32)
  else if ptr = 0#32 then tlsfMalloc mem tlsf size
  else
    let block := blockFromPtr ptr
    let next := blockNext mem block
    let cursize := blockSize mem block
    let combined := cursize + blockSize mem next + blockHeaderOverhead
    let adjust := adjustRequestSize size alignSize
    if cursize < adjust ∧ (!blockIsFree mem next ∨ combined < adjust) then
      let r := tlsfMalloc mem tlsf size
      if r.2 ≠ 0#32 then
        let minsize := if cursize < size then cursize else size
        let mem := (Memcpy.memcpy r.1 r.2 ptr minsize).2.mem
        (tlsfFree mem tlsf ptr, r.2)
      else r
    else
      let mem :=
        if cursize < adjust then blockMarkAsUsed (blockMergeNext mem tlsf block).1 block else mem
      (blockTrimUsed mem tlsf block adjust, ptr)

/-! ### Checks

The loops of the checks follow links; `none` means that they have not come to their end. -/

/-- `tlsf_insist`. -/
def tlsfInsist (status : ℤ) (x : Bool) : ℤ := if !x then status - 1 else status

/-- The checks of a block in the list `i`, `j`. -/
def checkBlock (mem : Mem) (i j : ℕ) (status : ℤ) (block : Addr) : ℤ :=
  let status := tlsfInsist status (blockIsFree mem block)
  let status := tlsfInsist status (!blockIsPrevFree mem block)
  let status := tlsfInsist status (!blockIsFree mem (blockNext mem block))
  let status := tlsfInsist status (blockIsPrevFree mem (blockNext mem block))
  let status := tlsfInsist status (blockSizeMin ≤ blockSize mem block)
  tlsfInsist status (mappingInsert (blockSize mem block) = (i, j))

/-- The `while` loop of `tlsf_check`. -/
def checkList (mem : Mem) (control : Addr) (i j : ℕ) : ℕ → ℤ → Addr → Option ℤ
  | 0, _, _ => none
  | fuel + 1, status, block =>
    if block ≠ control then
      checkList mem control i j fuel (checkBlock mem i j status block)
        (loadWord mem (nextFree block))
    else some status

/-- A turn of the inner `for` loop of `tlsf_check`. -/
def checkIndex (mem : Mem) (control : Addr) (fuel i j : ℕ) (status : ℤ) : Option ℤ :=
  let flMap := loadWord mem (flBitmap control) &&& (1#32 <<< i)
  let slList := loadWord mem (slBitmap control i)
  let slMap := slList &&& (1#32 <<< j)
  let block := loadWord mem (blocks control i j)
  let status := if flMap = 0#32 then tlsfInsist status (slMap = 0#32) else status
  if slMap = 0#32 then some (tlsfInsist status (block = control))
  else
    let status := tlsfInsist status (slList ≠ 0#32)
    let status := tlsfInsist status (block ≠ control)
    checkList mem control i j fuel status block

/-- `tlsf_check`. -/
def tlsfCheck (mem : Mem) (tlsf : Addr) (fuel : ℕ) : Option ℤ :=
  (List.range flIndexCount).foldlM (fun status i =>
    (List.range slIndexCount).foldlM (fun status j => checkIndex mem tlsf fuel i j status) status) 0

/-- `integrity_walker`, with `prev_status` and `status`. -/
def integrityWalker (mem : Mem) (ptr : Addr) (size : BitVec 32) (integ : Bool × ℤ) : Bool × ℤ :=
  let block := blockFromPtr ptr
  let status := tlsfInsist 0 (integ.1 = blockIsPrevFree mem block)
  let status := tlsfInsist status (size = blockSize mem block)
  (blockIsFree mem block, integ.2 + status)

/-- The loop of `tlsf_walk_pool`, with that walker. -/
def walkPool (mem : Mem) : ℕ → Bool × ℤ → Addr → Option (Bool × ℤ)
  | 0, _, _ => none
  | fuel + 1, integ, block =>
    if block ≠ 0#32 ∧ blockSize mem block ≠ 0#32 then
      walkPool mem fuel (integrityWalker mem (blockToPtr block) (blockSize mem block) integ)
        (blockNext mem block)
    else some integ

/-- `tlsf_check_pool`. -/
def tlsfCheckPool (mem : Mem) (pool : Addr) (fuel : ℕ) : Option ℤ :=
  (walkPool mem fuel (false, 0) (offsetToBlock pool (-blockHeaderOverhead))).map Prod.snd

/-! ### The memory of the kernel -/

/-- The size of `mem`. -/
def kmallocBytes : BitVec 32 := 8192#32

/-- `kmalloc_init`, with `mem` at the address `pool`: whether it goes on. -/
def kmallocInit (mem : Mem) (pool : Addr) : Mem × Bool :=
  let r := tlsfCreateWithPool mem pool kmallocBytes
  (r.1, r.2 ≠ 0#32)

/-- `kmalloc`. -/
def kmalloc (mem : Mem) (pool : Addr) (size : BitVec 32) : Mem × Addr := tlsfMalloc mem pool size

/-- `krealloc`. -/
def krealloc (mem : Mem) (pool ptr : Addr) (size : BitVec 32) : Mem × Addr :=
  tlsfRealloc mem pool ptr size

/-- `kfree`. -/
def kfree (mem : Mem) (pool ptr : Addr) : Mem := tlsfFree mem pool ptr

end Filestick.Tlsf
