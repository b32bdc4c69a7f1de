import Filestick.Lib.Ring
import Filestick.System.Elfload
import Mathlib.Data.List.TakeWhile

/-!
# Loading programs

Both passes over the program headers see the headers of `headersFrom`, which are those of the file
when it is long enough; otherwise what the locals held to begin with shows through.

* `validateFrom_eq`, `loadFrom_eq`: the first pass looks for a segment below the memory of the user,
  and the second loads what is in front of the first such segment.
* `elfLoadFd_eq`: what is left after a file that passes the checks.
* `elfLoadFd_exact`: a file with all of its headers and segments, which are apart and in the memory
  of the user, is loaded exactly.
-/

namespace Filestick.Elf

open Filestick.Ring

/-! ### The program headers -/

/-- The program headers that a loop sees.  A header that the file does not have in full keeps bytes
of the one before it. -/
def headersFrom (f : File) : ℕ → BitVec 32 → Buf → List Elf32Phdr
  | 0, _, _ => []
  | n + 1, pos, phdr =>
    let bytes := f.read pos 32
    (phdr.fill bytes).phdr ::
      headersFrom f n (pos + BitVec.ofNat 32 bytes.length) (phdr.fill bytes)

/-- The segments that the loader comes to. -/
def segments (hs : List Elf32Phdr) : List Elf32Phdr :=
  (hs.takeWhile (!·.isLow)).filter Elf32Phdr.isLoad

/-- Where the bytes of a segment go, and the bytes that are read for it. -/
def Elf32Phdr.block (f : File) (offset : BitVec 32) (h : Elf32Phdr) : Addr × List (BitVec 8) :=
  (h.pPaddr, f.read (offset + h.pOffset) h.pFilesz.toNat)

/-- One segment is loaded. -/
def Image.load (f : File) (offset : BitVec 32) (m : Image) (h : Elf32Phdr) : Image :=
  { m.store h.pPaddr (f.read (offset + h.pOffset) h.pFilesz.toNat) with
    brk := setMinBrk (h.pPaddr + h.pMemsz) }

theorem Elf32Phdr.isLow_of_isLoad {h : Elf32Phdr} (hload : h.isLoad = true) :
    h.isLow = decide (h.pPaddr < usrmemStart) := by
  rw [isLow, hload, Bool.true_and]

theorem Elf32Phdr.isLow_of_not_isLoad {h : Elf32Phdr} (hload : ¬h.isLoad = true) :
    h.isLow = false := by
  rw [isLow, Bool.eq_false_iff.mpr hload, Bool.false_and]

theorem segments_cons_low {h : Elf32Phdr} (hlow : h.isLow = true) (hs : List Elf32Phdr) :
    segments (h :: hs) = [] := by
  rw [segments, List.takeWhile_cons_of_neg (by rw [hlow]; decide)]
  rfl

theorem segments_cons {h : Elf32Phdr} (hlow : h.isLow = false) (hs : List Elf32Phdr) :
    segments (h :: hs) = if h.isLoad then h :: segments hs else segments hs := by
  rw [segments, List.takeWhile_cons_of_pos (by rw [hlow]; rfl), List.filter_cons]
  rfl

/-- Without a low segment the loader comes to all of them. -/
theorem segments_of_any {hs : List Elf32Phdr} (h : hs.any Elf32Phdr.isLow = false) :
    segments hs = hs.filter Elf32Phdr.isLoad := by
  rw [List.any_eq_false] at h
  rw [segments, List.takeWhile_eq_self_iff.mpr]
  intro x hx
  rw [Bool.not_eq_true', Bool.eq_false_iff]
  exact h x hx

theorem not_low_of_mem_segments {hs : List Elf32Phdr} {h : Elf32Phdr} (hh : h ∈ segments hs) :
    usrmemStart ≤ h.pPaddr := by
  obtain ⟨hmem, hload⟩ := List.mem_filter.mp hh
  have hlow := List.mem_takeWhile_imp hmem
  rw [Elf32Phdr.isLow_of_isLoad hload, Bool.not_eq_true', decide_eq_false_iff_not] at hlow
  exact BitVec.not_lt.mp hlow

/-- **The first pass.** -/
theorem validateFrom_eq (f : File) (n : ℕ) (pos : BitVec 32) (phdr : Buf) :
    validateFrom f n pos phdr =
      if (headersFrom f n pos phdr).any Elf32Phdr.isLow then enoexec else 0#32 := by
  induction n generalizing pos phdr with
  | zero => rfl
  | succ n ih =>
    rw [validateFrom, headersFrom, List.any_cons]
    by_cases hload : (phdr.fill (f.read pos 32)).phdr.isLoad = true
    · rw [if_pos hload, Elf32Phdr.isLow_of_isLoad hload]
      by_cases hlow : (phdr.fill (f.read pos 32)).phdr.pPaddr < usrmemStart
      · rw [if_pos hlow, decide_eq_true hlow, Bool.true_or, if_pos rfl]
      · rw [if_neg hlow, decide_eq_false hlow, Bool.false_or, ih]
    · rw [if_neg hload, Elf32Phdr.isLow_of_not_isLoad hload, Bool.false_or, ih]

/-- **The second pass.** -/
theorem loadFrom_eq (f : File) (offset : BitVec 32) (n : ℕ) (pos : BitVec 32) (phdr : Buf)
    (m : Image) :
    loadFrom f offset n pos phdr m =
      (!(headersFrom f n pos phdr).any Elf32Phdr.isLow,
        (segments (headersFrom f n pos phdr)).foldl (Image.load f offset) m) := by
  induction n generalizing pos phdr m with
  | zero => rfl
  | succ n ih =>
    rw [loadFrom, headersFrom]
    dsimp only
    rw [List.any_cons]
    by_cases hload : (phdr.fill (f.read pos 32)).phdr.isLoad = true
    · have hisLow := Elf32Phdr.isLow_of_isLoad hload
      rw [if_pos hload]
      by_cases hlow : (phdr.fill (f.read pos 32)).phdr.pPaddr < usrmemStart
      · rw [decide_eq_true hlow] at hisLow
        rw [if_pos hlow, segments_cons_low hisLow, hisLow, Bool.true_or]
        rfl
      · rw [decide_eq_false hlow] at hisLow
        rw [if_neg hlow, segments_cons hisLow, if_pos hload, hisLow, Bool.false_or, ih,
          List.foldl_cons]
        rfl
    · have hisLow := Elf32Phdr.isLow_of_not_isLoad hload
      rw [if_neg hload, segments_cons hisLow, if_neg hload, hisLow, Bool.false_or, ih]

/-! ### The segments -/

/-- The program break after the segments. -/
def brkAfter (b : Brk) (hs : List Elf32Phdr) : Brk :=
  hs.getLast?.elim b fun h => setMinBrk (h.pPaddr + h.pMemsz)

theorem foldl_load (f : File) (offset : BitVec 32) (hs : List Elf32Phdr) (m : Image) :
    hs.foldl (Image.load f offset) m =
      ⟨writeBlocks m.mem (hs.map (Elf32Phdr.block f offset)), brkAfter m.brk hs,
        m.stores ++ hs.map (Elf32Phdr.block f offset)⟩ := by
  induction hs generalizing m with
  | nil => rw [List.map_nil, List.append_nil]; rfl
  | cons h hs ih =>
    rw [List.foldl_cons, ih, List.map_cons]
    have hbrk : brkAfter (m.load f offset h).brk hs = brkAfter m.brk (h :: hs) := by
      rw [brkAfter, brkAfter, List.getLast?_cons]
      cases hs.getLast? with
      | none => rfl
      | some _ => rfl
    have hstores : (m.load f offset h).stores = m.stores ++ [h.block f offset] := rfl
    rw [hbrk, hstores, List.append_assoc]
    rfl

/-- The block of zeros that the memory of the user is cleared with. -/
def cleared (stackPtr : Addr) : Addr × List (BitVec 8) :=
  (usrmemStart, List.replicate (stackPtr - usrmemStart).toNat 0#8)

/-- Everything that is stored for some program headers. -/
def blocks (f : File) (offset : BitVec 32) (stackPtr : Addr) (hs : List Elf32Phdr) :
    List (Addr × List (BitVec 8)) :=
  cleared stackPtr :: (segments hs).map (Elf32Phdr.block f offset)

theorem memsz_iff (stackPtr : Addr) :
    (stackPtr - usrmemStart).slt 1#32 = false ↔
      usrmemStart.toNat < stackPtr.toNat ∧ stackPtr.toNat < usrmemStart.toNat + 2 ^ 31 := by
  have hlt := stackPtr.isLt
  rw [Bool.eq_false_iff, Ne, BitVec.slt_iff_toInt_lt, BitVec.toInt_eq_toNat_cond, BitVec.toNat_sub,
    usrmemStart, BitVec.toNat_ofNat, show (1#32).toInt = 1 from rfl]
  split_ifs with h
  · omega
  · omega

/-- **The loader**, for a file that passes both checks. -/
theorem elfLoadFd_eq {f : File} {offset : BitVec 32} {stackPtr : Addr} {l : Locals} (m : Image)
    (hread : (elfReadEhdr f offset l.header).1 = 0#32)
    (hvalid : elfValidatePhdr f offset (elfReadEhdr f offset l.header).2 l.validated = 0#32)
    {h : Elf32Ehdr} (hh : (elfReadEhdr f offset l.header).2 = h) {hs : List Elf32Phdr}
    (hhs : headersFrom f h.ePhnum.toNat (offset + h.ePhoff) l.phdr = hs) :
    elfLoadFd f offset stackPtr l m =
      if (stackPtr - usrmemStart).slt 1#32 then none
      else some ⟨if hs.any Elf32Phdr.isLow then 0#32 else h.eEntry, 0#32,
        ⟨writeBlocks m.mem (blocks f offset stackPtr hs), brkAfter m.brk (segments hs),
          m.stores ++ blocks f offset stackPtr hs⟩⟩ := by
  rw [hh] at hvalid
  unfold elfLoadFd
  generalize elfReadEhdr f offset l.header = p at hread hh
  obtain ⟨status, h'⟩ := p
  obtain rfl : status = 0#32 := hread
  obtain rfl : h' = h := hh
  dsimp only
  rw [if_neg (not_not_intro rfl), if_pos hvalid]
  by_cases hsz : (stackPtr - usrmemStart).slt 1#32 = true
  · rw [if_pos hsz, if_pos hsz]
  · have hne : stackPtr - usrmemStart ≠ 0#32 := by
      intro h0
      rw [h0] at hsz
      exact hsz (by decide)
    rw [if_neg hsz, if_neg hsz, memset, if_neg hne, Option.bind_eq_bind, Option.bind_some,
      loadFrom_eq, hhs, foldl_load, hvalid]
    have hstart : (if (!hs.any Elf32Phdr.isLow) = true then h'.eEntry else 0#32) =
        if hs.any Elf32Phdr.isLow = true then 0#32 else h'.eEntry := by
      cases hs.any Elf32Phdr.isLow with
      | false => rfl
      | true => rfl
    dsimp only
    rw [hstart, List.append_assoc]
    rfl

/-! ### Files with all of their headers and segments -/

/-- The bytes of a file at a position. -/
def File.bytesAt (f : File) (pos n : ℕ) : List (BitVec 8) := (f.bytes.drop pos).take n

/-- The file has all of the bytes at a position. -/
def File.Has (f : File) (pos n : ℕ) : Prop := n = 0 ∨ pos + n ≤ f.bytes.length

instance (f : File) (pos n : ℕ) : Decidable (f.Has pos n) :=
  inferInstanceAs (Decidable (n = 0 ∨ pos + n ≤ f.bytes.length))

/-- The header at a position. -/
def File.ehdr (f : File) (pos : ℕ) : Elf32Ehdr :=
  (Buf.fill (fun _ => 0#8) (f.bytesAt pos 52)).ehdr

/-- The program header at a position. -/
def File.phdr (f : File) (pos : ℕ) : Elf32Phdr :=
  (Buf.fill (fun _ => 0#8) (f.bytesAt pos 32)).phdr

/-- The program headers. -/
def File.phdrs (f : File) (pos : ℕ) : List Elf32Phdr :=
  (List.range (f.ehdr pos).ePhnum.toNat).map fun i =>
    f.phdr (pos + (f.ehdr pos).ePhoff.toNat + 32 * i)

/-- The segments that are to be loaded. -/
def File.loads (f : File) (pos : ℕ) : List Elf32Phdr := (f.phdrs pos).filter Elf32Phdr.isLoad

/-- The addresses of the bytes of a segment that are in the file. -/
def Elf32Phdr.extent (h : Elf32Phdr) : Set ℕ :=
  Set.Ico h.pPaddr.toNat (h.pPaddr.toNat + h.pFilesz.toNat)

/-- The memory of the user below the stack. -/
def userMem (stackPtr : Addr) : Set ℕ := Set.Ico usrmemStart.toNat stackPtr.toNat

instance (stackPtr : Addr) (a : ℕ) : Decidable (a ∈ userMem stackPtr) :=
  inferInstanceAs (Decidable (usrmemStart.toNat ≤ a ∧ a < stackPtr.toNat))

/-- A file that passes the checks, with all of its headers and segments, which are apart and in the
memory of the user. -/
structure Loadable (f : File) (offset : BitVec 32) (stackPtr : Addr) (l : Locals) : Prop where
  read : (elfReadEhdr f offset l.header).1 = 0#32
  valid : elfValidatePhdr f offset (elfReadEhdr f offset l.header).2 l.validated = 0#32
  has_ehdr : f.Has offset.toNat 52
  has_phdrs : f.Has (offset.toNat + (f.ehdr offset.toNat).ePhoff.toNat)
    (32 * (f.ehdr offset.toNat).ePhnum.toNat)
  has_segments : ∀ s ∈ f.loads offset.toNat,
    f.Has (offset.toNat + s.pOffset.toNat) s.pFilesz.toNat
  apart : (f.loads offset.toNat).Pairwise fun s t => Disjoint s.extent t.extent
  inside : ∀ s ∈ f.loads offset.toNat, s.extent ⊆ userMem stackPtr

theorem File.Has.length_bytesAt {f : File} {pos n : ℕ} (h : f.Has pos n) :
    (f.bytesAt pos n).length = n := by
  rw [bytesAt, List.length_take, List.length_drop]
  rcases h with rfl | h
  · exact Nat.min_eq_left (Nat.zero_le _)
  · omega

/-- A sum of two positions in the file does not wrap around. -/
theorem File.Has.read_add {f : File} {a b : BitVec 32} {n : ℕ} (h : f.Has (a.toNat + b.toNat) n) :
    f.read (a + b) n = f.bytesAt (a.toNat + b.toNat) n := by
  have hsize := f.size_lt
  rcases h with rfl | h
  · rw [read, bytesAt, List.take_zero, List.take_zero]
  · rw [read, BitVec.toNat_add, Nat.mod_eq_of_lt (by omega), bytesAt]

/-- What is read into a buffer does not depend on what it held. -/
theorem Buf.fill_congr (b b' : Buf) {bytes : List (BitVec 8)} {i : ℕ} (h : i < bytes.length) :
    b.fill bytes i = b'.fill bytes i := by
  rw [fill, fill, List.getElem?_eq_getElem h]
  rfl

theorem Buf.ehdr_fill (b b' : Buf) {bytes : List (BitVec 8)} (h : bytes.length = 52) :
    (b.fill bytes).ehdr = (b'.fill bytes).ehdr := by
  have hfill : ∀ i, i < 52 → b.fill bytes i = b'.fill bytes i :=
    fun i hi => fill_congr b b' (by omega)
  simp [ehdr, word, half, hfill]

theorem Buf.phdr_fill (b b' : Buf) {bytes : List (BitVec 8)} (h : bytes.length = 32) :
    (b.fill bytes).phdr = (b'.fill bytes).phdr := by
  have hfill : ∀ i, i < 32 → b.fill bytes i = b'.fill bytes i :=
    fun i hi => fill_congr b b' (by omega)
  simp [phdr, word, hfill]

theorem elfReadEhdr_snd (f : File) (offset : BitVec 32) (header : Buf) :
    (elfReadEhdr f offset header).2 = (header.fill (f.read offset 52)).ehdr := by
  unfold elfReadEhdr
  dsimp only
  split_ifs
  all_goals rfl

theorem headersFrom_eq {f : File} {n : ℕ} {pos : BitVec 32} (h : f.Has pos.toNat (32 * n))
    (phdr : Buf) :
    headersFrom f n pos phdr = (List.range n).map fun i => f.phdr (pos.toNat + 32 * i) := by
  induction n generalizing pos phdr with
  | zero => rfl
  | succ n ih =>
    have hsize := f.size_lt
    have hle : pos.toNat + 32 * (n + 1) ≤ f.bytes.length := by
      rcases h with h | h
      · omega
      · exact h
    have hlen : (f.read pos 32).length = 32 := File.Has.length_bytesAt (Or.inr (by omega))
    have hnext : (pos + BitVec.ofNat 32 32).toNat = pos.toNat + 32 := toNat_add_ofNat (by omega)
    have hfits : f.Has (pos + BitVec.ofNat 32 32).toNat (32 * n) := Or.inr (by omega)
    have hrest := ih hfits (phdr.fill (f.read pos 32))
    rw [headersFrom, hlen, hrest, hnext, List.range_succ_eq_map, List.map_cons, List.map_map]
    congr 1
    · exact Buf.phdr_fill _ _ hlen
    · apply List.map_congr_left
      intro i _
      rw [Function.comp_apply, Nat.succ_eq_add_one, Nat.mul_add, Nat.mul_one, Nat.add_assoc,
        Nat.add_comm 32]

namespace Loadable

variable {f : File} {offset : BitVec 32} {stackPtr : Addr} {l : Locals}

theorem ehdr_eq (h : Loadable f offset stackPtr l) :
    (elfReadEhdr f offset l.header).2 = f.ehdr offset.toNat := by
  rw [elfReadEhdr_snd]
  exact Buf.ehdr_fill _ _ h.has_ehdr.length_bytesAt

/-- Both passes see the headers of the file. -/
theorem headersFrom_eq (h : Loadable f offset stackPtr l) (phdr : Buf) :
    headersFrom f (f.ehdr offset.toNat).ePhnum.toNat (offset + (f.ehdr offset.toNat).ePhoff) phdr =
      f.phdrs offset.toNat := by
  have hsize := f.size_lt
  have hhas := h.has_phdrs
  rcases hhas with hzero | hle
  · have hzero' : (f.ehdr offset.toNat).ePhnum.toNat = 0 := by omega
    rw [File.phdrs, hzero']
    rfl
  · by_cases hn : (f.ehdr offset.toNat).ePhnum.toNat = 0
    · rw [File.phdrs, hn]
      rfl
    have hpos : (offset + (f.ehdr offset.toNat).ePhoff).toNat =
        offset.toNat + (f.ehdr offset.toNat).ePhoff.toNat := by
      rw [BitVec.toNat_add, Nat.mod_eq_of_lt (by omega)]
    rw [Elf.headersFrom_eq (Or.inr (by rw [hpos]; exact hle)), hpos]
    rfl

theorem not_low (h : Loadable f offset stackPtr l) :
    (f.phdrs offset.toNat).any Elf32Phdr.isLow = false := by
  have hvalid := h.valid
  rw [h.ehdr_eq, elfValidatePhdr, validateFrom_eq, h.headersFrom_eq] at hvalid
  by_contra hlow
  rw [Bool.not_eq_false] at hlow
  rw [if_pos hlow] at hvalid
  exact absurd hvalid (by decide)

/-- The cells that a segment is written to. -/
theorem mem_cells_block (h : Loadable f offset stackPtr l) {s : Elf32Phdr}
    (hs : s ∈ f.loads offset.toNat) (a : Addr) :
    a ∈ cells (s.block f offset) ↔ a.toNat ∈ s.extent := by
  have hlen : (f.read (offset + s.pOffset) s.pFilesz.toNat).length = s.pFilesz.toNat := by
    rw [(h.has_segments s hs).read_add, (h.has_segments s hs).length_bytesAt]
  have hfits : s.pPaddr.toNat + s.pFilesz.toNat ≤ 2 ^ 32 := by
    rcases Nat.eq_zero_or_pos s.pFilesz.toNat with h0 | hpos
    · have := s.pPaddr.isLt
      omega
    · -- the last byte is below the stack
      have hlast := h.inside s hs
        (show s.pPaddr.toNat + (s.pFilesz.toNat - 1) ∈ s.extent from ⟨by omega, by omega⟩)
      have := hlast.2
      have := stackPtr.isLt
      omega
  rw [Elf32Phdr.block, mem_cells_iff (by rw [hlen]; exact hfits), hlen]
  rfl

theorem blocks_apart (h : Loadable f offset stackPtr l) :
    ((f.loads offset.toNat).map (Elf32Phdr.block f offset)).Pairwise fun b c =>
      Disjoint (cells b) (cells c) := by
  rw [List.pairwise_map]
  apply h.apart.imp_of_mem
  intro s t hs ht hst
  rw [Set.disjoint_left] at hst ⊢
  intro a ha
  rw [h.mem_cells_block hs] at ha
  rw [h.mem_cells_block ht]
  exact hst ha

end Loadable

theorem length_block_le (f : File) (offset : BitVec 32) (s : Elf32Phdr) :
    (s.block f offset).2.length ≤ 2 ^ 32 := by
  have hle : (f.read (offset + s.pOffset) s.pFilesz.toNat).length ≤ s.pFilesz.toNat :=
    List.length_take_le _ _
  exact hle.trans s.pFilesz.isLt.le

theorem mem_cells_cleared {stackPtr : Addr} (hsp : usrmemStart.toNat < stackPtr.toNat) (a : Addr) :
    a ∈ cells (cleared stackPtr) ↔ a.toNat ∈ userMem stackPtr := by
  have hlt := stackPtr.isLt
  have hsize : (stackPtr - usrmemStart).toNat = stackPtr.toNat - usrmemStart.toNat :=
    BitVec.toNat_sub_of_le (BitVec.le_def.mpr hsp.le)
  have hend : usrmemStart.toNat + (stackPtr.toNat - usrmemStart.toNat) = stackPtr.toNat := by omega
  rw [cleared, mem_cells_iff (by rw [List.length_replicate, hsize]; omega), List.length_replicate,
    hsize, hend]
  rfl

theorem length_cleared (stackPtr : Addr) : (cleared stackPtr).2.length ≤ 2 ^ 32 := by
  rw [cleared, List.length_replicate]
  exact (BitVec.isLt _).le

/-- The memory when that of the user has been cleared. -/
def clear (mem : Mem) (stackPtr : Addr) : Mem :=
  writeAll mem (cleared stackPtr).1 (cleared stackPtr).2

theorem clear_inside (mem : Mem) {stackPtr : Addr} (hsp : usrmemStart.toNat < stackPtr.toNat)
    {a : Addr} (ha : a.toNat ∈ userMem stackPtr) : clear mem stackPtr a = 0#8 := by
  rw [← mem_cells_cleared hsp, mem_cells] at ha
  rw [clear, writeAll_apply _ _ _ (length_cleared stackPtr), List.getElem?_eq_getElem ha,
    Option.getD_some]
  exact List.getElem_replicate _

theorem clear_outside (mem : Mem) {stackPtr : Addr} (hsp : usrmemStart.toNat < stackPtr.toNat)
    {a : Addr} (ha : a.toNat ∉ userMem stackPtr) : clear mem stackPtr a = mem a := by
  rw [← mem_cells_cleared hsp, mem_cells, not_lt] at ha
  exact writeAll_outside _ (length_cleared stackPtr) ha

/-- **A program is loaded exactly**: the bytes of its segments, zeros in the rest of the memory of
the user, and nothing else. -/
theorem elfLoadFd_exact {f : File} {offset : BitVec 32} {stackPtr : Addr} {l : Locals}
    (h : Loadable f offset stackPtr l) (hsp : usrmemStart.toNat < stackPtr.toNat)
    (hsize : stackPtr.toNat < usrmemStart.toNat + 2 ^ 31) (m : Image) :
    ∃ r, elfLoadFd f offset stackPtr l m = some r ∧ r.status = 0#32 ∧
      r.start = (f.ehdr offset.toNat).eEntry ∧
      (∀ s ∈ f.loads offset.toNat, ∀ k < s.pFilesz.toNat,
        f.bytes[offset.toNat + s.pOffset.toNat + k]? =
          some (r.image.mem (s.pPaddr + BitVec.ofNat 32 k))) ∧
      (∀ a : Addr, a.toNat ∈ userMem stackPtr →
        (∀ s ∈ f.loads offset.toNat, a.toNat ∉ s.extent) → r.image.mem a = 0#8) ∧
      ∀ a : Addr, a.toNat ∉ userMem stackPtr → r.image.mem a = m.mem a := by
  have hlow := h.not_low
  have hload := @elfLoadFd_eq f offset stackPtr l m h.read h.valid _ h.ehdr_eq _
    (h.headersFrom_eq l.phdr)
  rw [(memsz_iff stackPtr).mpr ⟨hsp, hsize⟩, if_neg Bool.false_ne_true, hlow,
    if_neg Bool.false_ne_true, blocks, segments_of_any hlow, ← File.loads, writeBlocks,
    List.foldl_cons, ← writeBlocks, ← clear] at hload
  have hlen : ∀ b ∈ (f.loads offset.toNat).map (Elf32Phdr.block f offset),
      b.2.length ≤ 2 ^ 32 := by
    intro b hb
    obtain ⟨s, _, rfl⟩ := List.mem_map.mp hb
    exact length_block_le f offset s
  have houtside : ∀ a : Addr, (∀ s ∈ f.loads offset.toNat, a.toNat ∉ s.extent) →
      writeBlocks (clear m.mem stackPtr) ((f.loads offset.toNat).map (Elf32Phdr.block f offset)) a =
        clear m.mem stackPtr a := by
    intro a ha
    apply writeBlocks_outside _ hlen
    intro b hb
    obtain ⟨s, hs, rfl⟩ := List.mem_map.mp hb
    rw [h.mem_cells_block hs]
    exact ha s hs
  refine ⟨_, hload, rfl, rfl, ?_, ?_, ?_⟩
  · intro s hs k hk
    have hhas := h.has_segments s hs
    have hblock : (s.block f offset).2.length = s.pFilesz.toNat := by
      rw [Elf32Phdr.block, hhas.read_add, hhas.length_bytesAt]
    have hholds := holds_writeBlocks (clear m.mem stackPtr) hlen h.blocks_apart _
      (List.mem_map_of_mem hs)
    have hcell := hholds k (by rw [hblock]; exact hk)
    have hbyte : f.bytes[offset.toNat + s.pOffset.toNat + k]? = (s.block f offset).2[k]? := by
      rw [Elf32Phdr.block, hhas.read_add, File.bytesAt, List.getElem?_take_of_lt hk,
        List.getElem?_drop]
    rw [hbyte, List.getElem?_eq_getElem (by rw [hblock]; exact hk), ← hcell]
    rfl
  · intro a ha hsegments
    exact (houtside a hsegments).trans (clear_inside m.mem hsp ha)
  · intro a ha
    have hsegments : ∀ s ∈ f.loads offset.toNat, a.toNat ∉ s.extent :=
      fun s hs has => ha (h.inside s hs has)
    exact (houtside a hsegments).trans (clear_outside m.mem hsp ha)

/-! ### Small programs -/

/-- The bytes of a program header. -/
def Elf32Phdr.bytes (h : Elf32Phdr) : List (BitVec 8) :=
  [h.pType, h.pOffset, h.pPaddr, h.pPaddr, h.pFilesz, h.pMemsz, 7#32, 4#32].flatMap wordBytes

/-- The bytes of a program: a header, program headers right behind it, and the segments. -/
def elfBytes (entry : Addr) (phdrs : List Elf32Phdr) (data : List (BitVec 8)) :
    List (BitVec 8) :=
  [0x464c457f#32, 0x00010101#32, 0#32, 0#32, 0x00F30002#32, 1#32, entry, 52#32, 0#32, 0#32,
    0x00200034#32, BitVec.ofNat 32 phdrs.length, 0#32].flatMap wordBytes ++
    phdrs.flatMap Elf32Phdr.bytes ++ data

/-- Locals with zeros. -/
def zeroLocals : Locals := ⟨fun _ => 0#8, fun _ => 0#8, fun _ => 0#8⟩

/-- The image before anything is loaded. -/
def blankImage : Image := ⟨fun _ => 0#8, ⟨0#32, 0#32⟩, []⟩

/-- A text and a data segment with a bss. -/
def textAndData : List Elf32Phdr :=
  [⟨1#32, 116#32, 0x10800#32, 2#32, 4#32⟩, ⟨1#32, 118#32, 0x10000#32, 3#32, 3#32⟩]

/-- A program that starts three bytes into its file. -/
def shiftedProgram : File where
  bytes := [0#8, 0#8, 0#8] ++ elfBytes 0x10001#32 textAndData [1#8, 2#8, 3#8, 4#8, 5#8]
  size_lt := by decide +kernel

theorem loads_shiftedProgram : shiftedProgram.loads (3#32).toNat = textAndData := by
  decide +kernel

theorem shiftedProgram_loadable : Loadable shiftedProgram 3#32 0x21B00#32 zeroLocals where
  read := by decide +kernel
  valid := by decide +kernel
  has_ehdr := by decide +kernel
  has_phdrs := by decide +kernel
  has_segments := by decide +kernel
  apart := by
    rw [loads_shiftedProgram, textAndData, List.pairwise_pair, Set.disjoint_left]
    intro a ha ha'
    have hge : 0x10800 ≤ a := ha.1
    have hlt : a < 0x10003 := ha'.2
    omega
  inside := by
    have hspan : ∀ s ∈ textAndData, usrmemStart.toNat ≤ s.pPaddr.toNat ∧
        s.pPaddr.toNat + s.pFilesz.toNat ≤ (0x21B00#32).toNat := by decide
    rw [loads_shiftedProgram]
    intro s hs
    exact Set.Ico_subset_Ico (hspan s hs).1 (hspan s hs).2

/-- A program that starts three bytes into its file is loaded, and the bss behind its text is
cleared. -/
theorem shiftedProgram_exact :
    ∃ r, elfLoadFd shiftedProgram 3#32 0x21B00#32 zeroLocals ⟨fun _ => 9#8, ⟨0#32, 0#32⟩, []⟩ =
        some r ∧ r.start = 0x10001#32 ∧ r.image.mem 0x10801#32 = 2#8 ∧
      r.image.mem 0x10802#32 = 0#8 ∧ r.image.mem 0x10002#32 = 5#8 ∧
      r.image.mem 0x21B00#32 = 9#8 := by
  obtain ⟨r, hr, -, hstart, hsegments, hzero, hrest⟩ :=
    elfLoadFd_exact shiftedProgram_loadable (by decide) (by decide)
      ⟨fun _ => 9#8, ⟨0#32, 0#32⟩, []⟩
  rw [loads_shiftedProgram] at hsegments hzero
  have htext := hsegments ⟨1#32, 116#32, 0x10800#32, 2#32, 4#32⟩ (by decide) 1 (by decide)
  have hdata := hsegments ⟨1#32, 118#32, 0x10000#32, 3#32, 3#32⟩ (by decide) 2 (by decide)
  have hbss : ∀ s ∈ textAndData, s.pPaddr.toNat + s.pFilesz.toNat ≤ (0x10802#32).toNat := by decide
  refine ⟨r, hr, ?_, ?_, ?_, ?_, ?_⟩
  · rw [hstart]
    decide +kernel
  · exact (Option.some.inj htext).symm
  · exact hzero _ (by decide) fun s hs hmem => absurd hmem.2 (Nat.not_lt.mpr (hbss s hs))
  · exact (Option.some.inj hdata).symm
  · exact hrest _ (by decide)

end Filestick.Elf
