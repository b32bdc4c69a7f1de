import Filestick.System.Equiv.Elfload

/-!
# The bounds of a program

The loader checks where a segment begins, but not where it ends.

* `confined_iff`: what is stored is in the memory of the user if and only if no segment is read
  beyond the stack pointer.
* `brk_above_iff`: the program break is the end of the last segment, unless the global pointer is
  further up.
-/

namespace Filestick.Elf

open Filestick.Ring

variable {f : File} {offset : BitVec 32} {stackPtr : Addr} {l : Locals} {m : Image} {r : Loaded}

/-- The program headers that the loader sees. -/
def headers (f : File) (offset : BitVec 32) (l : Locals) : List Elf32Phdr :=
  let h := (elfReadEhdr f offset l.header).2
  headersFrom f h.ePhnum.toNat (offset + h.ePhoff) l.phdr

/-- What is left after a file that passes both checks, on a machine that goes on. -/
theorem elfLoadFd_of_valid (hread : (elfReadEhdr f offset l.header).1 = 0#32)
    (hvalid : elfValidatePhdr f offset (elfReadEhdr f offset l.header).2 l.validated = 0#32)
    (hr : elfLoadFd f offset stackPtr l m = some r) :
    (usrmemStart.toNat < stackPtr.toNat ∧ stackPtr.toNat < usrmemStart.toNat + 2 ^ 31) ∧
      r.start = (if (headers f offset l).any Elf32Phdr.isLow then 0#32
        else (elfReadEhdr f offset l.header).2.eEntry) ∧
      r.image = ⟨writeBlocks m.mem (blocks f offset stackPtr (headers f offset l)),
        brkAfter m.brk (segments (headers f offset l)),
        m.stores ++ blocks f offset stackPtr (headers f offset l)⟩ := by
  rw [elfLoadFd_eq m hread hvalid rfl rfl, ← headers] at hr
  by_cases hsz : (stackPtr - usrmemStart).slt 1#32 = true
  · rw [if_pos hsz] at hr
    exact absurd hr (Option.some_ne_none r).symm
  · rw [if_neg hsz] at hr
    obtain rfl := Option.some.inj hr
    exact ⟨(memsz_iff stackPtr).mp (Bool.eq_false_iff.mpr hsz), rfl, rfl⟩

/-! ### The memory of the user -/

/-- Everything that has been stored is in the memory of the user. -/
def Confined (stackPtr : Addr) (m : Image) : Prop :=
  ∀ b ∈ m.stores, ∀ a ∈ cells b, a.toNat ∈ userMem stackPtr

/-- The bytes of a segment that the file has end below the stack. -/
def Elf32Phdr.EndsBelow (f : File) (offset : BitVec 32) (stackPtr : Addr) (s : Elf32Phdr) : Prop :=
  (s.block f offset).2 = [] ∨ s.pPaddr.toNat + (s.block f offset).2.length ≤ stackPtr.toNat

instance (f : File) (offset : BitVec 32) (stackPtr : Addr) (s : Elf32Phdr) :
    Decidable (s.EndsBelow f offset stackPtr) :=
  inferInstanceAs (Decidable (_ = _ ∨ _ ≤ _))

/-- A segment that does not begin too low. -/
theorem block_confined_iff {s : Elf32Phdr} (hlow : usrmemStart ≤ s.pPaddr) :
    (∀ a ∈ cells (s.block f offset), a.toNat ∈ userMem stackPtr) ↔
      s.EndsBelow f offset stackPtr := by
  have hlen := length_block_le f offset s
  have hp := s.pPaddr.isLt
  have hsp := stackPtr.isLt
  have hstart : (s.block f offset).1 = s.pPaddr := rfl
  rw [Elf32Phdr.EndsBelow, ← List.length_eq_zero_iff]
  generalize s.block f offset = b at hlen hstart
  obtain ⟨start, bytes⟩ := b
  obtain rfl : start = s.pPaddr := hstart
  constructor
  · intro h
    by_contra hout
    rw [not_or, not_le] at hout
    obtain ⟨hne, hlt⟩ := hout
    have hfirst := h _ (mem_cells_add (k := 0) hlen (by omega))
    rw [BitVec.add_zero] at hfirst
    -- the cell that the stack pointer points to is one of the block
    have hge := hfirst.2
    have hcell := h _ (mem_cells_add (k := stackPtr.toNat - s.pPaddr.toNat) hlen (by omega))
    rw [toNat_add_ofNat (by omega)] at hcell
    have := hcell.2
    omega
  · rintro (h0 | hle) a ha
    · rw [mem_cells, h0] at ha
      exact absurd ha (Nat.not_lt_zero _)
    · dsimp only at hle
      rw [mem_cells_iff (by omega)] at ha
      have hle' := BitVec.le_def.mp hlow
      exact ⟨hle'.trans ha.1, ha.2.trans_le hle⟩

/-- **The stores are confined to the memory of the user** if and only if every segment that the
loader comes to ends below the stack. -/
theorem confined_iff (hread : (elfReadEhdr f offset l.header).1 = 0#32)
    (hvalid : elfValidatePhdr f offset (elfReadEhdr f offset l.header).2 l.validated = 0#32)
    (hr : elfLoadFd f offset stackPtr l m = some r) (hm : m.stores = []) :
    Confined stackPtr r.image ↔
      ∀ s ∈ segments (headers f offset l), s.EndsBelow f offset stackPtr := by
  obtain ⟨hsp, -, himage⟩ := elfLoadFd_of_valid hread hvalid hr
  rw [Confined, himage]
  dsimp only
  rw [hm, List.nil_append, blocks, List.forall_mem_cons, List.forall_mem_map]
  have hcleared : ∀ a ∈ cells (cleared stackPtr), a.toNat ∈ userMem stackPtr :=
    fun a ha => (mem_cells_cleared hsp.1 a).mp ha
  constructor
  · rintro ⟨-, h⟩ s hs
    exact (block_confined_iff (not_low_of_mem_segments hs)).mp (h s hs)
  · intro h
    refine ⟨hcleared, fun s hs => ?_⟩
    exact (block_confined_iff (not_low_of_mem_segments hs)).mpr (h s hs)

theorem shiftedProgram_confined :
    ∃ r, elfLoadFd shiftedProgram 3#32 0x21BE0#32 zeroLocals blankImage = some r ∧
      Confined 0x21BE0#32 r.image := by
  have hr := @elfLoadFd_eq shiftedProgram 3#32 0x21BE0#32 zeroLocals blankImage
    (by decide +kernel) (by decide +kernel) _ rfl _ rfl
  rw [if_neg (by decide)] at hr
  exact ⟨_, hr, (confined_iff (by decide +kernel) (by decide +kernel) hr rfl).mpr
    (by decide +kernel)⟩

/-- A program with a segment of three bytes, the last two of them above the stack pointer of its
arguments. -/
def tallProgram : File where
  bytes := elfBytes 0x10000#32 [⟨1#32, 84#32, 0x21BDF#32, 3#32, 3#32⟩] [1#8, 2#8, 3#8]
  size_lt := by decide +kernel

/-- **A segment is read over the arguments on the stack**: the word at the stack pointer is
`argc`. -/
theorem tallProgram_overruns :
    (elfReadEhdr tallProgram 0#32 zeroLocals.header).1 = 0#32 ∧
      elfValidatePhdr tallProgram 0#32 (elfReadEhdr tallProgram 0#32 zeroLocals.header).2
        zeroLocals.validated = 0#32 ∧
      ∃ r, elfLoadFd tallProgram 0#32 0x21BE0#32 zeroLocals blankImage = some r ∧
        r.start = 0x10000#32 ∧ r.image.mem 0x21BE0#32 = 2#8 ∧ ¬Confined 0x21BE0#32 r.image := by
  have hr := @elfLoadFd_eq tallProgram 0#32 0x21BE0#32 zeroLocals blankImage
    (by decide +kernel) (by decide +kernel) _ rfl _ rfl
  have hblocks : blocks tallProgram 0#32 0x21BE0#32 (headers tallProgram 0#32 zeroLocals) =
      [cleared 0x21BE0#32, (0x21BDF#32, [1#8, 2#8, 3#8])] :=
    congrArg (cleared 0x21BE0#32 :: ·) (by decide +kernel)
  rw [if_neg (by decide), ← headers, hblocks] at hr
  refine ⟨by decide +kernel, by decide +kernel, _, hr, by decide +kernel, ?_, ?_⟩
  · have hlen : [1#8, 2#8, 3#8].length ≤ 2 ^ 32 := by decide
    exact holds_writeAll (clear blankImage.mem 0x21BE0#32) 0x21BDF#32 hlen 1 (by decide)
  · intro h
    have hcell := h _ (List.mem_cons_of_mem _ List.mem_cons_self) 0x21BE0#32
      (mem_cells.mpr (by decide))
    exact absurd hcell (by decide)

/-! ### The program break -/

/-- The address behind a segment. -/
def Elf32Phdr.memEnd (s : Elf32Phdr) : ℕ := s.pPaddr.toNat + s.pMemsz.toNat

/-- `SYS_brk(0)` once a segment has been loaded. -/
theorem sysBrk_zero (e gp sp : Addr) :
    (sysBrk (setMinBrk e) gp sp 0#32).2.toNat = max e.toNat (gp + 0x800#32).toNat := by
  have hbrk : (sysBrk (setMinBrk e) gp sp 0#32).2 =
      if e < gp + 0x800#32 then gp + 0x800#32 else e := by
    unfold sysBrk setMinBrk
    dsimp only
    by_cases hgp : e < gp + 0x800#32
    · -- the break is moved up to the global pointer
      have hpos : 0#32 < gp + 0x800#32 := by bv_omega
      rw [if_pos hgp, if_pos hgp, if_pos (Or.inr hpos)]
    · rw [if_neg hgp, if_neg (BitVec.lt_irrefl e)]
      by_cases hpos : 0#32 < e
      · rw [if_pos (Or.inr hpos)]
      · have hzero : e = 0#32 := by bv_omega
        rw [hzero, ite_self]
  rw [hbrk]
  split_ifs with hgp
  · exact (max_eq_right (BitVec.lt_def.mp hgp).le).symm
  · exact (max_eq_left (BitVec.le_def.mp (BitVec.not_lt.mp hgp))).symm

/-- A file that is loaded has passed both checks. -/
theorem elfLoadFd_of_start (hr : elfLoadFd f offset stackPtr l m = some r)
    (hstart : r.start ≠ 0#32) :
    (elfReadEhdr f offset l.header).1 = 0#32 ∧
      elfValidatePhdr f offset (elfReadEhdr f offset l.header).2 l.validated = 0#32 := by
  unfold elfLoadFd at hr
  generalize elfReadEhdr f offset l.header = p at hr ⊢
  obtain ⟨status, h⟩ := p
  dsimp only at hr ⊢
  by_cases hread : status = 0#32
  · rw [if_neg (not_not_intro hread)] at hr
    refine ⟨hread, ?_⟩
    by_contra hvalid
    rw [if_neg hvalid] at hr
    obtain rfl := Option.some.inj hr
    exact hstart rfl
  · rw [if_pos hread] at hr
    obtain rfl := Option.some.inj hr
    exact absurd rfl hstart

/-- **The program break is above all segments** if and only if none of them ends above both the
last one and the room for the global pointer. -/
theorem brk_above_iff (hr : elfLoadFd f offset stackPtr l m = some r) (hstart : r.start ≠ 0#32)
    (gp sp : Addr) :
    (∀ s ∈ (headers f offset l).filter Elf32Phdr.isLoad,
        s.memEnd ≤ (sysBrk r.image.brk gp sp 0#32).2.toNat) ↔
      ∀ s ∈ (headers f offset l).filter Elf32Phdr.isLoad,
        ∀ t ∈ ((headers f offset l).filter Elf32Phdr.isLoad).getLast?,
          s.memEnd ≤ max (t.pPaddr + t.pMemsz).toNat (gp + 0x800#32).toNat := by
  obtain ⟨hread, hvalid⟩ := elfLoadFd_of_start hr hstart
  obtain ⟨-, hentry, himage⟩ := elfLoadFd_of_valid hread hvalid hr
  have hlow : (headers f offset l).any Elf32Phdr.isLow = false := by
    by_contra hany
    rw [Bool.not_eq_false] at hany
    rw [if_pos hany] at hentry
    exact hstart hentry
  have hbrk : r.image.brk = brkAfter m.brk (segments (headers f offset l)) := by rw [himage]
  rw [hbrk, segments_of_any hlow]
  generalize (headers f offset l).filter Elf32Phdr.isLoad = hs
  cases hlast : hs.getLast? with
  | none =>
    rw [List.getLast?_eq_none_iff] at hlast
    rw [hlast]
    exact ⟨fun _ s hs => absurd hs List.not_mem_nil, fun _ s hs => absurd hs List.not_mem_nil⟩
  | some t =>
    have hafter : brkAfter m.brk hs = setMinBrk (t.pPaddr + t.pMemsz) := by
      rw [brkAfter, hlast]
      rfl
    rw [hafter, sysBrk_zero]
    constructor
    · intro h s hs t' ht'
      obtain rfl := Option.mem_some_iff.mp ht'
      exact h s hs
    · intro h s hs
      exact h s hs t rfl

/-- The data segment of `shiftedProgram`, which is the last one, is below its text: the break is
in the text unless the global pointer keeps it out. -/
theorem shiftedProgram_brk :
    ∃ r, elfLoadFd shiftedProgram 3#32 0x21BE0#32 zeroLocals blankImage = some r ∧
      r.start ≠ 0#32 ∧
      (∀ s ∈ (headers shiftedProgram 3#32 zeroLocals).filter Elf32Phdr.isLoad,
        s.memEnd ≤ (sysBrk r.image.brk 0x10100#32 0x21BE0#32 0#32).2.toNat) := by
  have hr := @elfLoadFd_eq shiftedProgram 3#32 0x21BE0#32 zeroLocals blankImage
    (by decide +kernel) (by decide +kernel) _ rfl _ rfl
  rw [if_neg (by decide)] at hr
  refine ⟨_, hr, by decide +kernel, ?_⟩
  exact (brk_above_iff hr (by decide +kernel) 0x10100#32 0x21BE0#32).mpr (by decide +kernel)

theorem shiftedProgram_brk_low :
    ∃ r, elfLoadFd shiftedProgram 3#32 0x21BE0#32 zeroLocals blankImage = some r ∧
      r.start ≠ 0#32 ∧ (sysBrk r.image.brk 0#32 0x21BE0#32 0#32).2 = 0x10003#32 ∧
      ∃ s ∈ (headers shiftedProgram 3#32 zeroLocals).filter Elf32Phdr.isLoad,
        ¬s.memEnd ≤ (sysBrk r.image.brk 0#32 0x21BE0#32 0#32).2.toNat := by
  have hr := @elfLoadFd_eq shiftedProgram 3#32 0x21BE0#32 zeroLocals blankImage
    (by decide +kernel) (by decide +kernel) _ rfl _ rfl
  rw [if_neg (by decide)] at hr
  exact ⟨_, hr, by decide +kernel, by decide +kernel, by decide +kernel⟩

end Filestick.Elf
