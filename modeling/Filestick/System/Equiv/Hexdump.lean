import Filestick.System.Equiv.Hextoint

/-!
# What `hexdump` reads, and whether it ends

* `read_mem_hexline`, `printchars_ends`, `printchars_eq_none`: a line reads its bytes, and does not
  end if there are more than 255.
* `lineBody_ends`, `lineBody_some`: one turn of the loop.
* `bounded_of_pos`, `bounded_of_empty`: the dumps that end and read nothing else.
* `hexdump_bounded_iff`: there are no others.
* `superHexdump_eq`, `superHexdump_never_ends`: the command, which takes its length from the user.
-/

namespace Filestick.Hexdump

open Elf (Addr Mem IsString)
open Loop

variable {mem : Mem} {a buf : Addr} {turns n i size : ℕ}

/-! ### A line -/

theorem read_not_mem_gap (a : Addr) (i : ℕ) : .read a ∉ gap i := by
  unfold gap
  split_ifs <;> simp

theorem read_mem_hexBytes :
    .read a ∈ hexBytes mem n i buf ↔ ∃ j, j < n ∧ a = buf + BitVec.ofNat 32 j := by
  induction n generalizing i buf with
  | zero => simp [hexBytes]
  | succ n ih =>
    have hgap := read_not_mem_gap a i
    simp only [hexBytes, List.cons_append, List.mem_cons, List.mem_append, Event.read.injEq,
      reduceCtorEq, false_or, hgap, ih]
    constructor
    · rintro (rfl | ⟨j, hj, rfl⟩)
      · exact ⟨0, by omega, by simp⟩
      · exact ⟨j + 1, by omega, by bv_omega⟩
    · rintro ⟨j, hj, rfl⟩
      cases j with
      | zero => exact Or.inl (by simp)
      | succ j => exact Or.inr ⟨j, by omega, by bv_omega⟩

theorem read_not_mem_hexBlanks : .read a ∉ hexBlanks n i := by
  induction n generalizing i with
  | zero => simp [hexBlanks]
  | succ n ih => simp [hexBlanks, read_not_mem_gap a i, ih]

theorem read_mem_hexline :
    .read a ∈ hexline mem buf size ↔ ∃ j, j < size ∧ a = buf + BitVec.ofNat 32 j := by
  unfold hexline
  split_ifs
  · rw [List.mem_append, or_iff_left read_not_mem_hexBlanks, read_mem_hexBytes]
  · rw [List.append_nil, read_mem_hexBytes]

/-- What is printed says that the bytes up to `n` have been read, and no others. -/
def Reads (out : List Event) (buf : Addr) (n : ℕ) : Prop :=
  ∀ a, .read a ∈ out ↔ ∃ j, j < n ∧ a = buf + BitVec.ofNat 32 j

theorem reads_succ {out : List Event} (h : Reads out buf n) (c : BitVec 8) :
    Reads (out ++ [.read (buf + BitVec.ofNat 32 n), .putc c]) buf (n + 1) := by
  intro a
  rw [List.mem_append, h]
  simp only [List.mem_cons, Event.read.injEq, reduceCtorEq, List.not_mem_nil, or_false]
  constructor
  · rintro (⟨j, hj, rfl⟩ | rfl)
    · exact ⟨j, by omega, rfl⟩
    · exact ⟨n, Nat.lt_succ_self n, rfl⟩
  · rintro ⟨j, hj, rfl⟩
    rcases Nat.lt_succ_iff_lt_or_eq.mp hj with hlt | rfl
    · exact Or.inl ⟨j, hlt, rfl⟩
    · exact Or.inr rfl

/-- The loop of `printchars` has read the bytes up to its counter. -/
structure CharsRead (buf : Addr) (size : ℕ) (s : Chars) : Prop where
  le : s.i.toNat ≤ size
  buf_eq : s.buf = buf + BitVec.ofNat 32 s.i.toNat
  reads : Reads s.out buf s.i.toNat

theorem charBody_spec (mem : Mem) (hsize : size < 256) {s : Chars} (h : CharsRead buf size s) :
    (∃ s', charBody mem size s = some (.inl s') ∧ CharsRead buf size s' ∧
      size - s'.i.toNat < size - s.i.toNat) ∨
    ∃ out, charBody mem size s = some (.inr out) ∧ Reads out buf size := by
  by_cases hlt : s.i.toNat < size
  · have hi : (s.i + 1#8).toNat = s.i.toNat + 1 := by bv_omega
    rw [charBody, if_pos hlt]
    refine Or.inl ⟨_, rfl, ⟨?_, ?_, ?_⟩, ?_⟩
    · rw [hi]
      exact hlt
    · rw [hi, h.buf_eq]
      bv_omega
    · rw [hi, h.buf_eq]
      exact reads_succ h.reads _
    · rw [hi]
      omega
  · have hlast : s.i.toNat = size := Nat.le_antisymm h.le (Nat.not_lt.mp hlt)
    rw [charBody, if_neg hlt]
    exact Or.inr ⟨_, rfl, hlast ▸ h.reads⟩

/-- **A line of up to 255 bytes ends**, and reads them. -/
theorem printchars_ends (mem : Mem) (buf : Addr) (hsize : size < 256) (hturns : size < turns) :
    ∃ out, printchars mem turns buf size = some out ∧ Reads out buf size := by
  have hstart : CharsRead buf size ⟨0#8, buf, [.putc 0x7C#8]⟩ :=
    ⟨Nat.zero_le _, by simp, fun a => by simp⟩
  obtain ⟨out, hout, hreads⟩ := loop_of_variant (fun s : Chars => size - s.i.toNat)
    (fun s hs => charBody_spec mem hsize hs) hstart
    (Nat.lt_of_le_of_lt (Nat.sub_le _ _) hturns)
  refine ⟨out ++ [.newline], ?_, fun a => ?_⟩
  · rw [printchars, hout]
    rfl
  · rw [← hreads]
    simp

/-- **A longer line does not end**: the counter has 8 bits. -/
theorem printchars_eq_none (hsize : 256 ≤ size) (turns : ℕ) :
    printchars mem turns buf size = none := by
  have hturn (s : Chars) (_ : True) : charBody mem size s = none ∨
      ∃ s', charBody mem size s = some (.inl s') ∧ True := by
    rw [charBody, if_pos (Nat.lt_of_lt_of_le s.i.isLt hsize)]
    exact Or.inr ⟨_, rfl, trivial⟩
  rw [printchars, loop_eq_none hturn trivial turns]
  rfl

theorem printchars_some {out : List Event} (h : printchars mem turns buf size = some out) :
    size < 256 ∧ Reads out buf size := by
  have hsize : size < 256 := by
    by_contra hge
    rw [printchars_eq_none (Nat.not_lt.mp hge)] at h
    exact nomatch h
  obtain ⟨out', hout', hreads⟩ := printchars_ends mem buf hsize (Nat.lt_succ_self _)
  obtain ⟨l, hl, rfl⟩ := Option.map_eq_some_iff.mp h
  obtain ⟨l', hl', rfl⟩ := Option.map_eq_some_iff.mp hout'
  obtain rfl := loop_unique hl hl'
  exact ⟨hsize, hreads⟩

/-! ### A turn of the loop -/

/-- What a turn makes of a line. -/
def nextDump (s : Dump) (line : List Event) : Dump ⊕ List Event :=
  if (0#32).slt (s.size - 16#32)
  then .inl ⟨s.buf + 16#32, s.size - 16#32, s.addr + 16#32, s.out ++ line⟩
  else .inr (s.out ++ line)

variable {s : Dump}

theorem nextDump_eq_inl {line : List Event} {s' : Dump} : nextDump s line = .inl s' ↔
    (0#32).slt (s.size - 16#32) = true ∧
      ⟨s.buf + 16#32, s.size - 16#32, s.addr + 16#32, s.out ++ line⟩ = s' := by
  unfold nextDump
  split_ifs with h
  · rw [Sum.inl.injEq, and_iff_right h]
  · exact iff_of_false (nomatch ·) fun hs' => h hs'.1

theorem nextDump_eq_inr {line out : List Event} : nextDump s line = .inr out ↔
    (0#32).slt (s.size - 16#32) = false ∧ s.out ++ line = out := by
  unfold nextDump
  split_ifs with h
  · exact iff_of_false (nomatch ·) fun hout => Bool.false_ne_true (hout.1.symm.trans h)
  · rw [Sum.inr.injEq, and_iff_right (Bool.eq_false_of_not_eq_true h)]

theorem lineBody_eq_some {r : Dump ⊕ List Event} : lineBody mem turns s = some r ↔
    ∃ chars, printchars mem turns s.buf (linelen s.size).toNat = some chars ∧
      r = nextDump s (.addr s.addr :: hexline mem s.buf (linelen s.size).toNat ++ chars) := by
  rw [lineBody, Option.bind_eq_bind, Option.bind_eq_some_iff]
  refine exists_congr fun chars => and_congr_right fun _ => ?_
  exact Option.some_inj.trans eq_comm

theorem reads_line {chars : List Event} (h : Reads chars buf size) (x : BitVec 32) :
    Reads (.addr x :: hexline mem buf size ++ chars) buf size := by
  intro a
  rw [List.cons_append, List.mem_cons, List.mem_append, h, read_mem_hexline]
  simp

/-- **A turn that ends** has read a line. -/
theorem lineBody_some {r : Dump ⊕ List Event} (h : lineBody mem turns s = some r) :
    (linelen s.size).toNat < 256 ∧
      ∃ line, Reads line s.buf (linelen s.size).toNat ∧ r = nextDump s line := by
  obtain ⟨chars, hchars, rfl⟩ := lineBody_eq_some.mp h
  obtain ⟨hlen, hreads⟩ := printchars_some hchars
  exact ⟨hlen, _, reads_line hreads _, rfl⟩

theorem lineBody_ends (mem : Mem) {s : Dump} (hlen : (linelen s.size).toNat < 256)
    (hturns : (linelen s.size).toNat < turns) :
    ∃ line, Reads line s.buf (linelen s.size).toNat ∧
      lineBody mem turns s = some (nextDump s line) := by
  obtain ⟨chars, hchars, hreads⟩ := printchars_ends mem s.buf hlen hturns
  exact ⟨_, reads_line hreads _, lineBody_eq_some.mpr ⟨chars, hchars, rfl⟩⟩

/-! ### Runs -/

variable {out : List Event}

/-- What has been printed stays. -/
theorem loop_keeps {e : Event} (h : loop (lineBody mem turns) n s = some out) (he : e ∈ s.out) :
    e ∈ out := by
  refine loop_partial (I := fun s => e ∈ s.out) (Q := fun out => e ∈ out) ?_ ?_ he h
  · intro s s' he hnext
    obtain ⟨-, line, -, hr⟩ := lineBody_some hnext
    obtain ⟨-, rfl⟩ := nextDump_eq_inl.mp hr.symm
    exact List.mem_append_left line he
  · intro s out he hlast
    obtain ⟨-, line, -, hr⟩ := lineBody_some hlast
    obtain ⟨-, rfl⟩ := nextDump_eq_inr.mp hr.symm
    exact List.mem_append_left line he

/-- The next line is read, whatever comes after it. -/
theorem loop_reads (h : loop (lineBody mem turns) n s = some out) {j : ℕ}
    (hj : j < (linelen s.size).toNat) : .read (s.buf + BitVec.ofNat 32 j) ∈ out := by
  obtain ⟨m, rfl, ⟨s', hnext, hs'⟩ | hlast⟩ := loop_cases h
  · obtain ⟨-, line, hreads, hr⟩ := lineBody_some hnext
    obtain ⟨-, rfl⟩ := nextDump_eq_inl.mp hr.symm
    exact loop_keeps hs' (List.mem_append_right s.out ((hreads _).mpr ⟨j, hj, rfl⟩))
  · obtain ⟨-, line, hreads, hr⟩ := lineBody_some hlast
    obtain ⟨-, rfl⟩ := nextDump_eq_inr.mp hr.symm
    exact List.mem_append_right s.out ((hreads _).mpr ⟨j, hj, rfl⟩)

theorem toInt_sub_of_pos {x : BitVec 32} (h : 0 < x.toInt) :
    (x - 16#32).toInt = x.toInt - 16 := by
  have hlt := BitVec.toInt_lt (x := x)
  rw [BitVec.toInt_sub]
  show (x.toInt - 16).bmod (2 ^ 32) = x.toInt - 16
  exact Int.bmod_eq_of_le (by omega) (by omega)

theorem linelen_of_pos {size : BitVec 32} (h : 0 < size.toInt) :
    ((linelen size).toNat : ℤ) = min 16 size.toInt := by
  unfold linelen
  split_ifs with hle
  · exact (min_eq_left (BitVec.sle_iff_toInt_le.mp hle)).symm
  · have hlt : size.toInt < 16 := not_le.mp fun hge => hle (BitVec.sle_iff_toInt_le.mpr hge)
    have hnat := BitVec.toInt_eq_toNat_of_lt (BitVec.toInt_pos_iff.mp h.le)
    rw [min_eq_right hlt.le, hnat, BitVec.toNat_setWidth, Nat.mod_eq_of_lt]
    omega

theorem linelen_of_nonpos {size : BitVec 32} (h : size.toInt ≤ 0) :
    linelen size = size.setWidth 16 := by
  unfold linelen
  rw [if_neg]
  rw [BitVec.sle_iff_toInt_le, not_le]
  exact h.trans_lt (by decide)

/-- A byte of what is to be dumped. -/
def InDump (ptr : Addr) (size : BitVec 32) (a : Addr) : Prop :=
  ∃ k : ℕ, (k : ℤ) < size.toInt ∧ a = ptr + BitVec.ofNat 32 k

/-- A dump ends, and reads nothing else. -/
def Bounded (mem : Mem) (ptr : Addr) (size addr : BitVec 32) : Prop :=
  ∃ turns out, hexdump mem turns ptr size addr = some out ∧ ∀ a, .read a ∈ out → InDump ptr size a

/-- The loop of `hexdump` after `t` turns. -/
structure Dumped (ptr : Addr) (size : BitVec 32) (t : ℕ) (s : Dump) : Prop where
  buf_eq : s.buf = ptr + BitVec.ofNat 32 (16 * t)
  size_eq : s.size.toInt = size.toInt - 16 * t
  pos : 0 < s.size.toInt
  reads : ∀ a, .read a ∈ s.out → InDump ptr size a

theorem lineBody_spec (mem : Mem) {ptr : Addr} {size : BitVec 32} {t : ℕ} (h : Dumped ptr size t s)
    (hturns : 16 < turns) :
    (∃ s', lineBody mem turns s = some (.inl s') ∧ Dumped ptr size (t + 1) s' ∧
        s'.size.toInt.toNat < s.size.toInt.toNat) ∨
      ∃ out, lineBody mem turns s = some (.inr out) ∧ ∀ a, .read a ∈ out → InDump ptr size a := by
  have hlen := linelen_of_pos h.pos
  obtain ⟨line, hline, hbody⟩ := lineBody_ends mem (s := s) (show _ < 256 by omega)
    (show _ < turns by omega)
  have hreads (a : Addr) (ha : .read a ∈ s.out ++ line) : InDump ptr size a := by
    rcases List.mem_append.mp ha with ha | ha
    · exact h.reads a ha
    · obtain ⟨j, hj, rfl⟩ := (hline a).mp ha
      refine ⟨16 * t + j, ?_, ?_⟩
      · have hsize := h.size_eq
        omega
      · rw [h.buf_eq, BitVec.ofNat_add, BitVec.add_assoc]
  have hsize := toInt_sub_of_pos h.pos
  rw [hbody]
  by_cases hslt : (0#32).slt (s.size - 16#32) = true
  · refine Or.inl ⟨_, congrArg some (nextDump_eq_inl.mpr ⟨hslt, rfl⟩), ⟨?_, ?_, ?_, hreads⟩, ?_⟩
    · rw [h.buf_eq, BitVec.add_assoc, ← BitVec.ofNat_add]
      rfl
    · rw [hsize, h.size_eq]
      push_cast
      omega
    · exact BitVec.slt_iff_toInt_lt.mp hslt
    · have hpos := h.pos
      rw [hsize]
      omega
  · exact Or.inr ⟨_, congrArg some (nextDump_eq_inr.mpr ⟨Bool.eq_false_of_not_eq_true hslt, rfl⟩),
      hreads⟩

/-- **A dump of something** ends, and reads nothing else. -/
theorem bounded_of_pos {ptr : Addr} {size : BitVec 32} (h : 0 < size.toInt) (addr : BitVec 32) :
    Bounded mem ptr size addr := by
  have hstart : Dumped ptr size 0 ⟨ptr, size, addr, []⟩ := by
    refine ⟨by simp, by simp, h, ?_⟩
    intro a ha
    exact absurd ha List.not_mem_nil
  have hturn (s : Dump) (hs : ∃ t, Dumped ptr size t s) :
      (∃ s', lineBody mem (size.toInt.toNat + 17) s = some (.inl s') ∧ (∃ t, Dumped ptr size t s') ∧
        s'.size.toInt.toNat < s.size.toInt.toNat) ∨
      ∃ out, lineBody mem (size.toInt.toNat + 17) s = some (.inr out) ∧
        ∀ a, .read a ∈ out → InDump ptr size a := by
    obtain ⟨t, ht⟩ := hs
    have hturns : 16 < size.toInt.toNat + 17 := by omega
    rcases lineBody_spec mem ht hturns with ⟨s', hnext, hs', hlt⟩ | hlast
    · exact Or.inl ⟨s', hnext, ⟨t + 1, hs'⟩, hlt⟩
    · exact Or.inr hlast
  obtain ⟨out, hout, hreads⟩ := loop_of_variant (fun s : Dump => s.size.toInt.toNat) hturn
    ⟨0, hstart⟩ (show size.toInt.toNat < size.toInt.toNat + 17 by omega)
  exact ⟨_, out, hout, hreads⟩

/-- The first line is read, whatever the size is. -/
theorem hexdump_reads {ptr : Addr} {size addr : BitVec 32}
    (h : hexdump mem turns ptr size addr = some out) {j : ℕ} (hj : j < (linelen size).toNat) :
    .read (ptr + BitVec.ofNat 32 j) ∈ out :=
  loop_reads h hj

/-- The size that wraps around below 0: the dump goes on with its second line. -/
theorem hexdump_reads_intMin {ptr : Addr} {addr : BitVec 32}
    (h : hexdump mem turns ptr 0x80000000#32 addr = some out) : .read (ptr + 16#32) ∈ out := by
  have hpos : (0#32).slt (0x80000000#32 - 16#32) = true := by decide
  have hlen : 0 < (linelen (0x80000000#32 - 16#32)).toNat := by decide
  obtain ⟨m, rfl, ⟨s', hnext, hs'⟩ | hlast⟩ := loop_cases h
  · obtain ⟨-, line, -, hr⟩ := lineBody_some hnext
    obtain ⟨-, rfl⟩ := nextDump_eq_inl.mp hr.symm
    have hread := loop_reads hs' hlen
    rwa [BitVec.add_zero] at hread
  · obtain ⟨-, line, -, hr⟩ := lineBody_some hlast
    obtain ⟨hslt, -⟩ := nextDump_eq_inr.mp hr.symm
    exact absurd (hpos.symm.trans hslt) (by decide)

theorem not_inDump {ptr : Addr} {size : BitVec 32} (h : size.toInt ≤ 0) (a : Addr) :
    ¬InDump ptr size a := by
  rintro ⟨k, hk, -⟩
  omega

theorem slt_of_empty {size : BitVec 32} (h : size.toInt ≤ 0) (hlow : size.setWidth 16 = 0#16)
    (hmin : size ≠ 0x80000000#32) : (0#32).slt (size - 16#32) = false := by
  have hlow' : size.toNat % 2 ^ 16 = 0 := by
    rw [← BitVec.toNat_setWidth, hlow]
    rfl
  have hmin' : size.toNat ≠ 2 ^ 31 := fun hnat => hmin (BitVec.eq_of_toNat_eq hnat)
  have hlt := size.isLt
  refine Bool.eq_false_of_not_eq_true fun hslt => ?_
  rw [BitVec.slt_iff_toInt_lt, BitVec.toInt_zero, BitVec.toInt_eq_toNat_cond, BitVec.toNat_sub,
    BitVec.toNat_ofNat] at hslt
  rw [BitVec.toInt_eq_toNat_cond] at h
  split_ifs at h hslt <;> omega

theorem bounded_of_empty {ptr : Addr} {size : BitVec 32} (h : size.toInt ≤ 0)
    (hlow : size.setWidth 16 = 0#16) (hmin : size ≠ 0x80000000#32) (addr : BitVec 32) :
    Bounded mem ptr size addr := by
  have hlen : (linelen size).toNat = 0 := by
    rw [linelen_of_nonpos h, hlow]
    rfl
  obtain ⟨line, hline, hbody⟩ := lineBody_ends mem (s := ⟨ptr, size, addr, []⟩)
    (show (linelen size).toNat < 256 by omega) (show (linelen size).toNat < 1 by omega)
  have hlast : lineBody mem 1 ⟨ptr, size, addr, []⟩ = some (.inr line) :=
    hbody.trans (congrArg some (nextDump_eq_inr.mpr ⟨slt_of_empty h hlow hmin, rfl⟩))
  refine ⟨1, line, ?_, fun a ha => ?_⟩
  · rw [hexdump, loop_end hlast]
  · obtain ⟨j, hj, -⟩ := (hline a).mp ha
    rw [hlen] at hj
    exact absurd hj (Nat.not_lt_zero j)

/-- **The sizes that a dump can take**: the positive ones, and of the others the ones whose low half
is 0, but for the least one. -/
theorem hexdump_bounded_iff (mem : Mem) (ptr : Addr) (size addr : BitVec 32) :
    Bounded mem ptr size addr ↔
      0 < size.toInt ∨ size.setWidth 16 = 0#16 ∧ size ≠ 0x80000000#32 := by
  rcases lt_or_ge 0 size.toInt with hpos | hneg
  · exact iff_of_true (bounded_of_pos hpos addr) (Or.inl hpos)
  rw [or_iff_right (not_lt.mpr hneg)]
  constructor
  · rintro ⟨turns, out, hout, hreads⟩
    constructor
    · rw [← linelen_of_nonpos hneg]
      by_contra hne
      have hlen : 0 < (linelen size).toNat :=
        Nat.pos_of_ne_zero fun hzero => hne (BitVec.eq_of_toNat_eq hzero)
      exact not_inDump hneg _ (hreads _ (hexdump_reads hout hlen))
    · rintro rfl
      exact not_inDump hneg _ (hreads _ (hexdump_reads_intMin hout))
  · rintro ⟨hlow, hmin⟩
    exact bounded_of_empty hneg hlow hmin addr

/-- A first line of more than 255 bytes does not end. -/
theorem hexdump_eq_none {size : BitVec 32} (h : 256 ≤ (linelen size).toNat) (mem : Mem)
    (turns : ℕ) (ptr : Addr) (addr : BitVec 32) : hexdump mem turns ptr size addr = none := by
  rw [Option.eq_none_iff_forall_ne_some]
  intro out hout
  obtain ⟨m, rfl, ⟨s', hnext, -⟩ | hlast⟩ := loop_cases hout
  · exact absurd (lineBody_some hnext).1 (Nat.not_lt.mpr h)
  · exact absurd (lineBody_some hlast).1 (Nat.not_lt.mpr h)

/-- The size -1 is a line of 65535 bytes. -/
theorem negative_size_not_bounded :
    (∀ turns, hexdump (fun _ => 0#8) turns 0#32 0xFFFFFFFF#32 0#32 = none) ∧
      ¬Bounded (fun _ => 0#8) 0#32 0xFFFFFFFF#32 0#32 := by
  have hnone (turns : ℕ) : hexdump (fun _ => 0#8) turns 0#32 0xFFFFFFFF#32 0#32 = none :=
    hexdump_eq_none (by decide) _ turns _ _
  refine ⟨hnone, ?_⟩
  rintro ⟨turns, out, hout, -⟩
  exact nomatch (hnone turns).symm.trans hout

/-! ### The command of the supervisor -/

variable {xs ys : List (BitVec 8)}

/-- Up to eight digits are converted. -/
theorem hextoint_digits {s : Addr} (h : IsString mem s xs) (hlen : xs.length ≤ 8)
    (hxs : ∀ c ∈ xs, IsHexDigit c) :
    ∃ p, hextoint mem s = some p ∧ p.ok = true ∧ p.val.toNat = value xs := by
  have hall : xs.length - 8 = 0 := by omega
  obtain ⟨p, hp, hok, hval⟩ := (converts_iff h).mpr (Or.inl ⟨by omega, fun _ => by simp [hall]⟩)
  have hok' : p.ok = true := hok.mpr ⟨hxs, (value_lt_iff hxs).mpr (by simp [hall])⟩
  exact ⟨p, hp, hok', hval hok'⟩

theorem superHexdump_eq {cmd address length : Addr} (hx : IsString mem address xs)
    (hy : IsString mem length ys) (hxlen : xs.length ≤ 8) (hylen : ys.length ≤ 8)
    (hxs : ∀ c ∈ xs, IsHexDigit c) (hys : ∀ c ∈ ys, IsHexDigit c) (turns : ℕ) :
    superHexdump mem turns [cmd, address, length] =
      (hexdump mem turns (BitVec.ofNat 32 (value xs)) (BitVec.ofNat 32 (value ys))
        (BitVec.ofNat 32 (value xs))).map .ok := by
  obtain ⟨p, hp, hpok, hpval⟩ := hextoint_digits hx hxlen hxs
  obtain ⟨q, hq, hqok, hqval⟩ := hextoint_digits hy hylen hys
  rw [← hpval, ← hqval, BitVec.ofNat_toNat, BitVec.ofNat_toNat, BitVec.setWidth_eq,
    BitVec.setWidth_eq, superHexdump]
  simp only [hp, hq, hpok, hqok, Option.bind_eq_bind, Option.bind_some, Bool.not_true,
    Bool.false_eq_true, if_false]
  cases hexdump mem turns p.val q.val p.val <;> rfl

/-- **The command never ends** for half of the lengths, but for the lengths of which the low half is
below 256. -/
theorem superHexdump_never_ends {cmd address length : Addr} (hx : IsString mem address xs)
    (hy : IsString mem length ys) (hxlen : xs.length ≤ 8) (hylen : ys.length ≤ 8)
    (hxs : ∀ c ∈ xs, IsHexDigit c) (hys : ∀ c ∈ ys, IsHexDigit c) (hlarge : 2 ^ 31 ≤ value ys)
    (hlow : 256 ≤ value ys % 2 ^ 16) (turns : ℕ) :
    superHexdump mem turns [cmd, address, length] = none := by
  have hlt : value ys < 16 ^ ys.length := value_lt hys
  have hpow : 16 ^ ys.length ≤ 16 ^ 8 := Nat.pow_le_pow_right (by omega) hylen
  have hneg : (BitVec.ofNat 32 (value ys)).toInt ≤ 0 := by
    rw [BitVec.toInt_eq_toNat_cond, BitVec.toNat_ofNat]
    split_ifs <;> omega
  have hlen : 256 ≤ (linelen (BitVec.ofNat 32 (value ys))).toNat := by
    rw [linelen_of_nonpos hneg, BitVec.toNat_setWidth, BitVec.toNat_ofNat]
    omega
  rw [superHexdump_eq hx hy hxlen hylen hxs hys, hexdump_eq_none hlen]
  rfl

end Filestick.Hexdump
