import Filestick.Lib.Overlay
import Filestick.Lib.Simulation
import Filestick.System.SpiFlashdev
import Mathlib.Data.Nat.Bitwise

/-!
# The SPI flash device is a byte array

`FlashFile` says what the device is for: an array of bytes with open descriptors at positions of
their own, where a read sees for each address the byte that was written there last, through any
descriptor.

* `writeToSector_spec`, `writeLoop_spec`: the buffered write, sector by sector.
* `call_refines`: each call of the driver returns what the array returns.
* `spiflash_refines`: so does every sequence of calls, and after `sync` and `close` the chip itself
  holds the contents of the array.
-/

namespace Filestick.SpiFlashdev

open Overlay

/-! ### The byte array -/

/-- A byte array and the positions of its open descriptors.  The writes are kept, the last one
first. -/
structure FlashFile where
  initial : ℕ → BitVec 8
  writes : List (ℕ × List (BitVec 8))
  files : ℕ → Option ℕ
  opened : ℕ

/-- The byte that was written last at an address, else the initial one. -/
def lastWritten (initial : ℕ → BitVec 8) : List (ℕ × List (BitVec 8)) → ℕ → BitVec 8
  | [], x => initial x
  | (a, l) :: ws, x =>
    if a ≤ x ∧ x < a + l.length then l.getD (x - a) 0 else lastWritten initial ws x

/-- The contents of the array. -/
def FlashFile.mem (f : FlashFile) : ℕ → BitVec 8 := lastWritten f.initial f.writes

/-- The calls of the device. -/
inductive Call where
  | open (fd : ℕ)
  | lseek (fd : ℕ) (offset : ℤ) (whence : Whence)
  | read (fd count : ℕ)
  | write (fd : ℕ) (buf : List (BitVec 8))
  | sync
  | close (fd : ℕ)

/-- What a call returns. -/
inductive Result where
  | done
  | number (n : ℕ)
  | bytes (l : List (BitVec 8))
  | error (e : Errno)
deriving DecidableEq

namespace FlashFile

/-- The array before any call. -/
def init (flash : ℕ → BitVec 8) : FlashFile := ⟨flash, [], fun _ => none, 0⟩

/-- The position of a descriptor is changed. -/
def seek (f : FlashFile) (fd p : ℕ) : FlashFile :=
  { f with files := fun fd' => if fd' = fd then some p else f.files fd' }

/-- The calls on the byte array. -/
def spec (f : FlashFile) : Call → FlashFile × Result
  | .open fd =>
    if f.opened < 4 then ({ f.seek fd 0 with opened := f.opened + 1 }, .done)
    else (f, .error .emfile)
  | .lseek fd offset whence =>
    match f.files fd with
    | none => (f, .error .eio)
    | some p =>
      match seekTo p offset whence with
      | none => (f, .error .einval)
      | some q => (f.seek fd q, .number q)
  | .read fd count =>
    match f.files fd with
    | none => (f, .error .eio)
    | some p => (f.seek fd (p + count), .bytes (slice f.mem p count))
  | .write fd buf =>
    match f.files fd with
    | none => (f, .error .eio)
    | some p =>
      ({ f.seek fd (p + buf.length) with writes := (p, buf) :: f.writes }, .number buf.length)
  | .sync => (f, .done)
  | .close fd =>
    match f.files fd with
    | none => (f, .error .eio)
    | some _ =>
      ({ f with
        files := fun fd' => if fd' = fd then none else f.files fd'
        opened := f.opened - 1 }, .done)

/-- The calls that the rest of the kernel makes: descriptor numbers are not 0, a new one is not in
use, and all addresses are below `2 ^ 24`. -/
def Valid (f : FlashFile) : Call → Prop
  | .open fd => fd ≠ 0 ∧ f.files fd = none
  | .lseek fd _ _ => fd ≠ 0
  | .read fd count => fd ≠ 0 ∧ ∀ p ∈ f.files fd, p + count ≤ 2 ^ 24
  | .write fd buf => fd ≠ 0 ∧ ∀ p ∈ f.files fd, p < 2 ^ 24 ∧ p + buf.length ≤ 2 ^ 24
  | .sync => True
  | .close fd => fd ≠ 0

end FlashFile

theorem lastWritten_cons (initial : ℕ → BitVec 8) (a : ℕ) (l : List (BitVec 8))
    (ws : List (ℕ × List (BitVec 8))) :
    lastWritten initial ((a, l) :: ws) = overlay (lastWritten initial ws) a l := by
  funext x
  rw [lastWritten]
  by_cases h1 : a ≤ x
  · by_cases h2 : x < a + l.length
    · rw [if_pos ⟨h1, h2⟩, overlay_of_mem _ h1 h2 0]
    · rw [if_neg (fun h => h2 h.2), overlay_of_ge _ _ (by omega)]
  · rw [if_neg (fun h => h1 h.1), overlay_of_lt _ _ (by omega)]

/-! ### Masks -/

theorem and_fileptrOffsetMask (p : ℕ) : p &&& writeFileptrOffsetMask = p % 4096 :=
  Nat.and_two_pow_sub_one_eq_mod p 12

theorem and_offsetMask {p : ℕ} (hp : p < 2 ^ 32) : p &&& writeOffsetMask = p / 4096 * 4096 := by
  have hmask : writeOffsetMask = (2 ^ 20 - 1) <<< 12 := by decide
  have hdiv : p / 4096 * 4096 = (p >>> 12) <<< 12 := by
    rw [Nat.shiftRight_eq_div_pow, Nat.shiftLeft_eq]
  apply Nat.eq_of_testBit_eq
  intro i
  rw [hmask, hdiv, Nat.testBit_and, Nat.testBit_shiftLeft, Nat.testBit_shiftLeft,
    Nat.testBit_shiftRight, Nat.testBit_two_pow_sub_one]
  by_cases h1 : 12 ≤ i
  · have h2 : 12 + (i - 12) = i := by omega
    rw [h2]
    by_cases h3 : i - 12 < 20
    · simp [h1, h3]
    · have hlt : p < 2 ^ i := lt_of_lt_of_le hp (Nat.pow_le_pow_right (by omega) (by omega))
      simp [Nat.testBit_lt_two_pow hlt]
  · simp [h1]

/-! ### The sector buffer -/

/-- What the driver and the chip hold at an address. -/
def view (d : Dev) : ℕ → BitVec 8 := overlay d.flash d.writeBlkOffset (d.writebuf.getD [])

/-- The buffer, if there is one, holds a whole sector. -/
structure BufInv (d : Dev) : Prop where
  length : ∀ b ∈ d.writebuf, b.length = 4096
  aligned : ∀ b ∈ d.writebuf, d.writeBlkOffset % 4096 = 0
  blkEnd : ∀ b ∈ d.writebuf, d.writeBlkEnd = d.writeBlkOffset + 4096
  bound : ∀ b ∈ d.writebuf, d.writeBlkOffset + 4096 ≤ 2 ^ 24

theorem view_of_none {d : Dev} (h : d.writebuf = none) : view d = d.flash := by
  rw [view, h]
  exact overlay_nil _ _

/-- Writing out the buffer changes nothing but the chip. -/
theorem writebuffer_flash {d : Dev} (h : BufInv d) (hb : d.writebuf.isSome) :
    (spiflashWritebuffer d).flash = view d := by
  obtain ⟨b, hb⟩ := Option.isSome_iff_exists.mp hb
  have hlen := h.length b hb
  funext x
  rw [view, hb, Option.getD_some]
  unfold spiflashWritebuffer writeSectorSize
  dsimp only
  rw [hb, Option.getD_some]
  by_cases h1 : d.writeBlkOffset ≤ x
  · by_cases h2 : x < d.writeBlkOffset + 4096
    · rw [if_pos ⟨h1, h2⟩, overlay_of_mem _ h1 (by omega) 0]
    · rw [if_neg (fun h => h2 h.2), overlay_of_ge _ _ (by omega)]
  · rw [if_neg (fun h => h1 h.1), overlay_of_lt _ _ (by omega)]

theorem writebuffer_view {d : Dev} (h : BufInv d) (hb : d.writebuf.isSome) :
    view (spiflashWritebuffer d) = view d := by
  rw [view_of_none rfl, writebuffer_flash h hb]

theorem writebuffer_bufInv (d : Dev) : BufInv (spiflashWritebuffer d) := by
  have hnone : (spiflashWritebuffer d).writebuf = none := rfl
  constructor <;> intro b hb <;> rw [hnone] at hb <;> exact absurd hb (by simp)

theorem BufInv.of_none {d : Dev} (h : d.writebuf = none) : BufInv d := by
  constructor <;> intro b hb <;> rw [h] at hb <;> exact absurd hb (by simp)

/-- A loaded sector is a copy of the chip. -/
theorem loadSector_spec {d : Dev} {p : ℕ} (hnone : d.writebuf = none) (hp : p < 2 ^ 24) :
    ∃ d', spiflashLoadSector d p true = (d', .ok ()) ∧ BufInv d' ∧ view d' = view d ∧
      d'.fdList = d.fdList ∧ d'.writebuf.isSome ∧ d'.writeBlkOffset ≤ p ∧ p < d'.writeBlkEnd := by
  have hoff := and_offsetMask (p := p) (by omega)
  have hend : (p / 4096 * 4096 + writeSectorSize) % 2 ^ 32 = p / 4096 * 4096 + 4096 := by
    unfold writeSectorSize
    omega
  refine ⟨_, rfl, ?_, ?_, rfl, rfl, ?_, ?_⟩
  · constructor <;> intro b hb <;> dsimp only at hb ⊢
    · obtain rfl := Option.some_inj.mp hb
      rw [flashMemcpy, List.length_map, List.length_range, writeSectorSize]
    · omega
    · rw [hoff, hend]
    · omega
  · have hcopy : ∀ a n, flashMemcpy d.flash a n = slice d.flash a n := fun _ _ => rfl
    rw [view_of_none hnone, view]
    dsimp only
    rw [Option.getD_some, hcopy, overlay_slice]
  · dsimp only
    omega
  · dsimp only
    rw [hoff, hend]
    omega

/-- The buffer holds the sector that is written next. -/
theorem prepareSector_spec {d : Dev} {p : ℕ} (h : BufInv d) (hp : p < 2 ^ 24) (n : ℕ) :
    ∃ d', prepareSector d p (n + p) true = (d', .ok ()) ∧ BufInv d' ∧ view d' = view d ∧
      d'.fdList = d.fdList ∧ d'.writebuf.isSome ∧ d'.writeBlkOffset ≤ p ∧ p ≤ d'.writeBlkEnd ∧
      (0 < n → p < d'.writeBlkEnd) := by
  unfold prepareSector
  cases hb : d.writebuf with
  | none =>
    obtain ⟨d', heq, h1, h2, h3, h4, h5, h6⟩ := loadSector_spec hb hp
    exact ⟨d', by simpa using heq, h1, h2, h3, h4, h5, h6.le, fun _ => h6⟩
  | some b =>
    rw [if_neg (by simp)]
    split
    · -- another sector: the old one is written out first
      obtain ⟨d', heq, h1, h2, h3, h4, h5, h6⟩ :=
        loadSector_spec (d := spiflashWritebuffer d) rfl hp
      have hv := writebuffer_view h (by rw [hb]; rfl)
      exact ⟨d', heq, h1, h2.trans hv, h3, h4, h5, h6.le, fun _ => h6⟩
    · next hin =>
      refine ⟨d, rfl, h, rfl, rfl, by rw [hb]; rfl, ?_, ?_, ?_⟩ <;> omega

/-- **One turn of a write**: the first bytes of the buffer, up to the end of the sector. -/
theorem writeToSector_spec {d : Dev} {p : ℕ} {buf : List (BitVec 8)} (h : BufInv d)
    (hp : p < 2 ^ 24) (hn : buf.length + p ≤ 2 ^ 24) :
    ∃ d' count, spiflashWriteToSector d p buf true = (d', .ok count) ∧ count ≤ buf.length ∧
      (0 < buf.length → 0 < count) ∧ BufInv d' ∧ view d' = overlay (view d) p (buf.take count) ∧
      d'.fdList = d.fdList := by
  obtain ⟨d₁, heq, h1, hview, hfds, hsome, hoff, hle, hlt⟩ :=
    prepareSector_spec h hp buf.length
  obtain ⟨b, hb⟩ := Option.isSome_iff_exists.mp hsome
  have hlen := h1.length b hb
  have halign := h1.aligned b hb
  have hend := h1.blkEnd b hb
  have hbound := h1.bound b hb
  have hadd : (buf.length + p) % 2 ^ 32 = buf.length + p := Nat.mod_eq_of_lt (by omega)
  -- the bytes that fit into the sector
  set count := if buf.length + p > d₁.writeBlkEnd then (2 ^ 32 + d₁.writeBlkEnd - p) % 2 ^ 32
    else buf.length with hcount
  have hcount' : count = min buf.length (d₁.writeBlkEnd - p) := by
    rw [hcount]
    split <;> omega
  set copy := fun b => memcpyInto b (p &&& writeFileptrOffsetMask) (buf.take count) with hcopy
  set d₂ : Dev := { d₁ with writebuf := d₁.writebuf.map copy } with hd₂
  have hb₂ : d₂.writebuf = some (memcpyInto b (p % 4096) (buf.take count)) := by
    rw [hd₂]
    dsimp only
    rw [hb, hcopy, and_fileptrOffsetMask]
    rfl
  have htake : (buf.take count).length = count := by rw [List.length_take]; omega
  have hpos : d₁.writeBlkOffset + p % 4096 = p ∨ count = 0 := by omega
  have hfit : p % 4096 + (buf.take count).length ≤ b.length := by omega
  have hinv₂ : BufInv d₂ := by
    constructor <;> intro b' hb'
    · obtain rfl := Option.some_inj.mp (hb₂.symm.trans hb')
      rw [memcpyInto, List.length_append, List.length_append, List.length_take, List.length_drop]
      omega
    · exact halign
    · exact hend
    · exact hbound
  have hview₂ : view d₂ = overlay (view d) p (buf.take count) := by
    rw [← hview, view, view, hb₂, hb, Option.getD_some, Option.getD_some, memcpyInto,
      overlay_splice _ _ _ hfit]
    rcases hpos with hpos | h0
    · have hpos' : d₂.writeBlkOffset + p % 4096 = p := hpos
      rw [hpos']
    · have hnil : buf.take count = [] := by rw [h0, List.take_zero]
      rw [hnil, overlay_nil, overlay_nil]
  refine ⟨if buf.length + p ≥ d₂.writeBlkEnd then spiflashWritebuffer d₂ else d₂, count,
    ?_, by omega, by omega, ?_, ?_, ?_⟩
  · rw [spiflashWriteToSector, hadd, heq]
  · split
    · exact writebuffer_bufInv d₂
    · exact hinv₂
  · split
    · rw [writebuffer_view hinv₂ (by rw [hb₂]; rfl), hview₂]
    · exact hview₂
  · split <;> exact hfds

/-! ### Descriptors -/

/-- The position of a descriptor, if it is open. -/
def lookup (l : List OpenFD) (fd : ℕ) : Option ℕ := (l.find? fun e => e.fd == fd).map OpenFD.fileptr

/-- The number of entries in use. -/
def openCount (l : List OpenFD) : ℕ := l.countP fun e => e.fd != 0

/-- No descriptor has two entries. -/
def Distinct (l : List OpenFD) : Prop := l.Pairwise fun a b => a.fd = b.fd → a.fd = 0

theorem lookup_cons (e : OpenFD) (l : List OpenFD) (fd : ℕ) :
    lookup (e :: l) fd = if e.fd = fd then some e.fileptr else lookup l fd := by
  by_cases h : e.fd = fd <;> simp [lookup, h]

theorem getFd_cons (e : OpenFD) (l : List OpenFD) (fd : ℕ) :
    getFd (e :: l) fd = if e.fd = fd then some 0 else (getFd l fd).map (· + 1) := by
  simp [getFd, List.findIdx?_cons]

theorem lookup_eq_map_getFd (l : List OpenFD) (fd : ℕ) :
    lookup l fd = (getFd l fd).map fun k => (l.getD k ⟨0, 0⟩).fileptr := by
  induction l with
  | nil => rfl
  | cons e l ih =>
    rw [lookup_cons, getFd_cons, ih]
    by_cases h : e.fd = fd
    · simp [h]
    · cases getFd l fd <;> simp [h]

theorem lookup_setFileptr {l : List OpenFD} {fd k : ℕ} (h : getFd l fd = some k) (p fd' : ℕ) :
    lookup (l.modify k fun e => { e with fileptr := p }) fd'
      = if fd' = fd then some p else lookup l fd' := by
  induction l generalizing k with
  | nil => simp [getFd] at h
  | cons e l ih =>
    rw [getFd_cons] at h
    by_cases he : e.fd = fd
    · obtain rfl : 0 = k := by simpa [he] using h
      rw [List.modify_zero_cons, lookup_cons, lookup_cons, he]
      by_cases hfd : fd = fd' <;> simp [hfd, eq_comm]
    · rw [if_neg he, Option.map_eq_some_iff] at h
      obtain ⟨k, hk, rfl⟩ := h
      rw [List.modify_succ_cons, lookup_cons, lookup_cons, ih hk]
      by_cases hfd : e.fd = fd'
      · rw [if_pos hfd, if_pos hfd, if_neg (by rw [← hfd]; exact he)]
      · rw [if_neg hfd, if_neg hfd]

theorem lookup_eq_none_iff {l : List OpenFD} {fd : ℕ} :
    lookup l fd = none ↔ ∀ e ∈ l, e.fd ≠ fd := by
  simp [lookup]

theorem lookup_release {l : List OpenFD} {fd k : ℕ} (hd : Distinct l) (h : getFd l fd = some k)
    {fd' : ℕ} (h0 : fd' ≠ 0) :
    lookup (l.modify k fun e => { e with fd := 0 }) fd' =
      if fd' = fd then none else lookup l fd' := by
  induction l generalizing k with
  | nil => simp [getFd] at h
  | cons e l ih =>
    obtain ⟨hhead, htail⟩ := List.pairwise_cons.mp hd
    rw [getFd_cons] at h
    by_cases he : e.fd = fd
    · obtain rfl : 0 = k := by simpa [he] using h
      rw [List.modify_zero_cons, lookup_cons, lookup_cons, if_neg (Ne.symm h0), he]
      by_cases hfd : fd' = fd
      · rw [if_pos hfd]
        refine lookup_eq_none_iff.mpr fun e' he' heq => h0 ?_
        rw [hfd, ← he]
        exact hhead e' he' (by rw [he, heq, hfd])
      · rw [if_neg hfd, if_neg (Ne.symm hfd)]
    · rw [if_neg he, Option.map_eq_some_iff] at h
      obtain ⟨k, hk, rfl⟩ := h
      rw [List.modify_succ_cons, lookup_cons, lookup_cons, ih htail hk]
      by_cases hfd : e.fd = fd'
      · rw [if_pos hfd, if_pos hfd, if_neg (by rw [← hfd]; exact he)]
      · rw [if_neg hfd, if_neg hfd]

/-- The entries after a change of entry `k` that keeps its number, or clears it. -/
theorem mem_modify {g : OpenFD → OpenFD} (hg : ∀ e, (g e).fd = e.fd ∨ (g e).fd = 0)
    {l : List OpenFD} {k : ℕ}
    {e : OpenFD} (he : e ∈ l.modify k g) : ∃ e' ∈ l, e.fd = e'.fd ∨ e.fd = 0 := by
  induction l generalizing k with
  | nil => simp at he
  | cons a l ih =>
    cases k with
    | zero =>
      rw [List.modify_zero_cons, List.mem_cons] at he
      rcases he with rfl | he
      · exact ⟨a, List.mem_cons_self, hg a⟩
      · exact ⟨e, List.mem_cons_of_mem _ he, Or.inl rfl⟩
    | succ k =>
      rw [List.modify_succ_cons, List.mem_cons] at he
      rcases he with rfl | he
      · exact ⟨e, List.mem_cons_self, Or.inl rfl⟩
      · obtain ⟨e', he', h⟩ := ih he
        exact ⟨e', List.mem_cons_of_mem _ he', h⟩

/-- Such a change keeps the entries distinct. -/
theorem Distinct.modify {l : List OpenFD} (hd : Distinct l) (k : ℕ) {g : OpenFD → OpenFD}
    (hg : ∀ e, (g e).fd = e.fd ∨ (g e).fd = 0) : Distinct (l.modify k g) := by
  induction l generalizing k with
  | nil => simpa using hd
  | cons a l ih =>
    obtain ⟨hhead, htail⟩ := List.pairwise_cons.mp hd
    cases k with
    | zero =>
      rw [List.modify_zero_cons]
      refine List.pairwise_cons.mpr ⟨fun e he heq => ?_, htail⟩
      rcases hg a with h | h
      · rw [h]
        exact hhead e he (h.symm.trans heq)
      · exact h
    | succ k =>
      rw [List.modify_succ_cons]
      refine List.pairwise_cons.mpr ⟨fun e he heq => ?_, ih htail k⟩
      obtain ⟨e', he', h | h⟩ := mem_modify hg he
      · exact hhead e' he' (heq.trans h)
      · exact heq.trans h

theorem openCount_setFileptr (l : List OpenFD) (k p : ℕ) :
    openCount (l.modify k fun e => { e with fileptr := p }) = openCount l := by
  induction l generalizing k with
  | nil => simp [openCount]
  | cons e l ih =>
    cases k with
    | zero => simp [openCount, List.countP_cons]
    | succ k =>
      have := ih k
      simp only [openCount] at this
      simp [openCount, List.countP_cons, this]

theorem openCount_release {l : List OpenFD} {fd k : ℕ} (h0 : fd ≠ 0) (h : getFd l fd = some k) :
    openCount (l.modify k fun e => { e with fd := 0 }) + 1 = openCount l := by
  induction l generalizing k with
  | nil => simp [getFd] at h
  | cons e l ih =>
    rw [getFd_cons] at h
    by_cases he : e.fd = fd
    · obtain rfl : 0 = k := by simpa [he] using h
      simp [openCount, he, h0]
    · rw [if_neg he, Option.map_eq_some_iff] at h
      obtain ⟨k, hk, rfl⟩ := h
      have := ih hk
      simp only [openCount] at this
      simp only [openCount, List.modify_succ_cons, List.countP_cons, ← this]
      omega

/-- `new_fd` succeeds while an entry is free. -/
theorem newFd_spec {l : List OpenFD} {fd : ℕ} (h0 : fd ≠ 0) (hd : Distinct l)
    (hnew : lookup l fd = none) :
    if openCount l < l.length then
      ∃ l', newFd l fd = some l' ∧ Distinct l' ∧ l'.length = l.length ∧
        openCount l' = openCount l + 1 ∧
        ∀ fd', fd' ≠ 0 → lookup l' fd' = if fd' = fd then some 0 else lookup l fd'
    else newFd l fd = none := by
  induction l with
  | nil => simp [openCount, newFd]
  | cons e l ih =>
    obtain ⟨hhead, htail⟩ := List.pairwise_cons.mp hd
    have hne : e.fd ≠ fd := lookup_eq_none_iff.mp hnew e List.mem_cons_self
    have hnew' : lookup l fd = none :=
      lookup_eq_none_iff.mpr fun e' he' =>
        lookup_eq_none_iff.mp hnew e' (List.mem_cons_of_mem _ he')
    by_cases he : e.fd = 0
    · have hcount : openCount (e :: l) = openCount l := by simp [openCount, he]
      have hle : openCount l ≤ l.length := List.countP_le_length
      rw [hcount, if_pos (by rw [List.length_cons]; omega)]
      refine ⟨⟨fd, 0⟩ :: l, by rw [newFd, if_pos he], ?_, rfl, by simp [openCount, h0], ?_⟩
      · refine List.pairwise_cons.mpr ⟨fun e' he' heq => ?_, htail⟩
        exact absurd heq.symm (lookup_eq_none_iff.mp hnew' e' he')
      · intro fd' hfd'
        rw [lookup_cons, lookup_cons, he, if_neg (Ne.symm hfd')]
        by_cases h : fd = fd' <;> simp [h, eq_comm]
    · have hcount : openCount (e :: l) = openCount l + 1 := by simp [openCount, he]
      have ih := ih htail hnew'
      rw [hcount, List.length_cons]
      by_cases hfree : openCount l < l.length
      · rw [if_pos hfree] at ih
        rw [if_pos (by omega)]
        obtain ⟨l', hl', hd', hlen, hcnt, hlook⟩ := ih
        refine ⟨e :: l', by rw [newFd, if_neg he, hl']; rfl, ?_, by
          rw [List.length_cons, hlen], ?_, ?_⟩
        · refine List.pairwise_cons.mpr ⟨fun e' he' heq => ?_, hd'⟩
          -- another entry of the same number would have been there before
          have hold : lookup l e.fd = none :=
            lookup_eq_none_iff.mpr fun e'' h'' h => he (hhead e'' h'' h.symm)
          have := hlook e.fd he
          rw [if_neg hne, hold] at this
          exact absurd heq.symm (lookup_eq_none_iff.mp this e' he')
        · simp only [openCount] at hcnt
          simp [openCount, he, hcnt]
        · intro fd' hfd'
          rw [lookup_cons, lookup_cons, hlook fd' hfd']
          by_cases h : e.fd = fd'
          · rw [if_pos h, if_pos h, if_neg (by rw [← h]; exact hne)]
          · rw [if_neg h, if_neg h]
      · rw [if_neg hfree] at ih
        rw [if_neg (by omega), newFd, if_neg he, ih]
        rfl

/-! ### The refinement -/

/-- The driver and the byte array agree. -/
structure Refines (d : Dev) (f : FlashFile) : Prop where
  buf : BufInv d
  mem : view d = f.mem
  files : ∀ fd, fd ≠ 0 → f.files fd = lookup d.fdList fd
  distinct : Distinct d.fdList
  length : d.fdList.length = 4
  opened : f.opened = openCount d.fdList

/-- The calls of the driver, when `kmalloc` succeeds; a write may take a turn for each byte and one
more. -/
def call (d : Dev) : Call → Option (Dev × Result)
  | .open fd => some <| match spiflashOpen d fd with
    | (d, .ok ()) => (d, .done)
    | (d, .error e) => (d, .error e)
  | .lseek fd offset whence => some <| match spiflashLseek d fd offset whence with
    | (d, .ok p) => (d, .number p)
    | (d, .error e) => (d, .error e)
  | .read fd count => some <| match spiflashRead d fd count with
    | (d, .ok l) => (d, .bytes l)
    | (d, .error e) => (d, .error e)
  | .write fd buf => (spiflashWrite (buf.length + 1) d fd buf true).map fun
    | (d, .ok n) => (d, .number n)
    | (d, .error e) => (d, .error e)
  | .sync => some (spiflashSync d, .done)
  | .close fd => some <| match spiflashClose d fd with
    | (d, .ok ()) => (d, .done)
    | (d, .error e) => (d, .error e)

theorem Refines.init (flash : ℕ → BitVec 8) :
    Refines (SpiFlashdev.init flash) (FlashFile.init flash) := by
  refine ⟨BufInv.of_none rfl, view_of_none rfl, fun fd hfd => ?_, ?_, rfl, rfl⟩
  · exact (lookup_eq_none_iff.mpr fun e he => by
      rw [List.eq_of_mem_replicate he]; exact Ne.symm hfd).symm
  · exact List.pairwise_replicate.mpr (Or.inr fun _ => rfl)

/-- Writing out the buffer keeps the refinement. -/
theorem Refines.flush {d : Dev} {f : FlashFile} (h : Refines d f) :
    Refines (if d.writebuf.isSome then spiflashWritebuffer d else d) f ∧
      (if d.writebuf.isSome then spiflashWritebuffer d else d).flash = f.mem ∧
      (if d.writebuf.isSome then spiflashWritebuffer d else d).fdList = d.fdList := by
  split
  · next hb =>
    exact ⟨⟨writebuffer_bufInv d, (writebuffer_view h.buf hb).trans h.mem, h.files,
      h.distinct, h.length, h.opened⟩, (writebuffer_flash h.buf hb).trans h.mem, rfl⟩
  · next hb =>
    have hnone : d.writebuf = none := by simpa using hb
    exact ⟨h, (view_of_none hnone).symm.trans h.mem, rfl⟩

/-- A new position of an open descriptor. -/
theorem Refines.setFileptr {d : Dev} {f : FlashFile} (h : Refines d f) {fd k : ℕ}
    (hk : getFd d.fdList fd = some k) (p : ℕ) :
    Refines (SpiFlashdev.setFileptr d k p) (f.seek fd p) := by
  refine ⟨⟨h.buf.length, h.buf.aligned, h.buf.blkEnd, h.buf.bound⟩, h.mem, fun fd' hfd' => ?_,
    h.distinct.modify k fun e => Or.inl rfl, ?_, ?_⟩
  · rw [FlashFile.seek, SpiFlashdev.setFileptr, lookup_setFileptr hk]
    dsimp only
    rw [h.files fd' hfd']
  · rw [SpiFlashdev.setFileptr, List.length_modify, h.length]
  · rw [SpiFlashdev.setFileptr, openCount_setFileptr]
    exact h.opened

theorem fileptr_setFileptr {d : Dev} {k : ℕ} (hk : k < d.fdList.length) (p : ℕ) :
    fileptr (SpiFlashdev.setFileptr d k p) k = p := by
  simp [fileptr, SpiFlashdev.setFileptr, hk]

theorem getFd_lt {l : List OpenFD} {fd k : ℕ} (h : getFd l fd = some k) : k < l.length := by
  obtain ⟨hk, -⟩ := List.findIdx?_eq_some_iff_getElem.mp h
  exact hk

/-- **The loop of a write** comes to its end, and has then written the whole buffer. -/
theorem writeLoop_spec {k : ℕ} : ∀ (fuel : ℕ) (d : Dev) (buf : List (BitVec 8)) (p : ℕ),
    buf.length < fuel → BufInv d → k < d.fdList.length → fileptr d k = p → p < 2 ^ 24 →
    buf.length + p ≤ 2 ^ 24 →
    ∃ d', writeLoop true fuel d k buf = some (d', .ok ()) ∧ BufInv d' ∧
      view d' = overlay (view d) p buf ∧
      d'.fdList = d.fdList.modify k fun e => { e with fileptr := p + buf.length } := by
  intro fuel
  induction fuel with
  | zero => intro d buf p hfuel; omega
  | succ fuel ih =>
    intro d buf p hfuel hinv hk hp hlt hle
    -- one turn writes `count` bytes, at least one, and moves the file pointer past them
    obtain ⟨d₁, count, heq, hcount, hpos, hinv₁, hview, hfds⟩ := writeToSector_spec hinv hlt hle
    have hptr : fileptr d₁ k = p := by rw [fileptr, hfds]; exact hp
    have hadd : (p + count) % 2 ^ 32 = p + count := Nat.mod_eq_of_lt (by omega)
    set d₂ := SpiFlashdev.setFileptr d₁ k (p + count) with hd₂
    have hinv₂ : BufInv d₂ := ⟨hinv₁.length, hinv₁.aligned, hinv₁.blkEnd, hinv₁.bound⟩
    have hstep : writeLoop true (fuel + 1) d k buf
        = if (buf.drop count).length ≠ 0 then writeLoop true fuel d₂ k (buf.drop count)
          else some (d₂, .ok ()) := by
      rw [writeLoop, hp, heq]
      dsimp only
      rw [hptr, hadd]
    rw [hstep]
    by_cases hrest : (buf.drop count).length ≠ 0
    · rw [if_pos hrest]
      rw [List.length_drop] at hrest
      have hk₂ : k < d₂.fdList.length := by
        rw [hd₂, SpiFlashdev.setFileptr, List.length_modify, hfds]; exact hk
      obtain ⟨d', hd', hinv', hview', hfds'⟩ := ih d₂ (buf.drop count) (p + count)
        (by rw [List.length_drop]; omega) hinv₂ hk₂
        (fileptr_setFileptr (by rw [hfds]; exact hk) _) (by omega) (by rw [List.length_drop]; omega)
      refine ⟨d', hd', hinv', ?_, ?_⟩
      · have hview₂ : view d₂ = overlay (view d) p (buf.take count) := hview
        have htake : (buf.take count).length = count := by rw [List.length_take]; omega
        have happ := overlay_append (view d) p (buf.take count) (buf.drop count)
        rw [htake, List.take_append_drop] at happ
        rw [hview', hview₂, happ]
      · rw [hfds', hd₂, SpiFlashdev.setFileptr, List.modify_modify_eq, hfds, List.length_drop]
        congr 1
        funext e
        have hsum : p + count + (buf.length - count) = p + buf.length := by omega
        simp [hsum]
    · rw [if_neg hrest]
      rw [List.length_drop] at hrest
      have hall : count = buf.length := by omega
      refine ⟨d₂, rfl, hinv₂, ?_, ?_⟩
      · have hview₂ : view d₂ = overlay (view d) p (buf.take count) := hview
        rw [hview₂, hall, List.take_length]
      · rw [hd₂, SpiFlashdev.setFileptr, hfds, hall]

theorem getFd_eq_none_iff {l : List OpenFD} {fd : ℕ} : getFd l fd = none ↔ lookup l fd = none := by
  rw [lookup_eq_map_getFd, Option.map_eq_none_iff]

/-- An open descriptor of the byte array is one of the driver. -/
theorem Refines.getFd_of_some {d : Dev} {f : FlashFile} (h : Refines d f) {fd p : ℕ} (h0 : fd ≠ 0)
    (hp : f.files fd = some p) : ∃ k, getFd d.fdList fd = some k ∧ fileptr d k = p := by
  have := h.files fd h0
  rw [hp, lookup_eq_map_getFd, eq_comm, Option.map_eq_some_iff] at this
  exact this

theorem Refines.getFd_of_none {d : Dev} {f : FlashFile} (h : Refines d f) {fd : ℕ} (h0 : fd ≠ 0)
    (hp : f.files fd = none) : getFd d.fdList fd = none := by
  rw [getFd_eq_none_iff, ← h.files fd h0, hp]

section Calls

variable {d : Dev} {f : FlashFile}

theorem open_refines (h : Refines d f) {fd : ℕ} (hv : f.Valid (.open fd)) :
    ∃ d', call d (.open fd) = some (d', (f.spec (.open fd)).2) ∧
    Refines d' (f.spec (.open fd)).1 := by
  obtain ⟨h0, hnew⟩ := hv
  have hspec := newFd_spec h0 h.distinct ((h.files fd h0).symm.trans hnew)
  rw [h.length, ← h.opened] at hspec
  rw [FlashFile.spec]
  -- `new_fd` finds a free entry exactly when fewer than four descriptors are open
  by_cases hfree : f.opened < 4
  · rw [if_pos hfree] at hspec
    obtain ⟨l', hl', hd', hlen, hcnt, hlook⟩ := hspec
    refine ⟨{ d with fdList := l' }, ?_, ?_⟩
    · rw [if_pos hfree, call, spiflashOpen, hl']
    · rw [if_pos hfree]
      refine ⟨⟨h.buf.length, h.buf.aligned, h.buf.blkEnd, h.buf.bound⟩, h.mem,
        fun fd' hfd' => ?_, hd', hlen, hcnt.symm⟩
      rw [hlook fd' hfd', ← h.files fd' hfd']
      rfl
  · rw [if_neg hfree] at hspec
    refine ⟨d, ?_, ?_⟩
    · rw [if_neg hfree, call, spiflashOpen, hspec]
    · rw [if_neg hfree]; exact h

theorem lseek_refines (h : Refines d f) {fd : ℕ} (hv : fd ≠ 0) (offset : ℤ) (whence : Whence) :
    ∃ d', call d (.lseek fd offset whence) = some (d', (f.spec (.lseek fd offset whence)).2) ∧
      Refines d' (f.spec (.lseek fd offset whence)).1 := by
  cases hp : f.files fd with
  | none =>
    have hk := h.getFd_of_none hv hp
    exact ⟨d, by simp [call, spiflashLseek, hk, FlashFile.spec, hp], by
      simpa [FlashFile.spec, hp] using h⟩
  | some p =>
    obtain ⟨k, hk, hptr⟩ := h.getFd_of_some hv hp
    cases hq : seekTo p offset whence with
    | none =>
      exact ⟨d, by simp [call, spiflashLseek, hk, hptr, FlashFile.spec, hp, hq],
        by simpa [FlashFile.spec, hp, hq] using h⟩
    | some q =>
      exact ⟨SpiFlashdev.setFileptr d k q, by
        simp [call, spiflashLseek, hk, hptr, FlashFile.spec, hp, hq],
        by simpa [FlashFile.spec, hp, hq] using h.setFileptr hk q⟩

theorem read_refines (h : Refines d f) {fd count : ℕ} (hv : f.Valid (.read fd count)) :
    ∃ d', call d (.read fd count) = some (d', (f.spec (.read fd count)).2) ∧
      Refines d' (f.spec (.read fd count)).1 := by
  obtain ⟨h0, hbound⟩ := hv
  cases hp : f.files fd with
  | none =>
    have hk := h.getFd_of_none h0 hp
    exact ⟨d, by simp [call, spiflashRead, hk, FlashFile.spec, hp], by
      simpa [FlashFile.spec, hp] using h⟩
  | some p =>
    obtain ⟨k, hk, hptr⟩ := h.getFd_of_some h0 hp
    have hbound := hbound p hp
    -- the buffer is written out, so that the chip holds the array
    obtain ⟨hflush, hflash, hfds⟩ := h.flush
    set d₁ := if d.writebuf.isSome then spiflashWritebuffer d else d with hd₁
    have hptr₁ : fileptr d₁ k = p := by rw [fileptr, hfds]; exact hptr
    have hadd : (p + count) % 2 ^ 32 = p + count := Nat.mod_eq_of_lt (by omega)
    have hcopy : flashMemcpy f.mem p count = slice f.mem p count := rfl
    refine ⟨SpiFlashdev.setFileptr d₁ k (p + count), ?_, ?_⟩
    · simp only [call, spiflashRead, hk, ← hd₁, hptr₁, hadd, hflash, hcopy, FlashFile.spec, hp]
    · simp only [FlashFile.spec, hp]
      exact hflush.setFileptr (by rw [hfds]; exact hk) _

theorem write_refines (h : Refines d f) {fd : ℕ} {buf : List (BitVec 8)}
    (hv : f.Valid (.write fd buf)) :
    ∃ d', call d (.write fd buf) = some (d', (f.spec (.write fd buf)).2) ∧
      Refines d' (f.spec (.write fd buf)).1 := by
  obtain ⟨h0, hbound⟩ := hv
  cases hp : f.files fd with
  | none =>
    have hk := h.getFd_of_none h0 hp
    exact ⟨d, by simp [call, spiflashWrite, hk, FlashFile.spec, hp], by
      simpa [FlashFile.spec, hp] using h⟩
  | some p =>
    obtain ⟨k, hk, hptr⟩ := h.getFd_of_some h0 hp
    obtain ⟨hlt, hle⟩ := hbound p hp
    obtain ⟨d', hd', hinv, hview, hfds⟩ := writeLoop_spec (buf.length + 1) d buf p (by omega) h.buf
      (getFd_lt hk) hptr hlt (by omega)
    -- a write moves the file pointer as a seek does
    have hseek := h.setFileptr hk (p + buf.length)
    refine ⟨d', by simp [call, spiflashWrite, hk, hd', FlashFile.spec, hp, Except.map], ?_⟩
    simp only [FlashFile.spec, hp]
    refine ⟨hinv, ?_, ?_, ?_, ?_, ?_⟩
    · rw [hview, h.mem]
      exact (lastWritten_cons _ _ _ _).symm
    · rw [hfds]; exact hseek.files
    · rw [hfds]; exact hseek.distinct
    · rw [hfds]; exact hseek.length
    · rw [hfds]; exact hseek.opened

theorem close_refines (h : Refines d f) {fd : ℕ} (hv : fd ≠ 0) :
    ∃ d', call d (.close fd) = some (d', (f.spec (.close fd)).2) ∧
      Refines d' (f.spec (.close fd)).1 := by
  cases hp : f.files fd with
  | none =>
    have hk := h.getFd_of_none hv hp
    exact ⟨d, by simp [call, spiflashClose, hk, FlashFile.spec, hp], by
      simpa [FlashFile.spec, hp] using h⟩
  | some p =>
    obtain ⟨k, hk, -⟩ := h.getFd_of_some hv hp
    obtain ⟨hflush, -, hfds⟩ := h.flush
    set d₁ := if d.writebuf.isSome then spiflashWritebuffer d else d with hd₁
    refine ⟨{ d₁ with fdList := d₁.fdList.modify k fun e => { e with fd := 0 } },
      by simp only [call, spiflashClose, hk, FlashFile.spec, hp, ← hd₁], ?_⟩
    simp only [FlashFile.spec, hp]
    have hk₁ : getFd d₁.fdList fd = some k := by rw [hfds]; exact hk
    refine ⟨⟨hflush.buf.length, hflush.buf.aligned, hflush.buf.blkEnd, hflush.buf.bound⟩,
      hflush.mem, fun fd' hfd' => ?_, hflush.distinct.modify k fun e => Or.inr rfl, ?_, ?_⟩
    · rw [lookup_release hflush.distinct hk₁ hfd', ← hflush.files fd' hfd']
    · rw [List.length_modify, hflush.length]
    · have := openCount_release hv hk₁
      have := hflush.opened
      dsimp only
      omega

end Calls

/-- **Each call of the driver is a call of the byte array.** -/
theorem call_refines (d : Dev) (f : FlashFile) (c : Call) (h : Refines d f) (hv : f.Valid c) :
    ∃ d', call d c = some (d', (f.spec c).2) ∧ Refines d' (f.spec c).1 := by
  cases c with
  | «open» fd => exact open_refines h hv
  | lseek fd offset whence => exact lseek_refines h hv offset whence
  | read fd count => exact read_refines h hv
  | write fd buf => exact write_refines h hv
  | sync => exact ⟨spiflashSync d, rfl, h.flush.1⟩
  | close fd => exact close_refines h hv

/-- The call writes out the buffer: `sync`, or `close` of an open descriptor. -/
def FlashFile.Flushes (f : FlashFile) : Call → Prop
  | .sync => True
  | .close fd => f.files fd ≠ none
  | _ => False

/-- After such a call the chip holds the contents of the array. -/
theorem call_flushes {d d' : Dev} {f : FlashFile} {c : Call} {r : Result} (h : Refines d f)
    (hv : f.Valid c) (hc : f.Flushes c) (hcall : call d c = some (d', r)) :
    d'.flash = (f.spec c).1.mem := by
  cases c with
  | sync =>
    obtain rfl : spiflashSync d = d' := by
      simpa [call] using congrArg (Option.map Prod.fst) hcall
    exact h.flush.2.1
  | close fd =>
    obtain ⟨p, hp⟩ := Option.ne_none_iff_exists'.mp hc
    obtain ⟨k, hk, -⟩ := h.getFd_of_some hv hp
    have hflash := h.flush.2.1
    simp only [call, spiflashClose, hk, Option.some.injEq, Prod.mk.injEq] at hcall
    rw [← hcall.1]
    simp only [FlashFile.spec, hp]
    exact hflash
  | «open» fd => exact hc.elim
  | lseek fd offset whence => exact hc.elim
  | read fd count => exact hc.elim
  | write fd buf => exact hc.elim

/-- **The device refines a byte array.** Every sequence of valid calls on any descriptors returns,
with the results of the array: each read sees the bytes that were written last, through any
descriptor, and each write returns its count and changes nothing else.  After `sync` and after
`close` the chip itself holds the array. -/
theorem spiflash_refines (flash : ℕ → BitVec 8) (calls : List Call)
    (hvalid : Simulation.ValidRun FlashFile.spec FlashFile.Valid (FlashFile.init flash) calls) :
    ∃ d, Simulation.run call (init flash) calls
        = some (d, (Simulation.specRun FlashFile.spec (FlashFile.init flash) calls).2) ∧
      ∀ pre last, calls = pre ++ [last] →
        (Simulation.specRun FlashFile.spec (FlashFile.init flash) pre).1.Flushes last →
        d.flash = (Simulation.specRun FlashFile.spec (FlashFile.init flash) calls).1.mem := by
  obtain ⟨d, hd, -⟩ := Simulation.simulates call_refines calls _ _ (Refines.init flash) hvalid
  refine ⟨d, hd, ?_⟩
  rintro pre last rfl hflush
  obtain ⟨hpre, hlast, -⟩ := Simulation.validRun_append hvalid
  obtain ⟨d₀, hd₀, h₀⟩ := Simulation.simulates call_refines pre _ _ (Refines.init flash) hpre
  obtain ⟨d', hd', -⟩ := call_refines d₀ _ last h₀ hlast
  have hrun := Simulation.run_append hd₀ [last]
  rw [hd] at hrun
  simp only [Simulation.run, hd', Option.bind_eq_bind, Option.bind_some, Option.pure_def,
    Option.map_some, Option.some.injEq, Prod.mk.injEq] at hrun
  rw [hrun.1, Simulation.specRun_append]
  exact call_flushes h₀ hlast hflush hd'

/-- Two descriptors: what one writes across a sector boundary, the other reads. -/
theorem spiflash_refines_two_descriptors :
    ∃ d, Simulation.run call (init fun _ => 0xFF#8)
        [.open 3, .open 4, .lseek 3 4094 .SEEK_SET, .write 3 [1#8, 2#8, 3#8, 4#8],
          .lseek 4 4095 .SEEK_SET, .read 4 4, .close 3]
      = some (d, [.done, .done, .number 4094, .number 4, .number 4095,
          .bytes [2#8, 3#8, 4#8, 0xFF#8], .done]) ∧ d.flash 4097 = 4#8 := by
  obtain ⟨d, hd, hflush⟩ := spiflash_refines (fun _ => 0xFF#8)
    [.open 3, .open 4, .lseek 3 4094 .SEEK_SET, .write 3 [1#8, 2#8, 3#8, 4#8],
      .lseek 4 4095 .SEEK_SET, .read 4 4, .close 3]
    (by simp [Simulation.ValidRun, FlashFile.Valid, FlashFile.spec, FlashFile.init, FlashFile.seek,
      seekTo])
  refine ⟨d, hd, ?_⟩
  rw [hflush [.open 3, .open 4, .lseek 3 4094 .SEEK_SET, .write 3 [1#8, 2#8, 3#8, 4#8],
    .lseek 4 4095 .SEEK_SET, .read 4 4] (.close 3) rfl
    (by simp [Simulation.specRun, FlashFile.Flushes, FlashFile.spec, FlashFile.init, FlashFile.seek,
      seekTo])]
  rfl

end Filestick.SpiFlashdev
