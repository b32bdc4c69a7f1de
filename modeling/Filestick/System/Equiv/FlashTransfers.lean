import Filestick.System.Flashdisc
import Filestick.System.Equiv.SpiFlashdev

/-!
# Transfers of the flash disc

* `Held`, `sectors`, `Granted`: the sector buffers that a write asks for.
* `turn_of_held`, `turn_fails`, `turn_loaded`: one turn of a write.
* `writeLoopFrom_granted`, `writeLoopFrom_refused`: the loop writes everything if it is granted all
  of its buffers, and fails with `ENOMEM` if not.
* `intflash_reports_iff`: when the status of a transfer can be relied on.
-/

namespace Filestick.Flashdisc

open SpiFlashdev Overlay

/-! ### One turn -/

/-- The buffer has the place of all `n` bytes from `p` on. -/
def Held (d : Dev) (p n : ℕ) : Prop :=
  d.writebuf.isSome ∧ n + p ≤ d.writeBlkEnd ∧ d.writeBlkOffset ≤ p

instance (d : Dev) (p n : ℕ) : Decidable (Held d p n) := inferInstanceAs (Decidable (_ ∧ _))

/-- The sectors that are loaded for `n` bytes from `p` on; one is loaded even for none. -/
def sectors (p n : ℕ) : ℕ := max 1 ((p % 4096 + n + 4095) / 4096)

/-- There is a buffer for every sector that is loaded from the turn `turn` on. -/
def Granted (kmalloc : ℕ → Bool) (turn : ℕ) (d : Dev) (p n : ℕ) : Prop :=
  Held d p n ∨ ∀ j < sectors p n, kmalloc (turn + j) = true

/-- The flash takes addresses of 24 bits. -/
def InChip (p n : ℕ) : Prop := p < 2 ^ 24 ∧ p + n ≤ 2 ^ 24

instance (p n : ℕ) : Decidable (InChip p n) := inferInstanceAs (Decidable (_ ∧ _))

variable {d : Dev} {p : ℕ} {buf : List (BitVec 8)} {kmalloc : ℕ → Bool}

theorem prepareSector_of_held {n : ℕ} (h : Held d p n) (b : Bool) :
    prepareSector d p (n + p) b = (d, .ok ()) := by
  obtain ⟨hsome, hend, hoff⟩ := h
  have hnone : ¬d.writebuf.isNone := by
    rw [Option.isNone_iff_eq_none]
    exact Option.isSome_iff_ne_none.mp hsome
  unfold prepareSector
  rw [if_neg hnone, if_neg (by omega)]

/-- Without the buffer, the sector is loaded. -/
theorem prepareSector_of_not_held {n : ℕ} (h : ¬Held d p n) :
    ∃ d₀ : Dev, d₀.fdList = d.fdList ∧ ∀ b,
      prepareSector d p (n + p) b = spiflashLoadSector d₀ p b := by
  unfold prepareSector
  by_cases hnone : d.writebuf.isNone
  · exact ⟨d, rfl, fun b => if_pos hnone⟩
  · rw [Option.isNone_iff_eq_none] at hnone
    have hsome := Option.isSome_iff_ne_none.mpr hnone
    have hother : n + p > d.writeBlkEnd ∨ p < d.writeBlkOffset := by
      by_contra hin
      exact h ⟨hsome, by omega, by omega⟩
    refine ⟨spiflashWritebuffer d, rfl, fun b => ?_⟩
    rw [if_neg (mt Option.isNone_iff_eq_none.mp hnone), if_pos hother]

/-- **The buffer takes all of the bytes**, and `kmalloc` is not called. -/
theorem turn_of_held (h : Held d p buf.length) (hp : buf.length + p < 2 ^ 32) (b b' : Bool) :
    spiflashWriteToSector d p buf b = spiflashWriteToSector d p buf b' ∧
      (spiflashWriteToSector d p buf b).2 = .ok buf.length := by
  have hadd : (buf.length + p) % 2 ^ 32 = buf.length + p := Nat.mod_eq_of_lt hp
  have hend : ¬buf.length + p > d.writeBlkEnd := Nat.not_lt.mpr h.2.1
  unfold spiflashWriteToSector
  dsimp only
  rw [hadd, prepareSector_of_held h, prepareSector_of_held h]
  dsimp only
  rw [if_neg hend]
  exact ⟨rfl, rfl⟩

/-- **There is no buffer for the sector.** -/
theorem turn_fails (h : ¬Held d p buf.length) (hp : buf.length + p < 2 ^ 32) :
    ∃ d', spiflashWriteToSector d p buf false = (d', .error .enomem) ∧ BufInv d' := by
  have hadd : (buf.length + p) % 2 ^ 32 = buf.length + p := Nat.mod_eq_of_lt hp
  obtain ⟨d₀, -, hprepare⟩ := prepareSector_of_not_held h
  unfold spiflashWriteToSector
  dsimp only
  rw [hadd, hprepare false]
  exact ⟨_, rfl, BufInv.of_none rfl⟩

/-- **The sector is loaded**: as much is written as fits into it, and what comes behind it finds no
buffer. -/
theorem turn_loaded (h : ¬Held d p buf.length) (hchip : InChip p buf.length) :
    ∃ d', spiflashWriteToSector d p buf true = (d', .ok (min buf.length (4096 - p % 4096))) ∧
      (4096 - p % 4096 < buf.length → d'.writebuf = none) := by
  obtain ⟨hp, hn⟩ := hchip
  have hadd : (buf.length + p) % 2 ^ 32 = buf.length + p := Nat.mod_eq_of_lt (by omega)
  obtain ⟨d₀, -, hprepare⟩ := prepareSector_of_not_held h
  have hend : ((p &&& writeOffsetMask) + writeSectorSize) % 2 ^ 32 = p / 4096 * 4096 + 4096 := by
    rw [and_offsetMask (by omega), writeSectorSize]
    omega
  unfold spiflashWriteToSector
  dsimp only
  rw [hadd, hprepare true, spiflashLoadSector, if_pos rfl]
  dsimp only
  rw [hend]
  have hcount : (if buf.length + p > p / 4096 * 4096 + 4096 then
      (2 ^ 32 + (p / 4096 * 4096 + 4096) - p) % 2 ^ 32 else buf.length) =
      min buf.length (4096 - p % 4096) := by
    split <;> omega
  rw [hcount]
  refine ⟨_, rfl, fun hlt => ?_⟩
  rw [if_pos (by omega)]
  rfl

/-! ### The loop -/

theorem sectors_pos (p n : ℕ) : 0 < sectors p n := by
  unfold sectors
  omega

theorem BufInv.setFileptr (h : BufInv d) (k q : ℕ) : BufInv (SpiFlashdev.setFileptr d k q) :=
  ⟨h.length, h.aligned, h.blkEnd, h.bound⟩

theorem fileptr_of_fdList {d d' : Dev} (h : d'.fdList = d.fdList) (k : ℕ) :
    fileptr d' k = fileptr d k := by
  unfold fileptr
  rw [h]

/-- The loop has another turn if its first one leaves something. -/
theorem writeLoopFrom_succ {d' : Dev} {count k turn fuel : ℕ} (hk : fileptr d k = p)
    (h : spiflashWriteToSector d p buf (kmalloc turn) = (d', .ok count))
    (hfds : d'.fdList = d.fdList) :
    writeLoopFrom kmalloc (fuel + 1) turn d k buf =
      let d₂ := setFileptr d' k ((p + count) % 2 ^ 32)
      if (buf.drop count).length ≠ 0 then
        writeLoopFrom kmalloc fuel (turn + 1) d₂ k (buf.drop count)
      else some (d₂, .ok ()) := by
  rw [writeLoopFrom, hk, h]
  dsimp only
  rw [fileptr_of_fdList hfds, hk]

theorem writeLoop_succ {d' : Dev} {count k fuel : ℕ} (hk : fileptr d k = p)
    (h : spiflashWriteToSector d p buf true = (d', .ok count)) (hfds : d'.fdList = d.fdList) :
    writeLoop true (fuel + 1) d k buf =
      let d₂ := setFileptr d' k ((p + count) % 2 ^ 32)
      if (buf.drop count).length ≠ 0 then writeLoop true fuel d₂ k (buf.drop count)
      else some (d₂, .ok ()) := by
  rw [writeLoop, hk, h]
  dsimp only
  rw [fileptr_of_fdList hfds, hk]

theorem InChip.behind {n : ℕ} (h : InChip p n) (hmore : 4096 - p % 4096 < n) :
    InChip (p + (4096 - p % 4096)) (n - (4096 - p % 4096)) := by
  obtain ⟨hp, hn⟩ := h
  constructor <;> omega

theorem sectors_behind {n : ℕ} (hmore : 4096 - p % 4096 < n) :
    sectors p n = sectors (p + (4096 - p % 4096)) (n - (4096 - p % 4096)) + 1 := by
  unfold sectors
  omega

/-- What is asked for once the first sector is done. -/
theorem granted_behind {d₂ : Dev} {turn n : ℕ} (hnone : d₂.writebuf = none) (hheld : ¬Held d p n)
    (hgrant : kmalloc turn = true) (hmore : 4096 - p % 4096 < n) :
    Granted kmalloc (turn + 1) d₂ (p + (4096 - p % 4096)) (n - (4096 - p % 4096)) ↔
      Granted kmalloc turn d p n := by
  have hheld₂ : ¬Held d₂ (p + (4096 - p % 4096)) (n - (4096 - p % 4096)) := by
    rintro ⟨hsome, -⟩
    rw [hnone] at hsome
    cases hsome
  unfold Granted
  rw [or_iff_right hheld, or_iff_right hheld₂, sectors_behind hmore]
  constructor
  · intro hall j hj
    cases j with
    | zero => exact hgrant
    | succ j =>
      rw [Nat.add_comm j, ← Nat.add_assoc]
      exact hall j (by omega)
  · intro hall j hj
    rw [Nat.add_assoc, Nat.add_comm 1]
    exact hall (j + 1) (by omega)

/-- A turn that writes all there is ends the loop. -/
theorem writeLoopFrom_last {d' : Dev} {k turn fuel : ℕ} (hk : fileptr d k = p)
    (h : spiflashWriteToSector d p buf (kmalloc turn) = (d', .ok buf.length))
    (h' : spiflashWriteToSector d p buf true = (d', .ok buf.length)) (hfds : d'.fdList = d.fdList) :
    writeLoopFrom kmalloc (fuel + 1) turn d k buf = writeLoop true (fuel + 1) d k buf := by
  have hdone : ¬(buf.drop buf.length).length ≠ 0 := by
    rw [List.drop_length]
    exact not_not_intro rfl
  rw [writeLoopFrom_succ hk h hfds, writeLoop_succ hk h' hfds]
  dsimp only
  rw [if_neg hdone, if_neg hdone]

/-- The last sector asks for one buffer. -/
theorem granted_last {turn n : ℕ} (hgrant : kmalloc turn = true) (hlast : n ≤ 4096 - p % 4096) :
    Granted kmalloc turn d p n := by
  right
  intro j hj
  have hone : j = 0 := by
    unfold sectors at hj
    omega
  rw [hone, Nat.add_zero, hgrant]

/-- The first buffer that is asked for. -/
theorem Granted.first {turn n : ℕ} (h : Granted kmalloc turn d p n) (hheld : ¬Held d p n) :
    kmalloc turn = true := by
  have hfirst := h.resolve_left hheld 0 (sectors_pos p n)
  rwa [Nat.add_zero] at hfirst

/-- **The loop with buffers that may be refused**: it is the loop with all of them if those that it
asks for are granted, and fails otherwise. -/
theorem writeLoopFrom_spec {k : ℕ} (fuel : ℕ) :
    ∀ (turn : ℕ) (d : Dev) (buf : List (BitVec 8)) (p : ℕ), buf.length < fuel → BufInv d →
      k < d.fdList.length → fileptr d k = p → InChip p buf.length →
      (Granted kmalloc turn d p buf.length →
        writeLoopFrom kmalloc fuel turn d k buf = writeLoop true fuel d k buf) ∧
      (¬Granted kmalloc turn d p buf.length → ∃ d',
        writeLoopFrom kmalloc fuel turn d k buf = some (d', .error .enomem) ∧ BufInv d') := by
  induction fuel with
  | zero =>
    intro turn d buf p hfuel
    exact absurd hfuel (Nat.not_lt_zero _)
  | succ fuel ih =>
    intro turn d buf p hfuel hinv hk hp hchip
    have hsum : buf.length + p < 2 ^ 32 := by
      have := hchip.2
      omega
    obtain ⟨d', count, hturn, hle, hpos, hinv', -, hfds⟩ :=
      writeToSector_spec hinv hchip.1 (by rw [Nat.add_comm]; exact hchip.2)
    by_cases hheld : Held d p buf.length
    · -- the one turn of the loop
      obtain ⟨hsame, hall⟩ := turn_of_held hheld hsum true (kmalloc turn)
      rw [hturn] at hall
      obtain rfl : count = buf.length := by simpa using hall
      exact ⟨fun _ => writeLoopFrom_last hp (hsame.symm.trans hturn) hturn hfds,
        fun hrefused => absurd (Or.inl hheld) hrefused⟩
    cases hgrant : kmalloc turn with
    | false =>
      obtain ⟨d₀, hfails, hinv₀⟩ := turn_fails hheld hsum
      constructor
      · intro hgranted
        rw [hgranted.first hheld] at hgrant
        cases hgrant
      · intro _
        refine ⟨d₀, ?_, hinv₀⟩
        rw [writeLoopFrom, hp, hgrant, hfails]
    | true =>
      obtain ⟨d₁, hloaded, hnone⟩ := turn_loaded hheld hchip
      rw [hturn] at hloaded
      obtain ⟨rfl, hok⟩ := Prod.mk.inj hloaded
      obtain rfl := Except.ok.inj hok
      have hturn' := hturn
      rw [← hgrant] at hturn'
      rcases Nat.lt_or_ge (4096 - p % 4096) buf.length with hmore | hlast
      · -- more sectors come behind this one
        rw [writeLoopFrom_succ hp hturn' hfds, writeLoop_succ hp hturn hfds]
        dsimp only
        have hmin : min buf.length (4096 - p % 4096) = 4096 - p % 4096 := min_eq_right hmore.le
        rw [hmin]
        have hnone₂ : (setFileptr d' k ((p + (4096 - p % 4096)) % 2 ^ 32)).writebuf = none :=
          hnone hmore
        have hfits : (p + (4096 - p % 4096)) % 2 ^ 32 = p + (4096 - p % 4096) :=
          Nat.mod_eq_of_lt (by omega)
        have hlen : (buf.drop (4096 - p % 4096)).length = buf.length - (4096 - p % 4096) :=
          List.length_drop
        have hk' : k < d'.fdList.length := by
          rw [hfds]
          exact hk
        have hk₂ : k < (setFileptr d' k (p + (4096 - p % 4096))).fdList.length := by
          rw [setFileptr, List.length_modify]
          exact hk'
        rw [hfits] at hnone₂ ⊢
        obtain ⟨hyes, hno⟩ := ih (turn + 1) (setFileptr d' k (p + (4096 - p % 4096)))
          (buf.drop (4096 - p % 4096)) (p + (4096 - p % 4096)) (by omega) (BufInv.of_none hnone₂)
          hk₂ (fileptr_setFileptr hk' _) (by rw [hlen]; exact hchip.behind hmore)
        rw [hlen, granted_behind hnone₂ hheld hgrant hmore] at hyes hno
        rw [if_pos (by omega), if_pos (by omega)]
        exact ⟨hyes, hno⟩
      · rw [min_eq_left hlast] at hturn hturn'
        exact ⟨fun _ => writeLoopFrom_last hp hturn' hturn hfds,
          fun hrefused => absurd (granted_last hgrant hlast) hrefused⟩

/-! ### Any address -/

theorem loadSector_end {b : Bool} {d' : Dev} (hp : p < 2 ^ 32)
    (h : spiflashLoadSector d p b = (d', .ok ())) : 0 < (2 ^ 32 + d'.writeBlkEnd - p) % 2 ^ 32 := by
  unfold spiflashLoadSector at h
  cases b with
  | false =>
    rw [if_neg (by decide)] at h
    obtain ⟨-, herror⟩ := Prod.mk.inj h
    cases herror
  | true =>
    rw [if_pos rfl] at h
    obtain ⟨rfl, -⟩ := Prod.mk.inj h
    dsimp only
    rw [and_offsetMask hp, writeSectorSize]
    omega

/-- What does not go into the sector leaves something that does. -/
theorem prepareSector_end {b : Bool} {d' : Dev} {e : ℕ} (hp : p < 2 ^ 32)
    (h : prepareSector d p e b = (d', .ok ())) (he : e > d'.writeBlkEnd) :
    0 < (2 ^ 32 + d'.writeBlkEnd - p) % 2 ^ 32 := by
  unfold prepareSector at h
  split_ifs at h with hnone hother
  · exact loadSector_end hp h
  · exact loadSector_end hp h
  · obtain ⟨rfl, -⟩ := Prod.mk.inj h
    exact absurd (Or.inl he) hother

/-- A turn that succeeds writes something if there is something to write. -/
theorem turn_pos {b : Bool} {d' : Dev} {count : ℕ} (hp : p < 2 ^ 32) (hlen : 0 < buf.length)
    (h : spiflashWriteToSector d p buf b = (d', .ok count)) : 0 < count := by
  unfold spiflashWriteToSector at h
  dsimp only at h
  obtain ⟨d₁, r, hprepare⟩ :
      ∃ d₁ r, prepareSector d p ((buf.length + p) % 2 ^ 32) b = (d₁, r) := ⟨_, _, rfl⟩
  rw [hprepare] at h
  cases r with
  | error e =>
    obtain ⟨-, herror⟩ := Prod.mk.inj h
    cases herror
  | ok u =>
    obtain ⟨-, hcount⟩ := Prod.mk.inj h
    obtain rfl := Except.ok.inj hcount
    split_ifs with hend
    · exact prepareSector_end hp hprepare hend
    · exact hlen

theorem fileptr_setFileptr_lt {k q : ℕ} (hq : q < 2 ^ 32) :
    fileptr (setFileptr d k q) k < 2 ^ 32 := by
  by_cases hk : k < d.fdList.length
  · rw [fileptr_setFileptr hk]
    exact hq
  · have hdefault : fileptr (setFileptr d k q) k = 0 := by
      unfold fileptr setFileptr
      rw [List.getD_eq_default _ _ (by rw [List.length_modify]; exact not_lt.mp hk)]
    rw [hdefault]
    exact Nat.two_pow_pos 32

/-- The loop comes to an end. -/
theorem writeLoopFrom_ends {k : ℕ} (fuel : ℕ) :
    ∀ (turn : ℕ) (d : Dev) (buf : List (BitVec 8)), buf.length < fuel → fileptr d k < 2 ^ 32 →
      ∃ r, writeLoopFrom kmalloc fuel turn d k buf = some r := by
  induction fuel with
  | zero =>
    intro turn d buf hfuel
    exact absurd hfuel (Nat.not_lt_zero _)
  | succ fuel ih =>
    intro turn d buf hfuel hp
    obtain ⟨d', r, hturn⟩ :
        ∃ d' r, spiflashWriteToSector d (fileptr d k) buf (kmalloc turn) = (d', r) := ⟨_, _, rfl⟩
    rw [writeLoopFrom, hturn]
    cases r with
    | error e => exact ⟨_, rfl⟩
    | ok count =>
      dsimp only
      split_ifs with hrest
      · have hlen : (buf.drop count).length = buf.length - count := List.length_drop
        have hpos := turn_pos hp (by omega) hturn
        exact ih _ _ _ (by omega) (fileptr_setFileptr_lt (Nat.mod_lt _ (Nat.two_pow_pos 32)))
      · exact ⟨_, rfl⟩

/-! ### Transfers -/

/-- The byte address of a sector. -/
def address (sector : BitVec 32) : ℕ := (fsStart + sector * sectorSize).toNat

/-- The transfer is begun: the disc has a descriptor that is open on the device, and the position
that `SYS_lseek` returns is not negative. -/
def Begun (flashFd : Option ℕ) (d : Dev) (sector : BitVec 32) : Prop :=
  ∃ fd ∈ flashFd, (getFd d.fdList fd).isSome ∧ address sector < 2 ^ 31

/-- `RES_OK` comes with a `SYS_write` that has taken all `n` bytes, and with their contents at
their addresses in the chip or its buffer. -/
def WriteReported (d : Dev) (p n : ℕ) (buf : ℕ → BitVec 8) (r : Transfer ℕ) : Prop :=
  r.status = .ok → r.bytes = some (.ok n) ∧ InChip p n ∧
    view r.dev = overlay (view d) p ((List.range n).map buf)

/-- `RES_OK` comes with a `SYS_read` that has read the `n` bytes at their addresses. -/
def ReadReported (d : Dev) (p n : ℕ) (r : Transfer (List (BitVec 8))) : Prop :=
  r.status = .ok → InChip p n ∧ r.bytes = some (.ok (slice (view d) p n))

theorem getFd_setFileptr (l : List OpenFD) (fd k q : ℕ) :
    getFd (l.modify k fun e => { e with fileptr := q }) fd = getFd l fd := by
  induction l generalizing k with
  | nil => rw [List.modify_nil]
  | cons e l ih =>
    cases k with
    | zero => rw [List.modify_zero_cons, getFd_cons, getFd_cons]
    | succ k => rw [List.modify_succ_cons, getFd_cons, getFd_cons, ih]

theorem offT_neg_iff {q : ℕ} (hq : q < 2 ^ 32) : offT q < 0 ↔ 2 ^ 31 ≤ q := by
  unfold offT
  rw [BitVec.toInt_eq_toNat_cond, BitVec.toNat_ofNat, Nat.mod_eq_of_lt hq]
  split_ifs <;> omega

/-- The seek to a sector. -/
theorem lseek_sector {fd k : ℕ} (hk : getFd d.fdList fd = some k) (sector : BitVec 32) :
    spiflashLseek d fd (fsStart + sector * sectorSize).toNat .SEEK_SET =
      (setFileptr d k (address sector), .ok (address sector)) := by
  have hlt : address sector < 2 ^ 32 := BitVec.isLt _
  have hseek : seekTo (fileptr d k) (address sector) .SEEK_SET = some (address sector) := by
    unfold seekTo
    dsimp only
    congr 1
    omega
  unfold spiflashLseek
  rw [hk]
  dsimp only
  rw [← address, hseek]

theorem bytecount_of_inChip {count : BitVec 32} (h : InChip p (512 * count.toNat)) :
    (count * sectorSize).toNat = 512 * count.toNat := by
  have := h.2
  rw [BitVec.toNat_mul, sectorSize]
  simp only [BitVec.toNat_ofNat]
  omega

/-- A transfer that is not begun does not return `RES_OK`. -/
theorem not_ok_of_not_begun {flashFd : Option ℕ} {sector : BitVec 32}
    (h : ¬Begun flashFd d sector) (buf : ℕ → BitVec 8) (count : BitVec 32) :
    (intflashRead flashFd d sector count).status ≠ .ok ∧
      ∃ r, intflashWrite kmalloc flashFd d buf sector count = some r ∧ r.status ≠ .ok := by
  unfold intflashRead intflashWrite
  cases flashFd with
  | none => exact ⟨by simp, _, rfl, by simp⟩
  | some fd =>
    dsimp only
    cases hk : getFd d.fdList fd with
    | none =>
      unfold spiflashLseek
      rw [hk]
      exact ⟨by simp, _, rfl, by simp⟩
    | some k =>
      have hbig : 2 ^ 31 ≤ address sector := by
        by_contra hlt
        apply h
        exact ⟨fd, rfl, by rw [hk]; rfl, by omega⟩
      have hneg : offT (address sector) < 0 := (offT_neg_iff (BitVec.isLt _)).mpr hbig
      rw [lseek_sector hk]
      dsimp only
      rw [if_pos hneg, if_pos hneg]
      exact ⟨by simp, _, rfl, by simp⟩

/-- A transfer that is begun hands over to the device, and returns `RES_OK`. -/
theorem transfer_of_begun {fd k : ℕ} {sector : BitVec 32} (hk : getFd d.fdList fd = some k)
    (hlt : address sector < 2 ^ 31) (buf : ℕ → BitVec 8) (count : BitVec 32) :
    let d₁ := setFileptr d k (address sector)
    let n := (count * sectorSize).toNat
    intflashRead (some fd) d sector count =
        ⟨.ok, some (spiflashRead d₁ fd n).2, (spiflashRead d₁ fd n).1⟩ ∧
      intflashWrite kmalloc (some fd) d buf sector count =
        (writeLoopFrom kmalloc (n + 1) 0 d₁ k ((List.range n).map buf)).map fun r =>
          ⟨.ok, some (r.2.map fun _ => n), r.1⟩ := by
  have hnonneg : ¬offT (address sector) < 0 := by
    rw [offT_neg_iff (by omega)]
    omega
  have hpos : offT (address sector) > -1 := by omega
  have hk₁ : getFd (setFileptr d k (address sector)).fdList fd = some k := by
    rw [setFileptr, getFd_setFileptr, hk]
  unfold intflashRead intflashWrite sysWrite
  dsimp only
  rw [lseek_sector hk]
  dsimp only
  rw [if_neg hnonneg, if_neg hnonneg, if_pos hpos, hk₁]
  dsimp only
  rw [Option.map_map, List.length_map, List.length_range]
  exact ⟨rfl, rfl⟩

/-- A begun read gives the bytes of the chip and the buffer. -/
theorem spiflashRead_begun {fd k p : ℕ} (hd : BufInv d) (hk : getFd d.fdList fd = some k) (n : ℕ) :
    (spiflashRead (setFileptr d k p) fd n).2 = .ok (slice (view d) p n) := by
  have hk₁ : getFd (setFileptr d k p).fdList fd = some k := by
    rw [setFileptr, getFd_setFileptr, hk]
  have hptr := fileptr_setFileptr (getFd_lt hk) p
  unfold spiflashRead
  rw [hk₁]
  dsimp only
  split_ifs with hsome
  · -- what is in the buffer is written out first
    have hflash : (spiflashWritebuffer (setFileptr d k p)).flash = view d :=
      writebuffer_flash (d := setFileptr d k p) (BufInv.setFileptr hd k p) hsome
    have hptr₁ : fileptr (spiflashWritebuffer (setFileptr d k p)) k = p := hptr
    rw [hflash, hptr₁]
    rfl
  · have hnone : d.writebuf = none := Option.not_isSome_iff_eq_none.mp hsome
    rw [hptr, view_of_none hnone]
    rfl

/-- A write in the chip: its result, and what the device holds then. -/
theorem writeLoopFrom_begun {k p n : ℕ} (hd : BufInv d) (hk : k < d.fdList.length)
    (hchip : InChip p n) (buf : ℕ → BitVec 8) :
    ∃ r, writeLoopFrom kmalloc (n + 1) 0 (setFileptr d k p) k ((List.range n).map buf) = some r ∧
      BufInv r.1 ∧
      (Granted kmalloc 0 d p n → r.2 = .ok () ∧
        view r.1 = overlay (view d) p ((List.range n).map buf)) ∧
      (¬Granted kmalloc 0 d p n → r.2 = .error .enomem) := by
  have hlen : ((List.range n).map buf).length = n := by
    rw [List.length_map, List.length_range]
  have hk₁ : k < (setFileptr d k p).fdList.length := by
    rw [setFileptr, List.length_modify]
    exact hk
  have hgranted : Granted kmalloc 0 (setFileptr d k p) p n ↔ Granted kmalloc 0 d p n := Iff.rfl
  have hspec := @writeLoopFrom_spec kmalloc k (n + 1) 0 (setFileptr d k p) ((List.range n).map buf)
    p (by omega) (BufInv.setFileptr hd k p) hk₁ (fileptr_setFileptr hk p)
    (by rw [hlen]; exact hchip)
  rw [hlen, hgranted] at hspec
  by_cases hall : Granted kmalloc 0 d p n
  · obtain ⟨d', hd', hinv', hview, -⟩ := @writeLoop_spec k (n + 1) (setFileptr d k p)
      ((List.range n).map buf) p (by omega) (BufInv.setFileptr hd k p) hk₁ (fileptr_setFileptr hk p)
      hchip.1 (by rw [hlen, Nat.add_comm]; exact hchip.2)
    refine ⟨(d', .ok ()), (hspec.1 hall).trans hd', hinv', fun _ => ⟨rfl, hview⟩, ?_⟩
    exact fun hrefused => absurd hall hrefused
  · obtain ⟨d', hd', hinv'⟩ := hspec.2 hall
    exact ⟨(d', .error .enomem), hd', hinv', fun h => absurd h hall, fun _ => rfl⟩

/-- **The status of a transfer can be relied on** if and only if it is not begun, or it stays in the
chip and, for a write, all of the sector buffers it needs are granted. -/
theorem intflash_reports_iff (kmalloc : ℕ → Bool) (flashFd : Option ℕ) {d : Dev} (hd : BufInv d)
    (buf : ℕ → BitVec 8) (sector count : BitVec 32) :
    let p := address sector
    let n := 512 * count.toNat
    (∃ r, intflashWrite kmalloc flashFd d buf sector count = some r ∧
        (WriteReported d p n buf r ↔
          (Begun flashFd d sector → InChip p n ∧ Granted kmalloc 0 d p n))) ∧
      (ReadReported d p n (intflashRead flashFd d sector count) ↔
        (Begun flashFd d sector → InChip p n)) := by
  dsimp only
  by_cases hbegun : Begun flashFd d sector
  · have hstarted := hbegun
    obtain ⟨fd, rfl, hsome, hlt⟩ := hstarted
    obtain ⟨k, hk⟩ := Option.isSome_iff_exists.mp hsome
    obtain ⟨hread, hwrite⟩ := @transfer_of_begun d kmalloc fd k sector hk hlt buf count
    rw [hread, hwrite]
    constructor
    · by_cases hchip : InChip (address sector) (512 * count.toNat)
      · obtain ⟨r, hr, -, hyes, hno⟩ :=
          @writeLoopFrom_begun d kmalloc k _ _ hd (getFd_lt hk) hchip buf
        rw [bytecount_of_inChip hchip, hr]
        refine ⟨_, rfl, ?_⟩
        constructor
        · intro hreported _
          refine ⟨hchip, ?_⟩
          by_contra hrefused
          have hbytes := (hreported rfl).1
          dsimp only at hbytes
          rw [hno hrefused] at hbytes
          cases hbytes
        · intro hall _
          obtain ⟨hok, hview⟩ := hyes (hall hbegun).2
          dsimp only
          rw [hok]
          exact ⟨rfl, hchip, hview⟩
      · obtain ⟨r, hr⟩ := @writeLoopFrom_ends kmalloc k ((count * sectorSize).toNat + 1) 0
          (setFileptr d k (address sector)) ((List.range (count * sectorSize).toNat).map buf)
          (by rw [List.length_map, List.length_range]; exact Nat.lt_succ_self _)
          (fileptr_setFileptr_lt (BitVec.isLt _))
        rw [hr]
        refine ⟨_, rfl, iff_of_false ?_ ?_⟩
        · intro hreported
          exact hchip (hreported rfl).2.1
        · intro hall
          exact hchip (hall hbegun).1
    · constructor
      · intro hreported _
        exact (hreported rfl).1
      · intro hchip _
        rw [spiflashRead_begun hd hk, bytecount_of_inChip (hchip hbegun)]
        exact ⟨hchip hbegun, rfl⟩
  · obtain ⟨hread, r, hr, hwrite⟩ := @not_ok_of_not_begun d kmalloc _ _ hbegun buf count
    refine ⟨⟨r, hr, ?_⟩, ?_⟩
    · exact iff_of_true (fun hok => absurd hok hwrite) fun h => absurd h hbegun
    · exact iff_of_true (fun hok => absurd hok hread) fun h => absurd h hbegun

/-- A device with an erased chip, on which the disc has the descriptor 5. -/
def erasedDev : Dev := ⟨fun _ => 0xFF#8, [⟨5, 0⟩, ⟨0, 0⟩, ⟨0, 0⟩, ⟨0, 0⟩], none, 0, 0⟩

/-- Two blocks on both sides of the end of an erase sector, with a buffer for each of them. -/
theorem granted_write_reported :
    ∃ r, intflashWrite (fun _ => true) (some 5) erasedDev (BitVec.ofNat 8) 7#32 2#32 = some r ∧
      WriteReported erasedDev (address 7#32) 1024 (BitVec.ofNat 8) r := by
  obtain ⟨⟨r, hr, hreported⟩, -⟩ := intflash_reports_iff (fun _ => true) (some 5)
    (BufInv.of_none (d := erasedDev) rfl) (BitVec.ofNat 8) 7#32 2#32
  exact ⟨r, hr, hreported.mpr fun _ => ⟨by decide, Or.inr fun _ _ => rfl⟩⟩

/-- **A write that fails with `RES_OK`**: there is no buffer for the second block. -/
theorem refused_write_ok :
    ∃ r, intflashWrite (fun t => t == 0) (some 5) erasedDev (BitVec.ofNat 8) 7#32 2#32 = some r ∧
      r.status = .ok ∧ r.bytes = some (.error .enomem) ∧
      ¬WriteReported erasedDev (address 7#32) 1024 (BitVec.ofNat 8) r := by
  have hrun : (intflashWrite (fun t => t == 0) (some 5) erasedDev (BitVec.ofNat 8) 7#32 2#32).map
      (fun r => (r.status, r.bytes)) = some (.ok, some (.error .enomem)) := by decide +kernel
  obtain ⟨r, hr, hresult⟩ := Option.map_eq_some_iff.mp hrun
  obtain ⟨hok, hbytes⟩ := Prod.mk.inj hresult
  refine ⟨r, hr, hok, hbytes, ?_⟩
  intro hreported
  have hall := (hreported hok).1
  rw [hbytes] at hall
  cases hall

end Filestick.Flashdisc
