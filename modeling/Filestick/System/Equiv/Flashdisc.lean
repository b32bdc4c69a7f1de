import Filestick.System.Equiv.Fd

/-!
# The flash disc and its descriptor

The flash disc keeps its descriptor in the table that user programs open and close descriptors of.
`FlashBound` says that the entry is the flash's; it holds as long as no program closes that number
(`flashBound_run`), and `closedUnderDisc` is a run in which one does.
-/

namespace Filestick.FdTable

/-- The descriptor of the flash disc is in use, with the functions of the SPI flash. -/
def FlashBound (s : Sys) : Prop :=
  ∀ fd ∈ s.flashFd, (s.fdtable fd).flags ≠ 0#32 ∧ (s.fdtable fd).fdfunc = some .spiflash

instance (s : Sys) : Decidable (FlashBound s) := inferInstanceAs (Decidable (∀ fd ∈ s.flashFd, _))

/-- The entries in use are as they were. -/
def KeepsUsed (s s' : Sys) : Prop := ∀ j, (s.fdtable j).flags ≠ 0#32 → s'.fdtable j = s.fdtable j

theorem KeepsUsed.refl (s : Sys) : KeepsUsed s s := fun _ _ => rfl

/-- Opening changes no entry in use. -/
theorem OpenResult.keepsUsed {s s' : Sys} {r : Except Errno Fd} (h : OpenResult s s' r) :
    KeepsUsed s s' ∧ s'.flashFd = s.flashFd := by
  cases h with
  | full _ hs => exact hs ▸ ⟨KeepsUsed.refl _, rfl⟩
  | @failed i e hfree hs =>
    subst hs
    refine ⟨fun j hj => ?_, rfl⟩
    have hne : j ≠ i := by
      rintro rfl
      exact hj (firstFree_eq_some hfree).1
    simp [Sys.set, Function.update_of_ne hne]
  | @opened i f flags hfree hflags hfdtable hflash hflashFd =>
    refine ⟨fun j hj => ?_, hflashFd⟩
    have hne : j ≠ i := by
      rintro rfl
      exact hj (firstFree_eq_some hfree).1
    rw [hfdtable, Function.update_of_ne hne]

/-- What keeps the entries in use and the number keeps the entry of the disc. -/
theorem FlashBound.keep {s s' : Sys} (h : FlashBound s) (hkeep : KeepsUsed s s')
    (hfd : s'.flashFd = s.flashFd) : FlashBound s' := by
  intro fd hmem
  rw [hfd] at hmem
  rw [hkeep fd (h fd hmem).1]
  exact h fd hmem

/-- A device that was opened has its own functions. -/
theorem openDevice_fdfunc {s s' : Sys} {devname : List Char} {flags : BitVec 32}
    {f : FDfunction} {fd : Fd}
    (hlookup : openTable.lookup devname = some f) (h : openDevice s devname flags = (s', .ok fd)) :
    (s'.fdtable fd).flags ≠ 0#32 ∧ (s'.fdtable fd).fdfunc = some f := by
  unfold openDevice at h
  cases halloc : fdAlloc s with
  | none => simp [halloc] at h
  | some r =>
    obtain ⟨i, s1⟩ := r
    have hi : (s1.fdtable i).flags = flagAllocated := by
      unfold fdAlloc at halloc
      obtain ⟨j, hj, heq⟩ := Option.map_eq_some_iff.mp halloc
      obtain ⟨rfl, rfl⟩ := Prod.mk.inj heq
      simp
    simp only [halloc, hlookup] at h
    obtain ⟨e, he⟩ | ⟨flash, hok, -⟩ := openDeviceImpl_cases s1 i f
    · simp [he] at h
    · simp only [hok, Prod.mk.injEq, Except.ok.injEq] at h
      obtain ⟨rfl, rfl⟩ := h
      refine ⟨?_, by simp [Sys.set]⟩
      simp only [Sys.set, Function.update_self, hi]
      exact flagAllocated_or_ne_zero flags

/-- `intflash_init` binds the disc to the flash. -/
theorem intflashInit_spec {s : Sys} (h : FlashBound s) :
    FlashBound (intflashInit s) ∧ KeepsUsed s (intflashInit s) := by
  unfold intflashInit
  cases hfd : s.flashFd with
  | some fd => exact ⟨h, KeepsUsed.refl s⟩
  | none =>
    have hres := openDevice_result s "spiflash".toList 2#32
    simp only
    split
    · next s' fd heq =>
      rw [heq] at hres
      refine ⟨fun fd' hmem => ?_, hres.keepsUsed.1⟩
      obtain rfl : fd = fd' := by simpa using hmem
      have hlookup : openTable.lookup "spiflash".toList = some .spiflash := by decide
      have hopened := openDevice_fdfunc hlookup heq
      exact hopened
    · next s' e heq =>
      rw [heq] at hres
      exact ⟨fun fd' hmem => by simp at hmem, hres.keepsUsed.1⟩

/-- `fileio_open`, also when `f_open` initialises the flash disc. -/
theorem fileioOpen_flashBound {s : Sys} (h : FlashBound s) (path : List Char) (flags : BitVec 32)
    (init : Bool) (res : FResult) : FlashBound (fileioOpen s path flags (discOpen init res)).1 := by
  unfold fileioOpen fdAlloc
  cases hfree : firstFree s.fdtable with
  | none => exact h
  | some i =>
    have hi := (firstFree_eq_some hfree).1
    simp only [Option.map_some]
    set s1 := (s.set i { s.fdtable i with flags := flagAllocated, fd := i.val }).set i
      { (s.set i { s.fdtable i with flags := flagAllocated, fd := i.val }).fdtable i with
        fdfunc := some .fileio } with hs1
    have hslot : s1.fdtable i = ⟨flagAllocated, some .fileio, (s.fdtable i).data, i.val⟩ := by
      simp [hs1]
    have h1 : FlashBound s1 := by
      refine h.keep (fun j hj => ?_) (by simp [hs1])
      have hne : j ≠ i := by
        rintro rfl
        exact hj hi
      simp [hs1, Sys.set, Function.update_of_ne hne]
    -- the entry of the file is in use while `f_open` may open the flash
    have h2 : FlashBound (if init then intflashInit s1 else s1) ∧
        (if init then intflashInit s1 else s1).fdtable i = s1.fdtable i := by
      cases init with
      | false => exact ⟨h1, rfl⟩
      | true =>
        obtain ⟨hb, hk⟩ := intflashInit_spec h1
        have hused : (s1.fdtable i).flags ≠ 0#32 := by
          rw [hslot]
          exact (by decide : flagAllocated ≠ 0#32)
        exact ⟨hb, hk i hused⟩
    simp only [discOpen]
    generalize (if init then intflashInit s1 else s1) = s2 at h2
    cases fatfsToErrno res with
    | ok u => exact h2.1
    | error e =>
      intro fd hmem
      have hfd := h2.1 fd hmem
      have hne : fd ≠ i := by
        rintro rfl
        rw [h2.2, hslot] at hfd
        cases hfd.2
      simpa [fdDealloc, Sys.set, Function.update_of_ne hne] using hfd

/-- Closing another descriptor keeps the entry of the disc. -/
theorem CloseResult.flashBound {s s' : Sys} {fd : Fd} (hr : CloseResult s s' fd) (h : FlashBound s)
    (hne : ∀ f ∈ s.flashFd, f ≠ fd) : FlashBound s' := by
  cases hr with
  | kept hs => exact hs ▸ h
  | closed _ _ hfdtable _ hflashFd =>
    intro f hmem
    rw [hflashFd] at hmem
    rw [hfdtable, Function.update_of_ne (hne f hmem)]
    exact h f hmem

/-- A user program closes neither the number of the disc nor the one past the table. -/
def Spares (o : Option Sys) : DiscCall → Prop
  | .close fd _ => fd ≠ 16 ∧ ∀ s ∈ o, ∀ f ∈ s.flashFd, fd ≠ f.val
  | _ => True

instance (o : Option Sys) : ∀ c : DiscCall, Decidable (Spares o c)
  | .close fd _ => inferInstanceAs (Decidable (fd ≠ 16 ∧ ∀ s ∈ o, ∀ f ∈ s.flashFd, fd ≠ f.val))
  | .mount => isTrue trivial
  | .unmount _ => isTrue trivial
  | .open .. => isTrue trivial

/-- One call. -/
theorem flashBound_step {s : Sys} (h : FlashBound s) {c : DiscCall} (hc : Spares (some s) c) :
    ∃ s', c.run s = some s' ∧ FlashBound s' := by
  cases c with
  | mount => exact ⟨_, rfl, (intflashInit_spec h).1⟩
  | unmount res =>
    refine ⟨_, rfl, ?_⟩
    unfold intflashRelease
    cases s.flashFd <;> exact fun fd hmem => by simp at hmem
  | «open» pathname flags init res =>
    refine ⟨_, rfl, ?_⟩
    unfold sysOpen
    split
    · obtain ⟨hk, hfd⟩ := (openDevice_result s (pathname.drop 5) flags).keepsUsed
      exact h.keep hk hfd
    · exact fileioOpen_flashBound h pathname flags init res
  | close fd res =>
    obtain ⟨h16, hfd⟩ := hc
    by_cases hbad : 16 < fd ∨ fd < 0
    · exact ⟨s, by simp [DiscCall.run, sysClose, hbad], h⟩
    · have hlt : fd.toNat < 16 := by omega
      refine ⟨(closeFd s ⟨fd.toNat, hlt⟩ res).1, by simp [DiscCall.run, sysClose, hbad, hlt], ?_⟩
      refine (closeFd_result s ⟨fd.toNat, hlt⟩ res).flashBound h fun f hmem heq => ?_
      apply hfd s rfl f hmem
      rw [heq]
      simp only
      omega

/-- **The flash disc talks to the flash** in every run of mounts, unmounts and calls of user
programs in which no program closes the descriptor number that the disc holds, or the number past
the table. -/
theorem flashBound_run (flash : ℕ → BitVec 8) (calls : List DiscCall)
    (hcalls : Machine.StepsMeet DiscCall.step Spares (some (boot flash)) calls) :
    ∃ s, Machine.run DiscCall.step (some (boot flash)) calls = some s ∧ FlashBound s ∧
      ∀ f ∈ intflashDevice s, f = .spiflash := by
  have hrun : ∃ s, Machine.run DiscCall.step (some (boot flash)) calls = some s ∧ FlashBound s := by
    refine Machine.run_invariant (I := fun o => ∃ s, o = some s ∧ FlashBound s) ?_ calls _ ?_ hcalls
    · rintro o c ⟨s, rfl, hs⟩ hc
      exact flashBound_step hs hc
    · refine ⟨_, rfl, ?_⟩
      rw [boot_eq]
      exact fun fd hmem => by simp at hmem
  obtain ⟨s, hs, hb⟩ := hrun
  refine ⟨s, hs, hb, fun f hmem => ?_⟩
  obtain ⟨fd, hfd, hf⟩ := Option.bind_eq_some_iff.mp hmem
  rw [sysDevice, if_pos (hb fd hfd).1, (hb fd hfd).2] at hf
  exact (Option.some.inj hf).symm

/-- The disc is mounted, and the lamp is opened and closed beside it. -/
def besideDisc : List DiscCall :=
  [.mount, .open "/dev/rgbled".toList 1#32 false .FR_OK, .close 4 .FR_OK]

theorem besideDisc_flashBound :
    ∃ s, Machine.run DiscCall.step (some (boot fun _ => 0#8)) besideDisc = some s ∧ FlashBound s ∧
      ∀ f ∈ intflashDevice s, f = .spiflash :=
  flashBound_run (fun _ => 0#8) besideDisc (by decide +kernel)

/-- The disc is mounted, a program closes its descriptor, and opens the lamp. -/
def closedUnderDisc : List DiscCall :=
  [.mount, .close 3 .FR_OK, .open "/dev/rgbled".toList 1#32 false .FR_OK]

/-- The disc now writes to the lamp. -/
theorem closedUnderDisc_reaches_led :
    (Machine.run DiscCall.step (some (boot fun _ => 0#8)) closedUnderDisc).map
        (fun s => (s.flashFd, decide (FlashBound s), intflashDevice s))
      = some (some 3, false, some .led) := by
  decide +kernel

end Filestick.FdTable
