import Filestick.System.Equiv.Flashdisc

/-!
# Descriptors that are given back

A program opens a path and closes the descriptor again, any number of times.  Every device but the
console has a close function, and only then does `SYS_close` free the entry (`closeFd_frees_iff`).

* `openClose_releases`: every pair of calls gives its descriptor back unless it opens the console,
  and without the console no call runs out of descriptors.
-/

namespace Filestick.FdTable

open SpiFlashdev (newFd)

/-- A path is opened, and closed if that succeeds; `init` is whether `f_open` initialises the flash
disc, and `res` and `fClose` are the results of `f_open` and `f_close`. -/
structure OpenClose where
  pathname : List Char
  flags : BitVec 32
  init : Bool
  res : FResult
  fClose : FResult

/-- The first call of the pair. -/
def OpenClose.opened (s : Sys) (p : OpenClose) : Sys × Except Errno Fd :=
  sysOpen s p.pathname p.flags (discOpen p.init p.res)

/-- Both calls. -/
def OpenClose.step (s : Sys) (p : OpenClose) : Sys :=
  match p.opened s with
  | (s, .ok fd) => (closeFd s fd p.fClose).1
  | (s, .error _) => s

/-- The path of the console. -/
def consolePath : List Char := "/dev/console".toList

/-- The function table of what a path names. -/
def pathFunction (pathname : List Char) : Option FDfunction :=
  if "/dev/".toList.isPrefixOf pathname then openTable.lookup (pathname.drop 5) else some .fileio

theorem pathFunction_eq_console {pathname : List Char} :
    pathFunction pathname = some .console ↔ pathname = consolePath := by
  constructor
  · intro h
    unfold pathFunction at h
    split at h
    · next hprefix =>
      obtain ⟨rest, rfl⟩ := List.isPrefixOf_iff_prefix.mp hprefix
      have hdrop : ("/dev/".toList ++ rest).drop 5 = rest := List.drop_left' (by decide)
      rw [hdrop] at h
      have hname : rest = "console".toList := by
        simp only [openTable, List.lookup_cons, List.lookup_nil] at h
        split at h
        · next heq => exact beq_iff_eq.mp heq
        · split at h
          · cases h
          · split at h
            · cases h
            · split at h <;> cases h
      rw [hname]
      rfl
    · cases h
  · rintro rfl
    decide

/-! ### Opening -/

/-- An entry that is in use. -/
def InUse (s : Sys) (fd : Fd) : Prop := (s.fdtable fd).flags ≠ 0#32

theorem OpenResult.inUse {s s' : Sys} {r : Except Errno Fd} (hr : OpenResult s s' r) {fd : Fd}
    (h : InUse s' fd) : InUse s fd ∨ r = .ok fd := by
  cases hr with
  | full _ hs => exact Or.inl (hs ▸ h)
  | @failed i e hfree hs =>
    by_cases hfd : fd = i
    · subst hfd
      rw [hs] at h
      exact absurd (by simp) h
    · left
      rw [InUse, hs] at h
      simpa [Sys.set, Function.update_of_ne hfd, InUse] using h
  | @opened i f flags hfree hflags hfdtable hflash _ =>
    by_cases hfd : fd = i
    · exact Or.inr (by rw [hfd])
    · left
      rw [InUse, hfdtable, Function.update_of_ne hfd] at h
      exact h

theorem length_newFd {l l' : List SpiFlashdev.OpenFD} {n : ℕ} (h : newFd l n = some l') :
    l'.length = l.length := by
  induction l generalizing l' with
  | nil => cases h
  | cons e es ih =>
    simp only [newFd] at h
    split at h
    · obtain rfl := Option.some.inj h
      rfl
    · obtain ⟨es', hes, rfl⟩ := Option.map_eq_some_iff.mp h
      rw [List.length_cons, ih hes, List.length_cons]

theorem OpenResult.length_fdList {s s' : Sys} {r : Except Errno Fd} (hr : OpenResult s s' r) :
    s'.flash.fdList.length = s.flash.fdList.length := by
  cases hr with
  | full _ hs => rw [hs]
  | failed _ hs => rw [hs, Sys.set_flash]
  | @opened i f flags hfree hflags hfdtable hflash _ =>
    by_cases hf : f = .spiflash
    · rw [if_pos hf] at hflash
      exact length_newFd hflash
    · rw [if_neg hf] at hflash
      rw [hflash]

theorem CloseResult.length_fdList {s s' : Sys} {fd : Fd} (hr : CloseResult s s' fd) :
    s'.flash.fdList.length = s.flash.fdList.length := by
  cases hr with
  | kept hs => rw [hs]
  | @closed f hfd hf hfdtable hflash _ =>
    rw [hflash]
    split
    · unfold SpiFlashdev.spiflashClose
      split
      · rfl
      · dsimp only
        rw [List.length_modify]
        split <;> rfl
    · rfl

theorem CloseResult.inUse {s s' : Sys} {fd fd' : Fd} (hr : CloseResult s s' fd)
    (h : InUse s' fd') : InUse s fd' := by
  cases hr with
  | kept hs => exact hs ▸ h
  | closed _ _ hfdtable _ _ =>
    by_cases hne : fd' = fd
    · subst hne
      rw [InUse, hfdtable, Function.update_self] at h
      exact absurd rfl h
    · rw [InUse, hfdtable, Function.update_of_ne hne] at h
      exact h

theorem CloseResult.flashFd_eq {s s' : Sys} {fd : Fd} (hr : CloseResult s s' fd) :
    s'.flashFd = s.flashFd := by
  cases hr with
  | kept hs => rw [hs]
  | closed _ _ _ _ hflashFd => exact hflashFd

/-- A device is refused for want of a descriptor only when there is no entry of the table, or of the
flash driver. -/
theorem openDevice_ne_emfile {s : Sys} {i : Fd} (hfree : firstFree s.fdtable = some i)
    (hnew : ∀ n, newFd s.flash.fdList n ≠ none) (devname : List Char) (flags : BitVec 32) :
    (openDevice s devname flags).2 ≠ .error .emfile := by
  unfold openDevice fdAlloc
  rw [hfree]
  simp only [Option.map_some]
  cases openTable.lookup devname with
  | none => exact fun h => (nomatch h)
  | some f =>
    by_cases hf : f = .spiflash
    · subst hf
      cases hl : newFd s.flash.fdList i.val with
      | none => exact absurd hl (hnew _)
      | some l => simp [openDeviceImpl, spiflashOpen, SpiFlashdev.spiflashOpen, hl]
    · have himpl : ∀ s' : Sys, openDeviceImpl s' i f = openPlain s' i f := by
        intro s'
        cases f <;> first | rfl | exact absurd rfl hf
      simp [himpl, openPlain]

/-! ### Closing -/

/-- The entry of a descriptor is freed if and only if its device has a close function. -/
theorem closeFd_frees_iff {s : Sys} {fd : Fd} {f : FDfunction} (hfd : 3 ≤ fd.val)
    (hused : InUse s fd) (hf : (s.fdtable fd).fdfunc = some f) (fClose : FResult) :
    ¬InUse (closeFd s fd fClose).1 fd ↔ f ≠ .console := by
  have hflags : (s.fdtable fd).flags ≠ 0#32 := hused
  rw [closeFd, if_neg (by omega), if_pos hflags, hf, Option.bind_some]
  cases f with
  | console => exact iff_of_false (not_not.mpr hused) fun h => h rfl
  | led => simp [fdClose, fdDealloc, InUse]
  | spiflash => simp [fdClose, fdDealloc, InUse]
  | econet => simp [fdClose, fdDealloc, InUse]
  | fileio => simp [fdClose, fdDealloc, InUse]

/-! ### The descriptors in use -/

/-- The descriptors in use are the first three, that of the flash disc, and `held`. -/
structure Only (held : Option Fd) (s : Sys) : Prop where
  table : Consistent s
  length : s.flash.fdList.length = SpiFlashdev.maxFlashFds
  used : ∀ fd, InUse s fd → fd.val < 3 ∨ s.flashFd = some fd ∨ held = some fd

variable {s : Sys} {held : Option Fd}

/-- Two numbers do not take up the entries from 3 on. -/
theorem Only.free (h : Only held s) : ∃ i, firstFree s.fdtable = some i := by
  cases hfree : firstFree s.fdtable with
  | some i => exact ⟨i, rfl⟩
  | none =>
    rw [firstFree, List.find?_eq_none] at hfree
    have hall : ∀ fd : Fd, 3 ≤ fd.val → s.flashFd = some fd ∨ held = some fd := by
      intro fd hfd
      have hused : (s.fdtable fd).flags ≠ 0#32 := by simpa using hfree fd (List.mem_finRange fd)
      exact (h.used fd hused).resolve_left (by omega)
    have h3 := hall 3 (by decide)
    have h4 := hall 4 (by decide)
    have h5 := hall 5 (by decide)
    grind

/-- One number does not take up the entries of the flash driver. -/
theorem newFd_ne_none {l : List SpiFlashdev.OpenFD} (h : ∃ e ∈ l, e.fd = 0) (n : ℕ) :
    newFd l n ≠ none := by
  induction l with
  | nil => exact absurd h (by simp)
  | cons e es ih =>
    rw [newFd]
    split
    · exact Option.some_ne_none _
    · next hne =>
      obtain ⟨e', hmem, he'⟩ := h
      have hes : ∃ e ∈ es, e.fd = 0 := by
        rcases List.mem_cons.mp hmem with rfl | hmem
        · exact absurd he' hne
        · exact ⟨e', hmem, he'⟩
      rw [Ne, Option.map_eq_none_iff]
      exact ih hes

theorem Only.newFd (h : Only held s) (n : ℕ) : newFd s.flash.fdList n ≠ none := by
  apply newFd_ne_none
  by_contra hall
  push Not at hall
  -- the entries are all of one of two descriptors, and each has one entry at most
  have hfds : ∀ e ∈ s.flash.fdList, s.flashFd.map Fin.val = some e.fd ∨
      held.map Fin.val = some e.fd := by
    intro e he
    have hcount := h.table.flash e.fd (hall e he)
    have hpos : 0 < entries s.flash.fdList e.fd :=
      List.countP_pos_iff.mpr ⟨e, he, beq_self_eq_true _⟩
    by_cases huse : UsesFlash s e.fd
    · obtain ⟨fd, hfd, hf⟩ := huse
      have hused : InUse s fd := (h.table.used fd).mpr (by rw [hf]; exact Option.some_ne_none _)
      rcases h.used fd hused with hlt | hdisc | hheld
      · rw [(h.table.console fd hlt).2] at hf
        cases hf
      · exact Or.inl (by rw [hdisc, ← hfd]; rfl)
      · exact Or.inr (by rw [hheld, ← hfd]; rfl)
    · rw [if_neg huse] at hcount
      omega
  have hone : ∀ m, entries s.flash.fdList m ≤ 1 := by
    intro m
    by_cases hm : m = 0
    · have hzero : entries s.flash.fdList m = 0 := by
        rw [entries, List.countP_eq_zero]
        intro e he
        simpa [hm] using hall e he
      omega
    · rw [h.table.flash m hm]
      split <;> omega
  have hsplit := List.length_eq_countP_add_countP
    (fun e : SpiFlashdev.OpenFD => e.fd == (s.flashFd.map Fin.val).getD 0) (l := s.flash.fdList)
  have hrest : s.flash.fdList.countP
      (fun e => decide ¬(e.fd == (s.flashFd.map Fin.val).getD 0) = true) ≤
      entries s.flash.fdList ((held.map Fin.val).getD 0) := by
    apply List.countP_mono_left
    intro e he hne
    rcases hfds e he with hdisc | hheld
    · simp [hdisc] at hne
    · simp [hheld]
  have hdisc := hone ((s.flashFd.map Fin.val).getD 0)
  have hheld := hone ((held.map Fin.val).getD 0)
  rw [h.length] at hsplit
  unfold entries at hdisc
  unfold SpiFlashdev.maxFlashFds at hsplit
  omega

/-! ### Pairs of calls -/

/-- A device, in a state in which nothing else is held. -/
theorem Only.openDevice (h : Only none s) (devname : List Char) (flags : BitVec 32) :
    (openDevice s devname flags).2 ≠ .error .emfile ∧
      Only (openDevice s devname flags).2.toOption (openDevice s devname flags).1 := by
  obtain ⟨i, hi⟩ := h.free
  refine ⟨openDevice_ne_emfile hi h.newFd devname flags, ?_⟩
  have hres := openDevice_result s devname flags
  refine ⟨h.table.opened hres, hres.length_fdList.trans h.length, fun fd hfd => ?_⟩
  rw [hres.keepsUsed.2]
  rcases hres.inUse hfd with hold | hnew
  · rcases h.used fd hold with hlt | hdisc | hheld
    · exact Or.inl hlt
    · exact Or.inr (Or.inl hdisc)
    · cases hheld
  · rw [hnew]
    exact Or.inr (Or.inr rfl)

/-- What `intflash_init` does to the table. -/
theorem intflashInit_result (s : Sys) :
    intflashInit s = s ∨ s.flashFd = none ∧ ∃ (s' : Sys) (r : Except Errno Fd),
      OpenResult s s' r ∧ intflashInit s = { s' with flashFd := r.toOption } := by
  unfold intflashInit
  cases hdisc : s.flashFd with
  | some fd => exact Or.inl rfl
  | none =>
    right
    have hres := openDevice_result s "spiflash".toList 2#32
    simp only
    split
    · next s' fd heq =>
      rw [heq] at hres
      exact ⟨trivial, s', .ok fd, hres, rfl⟩
    · next s' e heq =>
      rw [heq] at hres
      exact ⟨trivial, s', .error e, hres, rfl⟩

theorem Consistent.of_flashFd (h : Consistent s) (fd : Option Fd) :
    Consistent { s with flashFd := fd } := ⟨h.console, h.used, h.data, h.flash⟩

theorem Consistent.intflashInit (h : Consistent s) : Consistent (intflashInit s) := by
  obtain heq | ⟨-, s', r, hres, heq⟩ := intflashInit_result s
  · rw [heq]
    exact h
  · rw [heq]
    exact (h.opened hres).of_flashFd _

theorem keepsUsed_intflashInit (s : Sys) : KeepsUsed s (intflashInit s) := by
  obtain heq | ⟨-, s', r, hres, heq⟩ := intflashInit_result s
  · rw [heq]
    exact KeepsUsed.refl s
  · rw [heq]
    exact hres.keepsUsed.1

/-- `intflash_init` may take a descriptor for the disc. -/
theorem Only.intflashInit (h : Only held s) : Only held (intflashInit s) := by
  obtain heq | ⟨hdisc, s', r, hres, heq⟩ := intflashInit_result s
  · rw [heq]
    exact h
  · rw [heq]
    refine ⟨(h.table.opened hres).of_flashFd _, hres.length_fdList.trans h.length,
      fun fd hfd => ?_⟩
    rcases hres.inUse hfd with hold | hnew
    · rcases h.used fd hold with hlt | hdisc' | hheld
      · exact Or.inl hlt
      · rw [hdisc] at hdisc'
        cases hdisc'
      · exact Or.inr (Or.inr hheld)
    · rw [hnew]
      exact Or.inr (Or.inl rfl)

/-- The table in which `f_open` runs. -/
def fileTable (s : Sys) (i : Fd) : Sys :=
  s.set i ⟨flagAllocated, some .fileio, (s.fdtable i).data, i.val⟩

/-- The table after `f_open`. -/
def fileOpened (s : Sys) (i : Fd) (init : Bool) : Sys :=
  if init then intflashInit (fileTable s i) else fileTable s i

theorem fileioOpen_disc {i : Fd} (hfree : firstFree s.fdtable = some i) (path : List Char)
    (flags : BitVec 32) (init : Bool) (res : FResult) :
    fileioOpen s path flags (discOpen init res) = match fatfsToErrno res with
      | .ok () => (fileOpened s i init, .ok i)
      | .error e => (fdDealloc (fileOpened s i init) i, .error e) := by
  have htable : (s.set i { s.fdtable i with flags := flagAllocated, fd := i.val }).set i
      { (s.set i { s.fdtable i with flags := flagAllocated, fd := i.val }).fdtable i with
        fdfunc := some .fileio } = fileTable s i := by
    rw [Sys.set_set, Sys.set_fdtable_self]
    rfl
  unfold fileioOpen fdAlloc
  rw [hfree]
  simp only [Option.map_some, htable, discOpen]
  rfl

theorem fileTable_result {i : Fd} (hfree : firstFree s.fdtable = some i) :
    OpenResult s (fileTable s i) (.ok i) :=
  .opened hfree (by decide) rfl (by rfl) rfl

/-- The entry of the file. -/
theorem fileOpened_entry (s : Sys) (i : Fd) (init : Bool) :
    (fileOpened s i init).fdtable i
      = ⟨flagAllocated, some .fileio, (s.fdtable i).data, i.val⟩ := by
  have hentry : (fileTable s i).fdtable i
      = ⟨flagAllocated, some .fileio, (s.fdtable i).data, i.val⟩ := Sys.set_fdtable_self ..
  unfold fileOpened
  split
  · have hused : ((fileTable s i).fdtable i).flags ≠ 0#32 := by
      rw [hentry]
      exact (by decide : flagAllocated ≠ 0#32)
    rw [keepsUsed_intflashInit (fileTable s i) i hused, hentry]
  · exact hentry

/-- The entry of a file that is not opened is given back. -/
theorem fileOpened_dealloc {i : Fd} (hi : 3 ≤ i.val) (init : Bool) :
    CloseResult (fileOpened s i init) (fdDealloc (fileOpened s i init) i) i :=
  .closed hi (by rw [fileOpened_entry]) rfl (by rfl) rfl

theorem Consistent.fileOpened {i : Fd} (h : Consistent s) (hfree : firstFree s.fdtable = some i)
    (init : Bool) : Consistent (fileOpened s i init) := by
  have htable := h.opened (fileTable_result hfree)
  unfold FdTable.fileOpened
  split
  · exact htable.intflashInit
  · exact htable

theorem Only.fileOpened {i : Fd} (h : Only none s) (hfree : firstFree s.fdtable = some i)
    (init : Bool) : Only (some i) (fileOpened s i init) := by
  have hres := fileTable_result hfree
  have htable : Only (some i) (fileTable s i) := by
    refine ⟨h.table.opened hres, h.length, fun fd hfd => ?_⟩
    rcases hres.inUse hfd with hold | hnew
    · rcases h.used fd hold with hlt | hdisc | hheld
      · exact Or.inl hlt
      · exact Or.inr (Or.inl hdisc)
      · cases hheld
    · obtain rfl := Except.ok.inj hnew
      exact Or.inr (Or.inr rfl)
  unfold FdTable.fileOpened
  split
  · exact htable.intflashInit
  · exact htable

/-- A descriptor that is freed is no longer held. -/
theorem Only.freed {s' : Sys} {fd : Fd} (h : Only (some fd) s) (hr : CloseResult s s' fd)
    (hfree : ¬InUse s' fd) : Only none s' := by
  refine ⟨h.table.closed hr, hr.length_fdList.trans h.length, fun fd' hfd' => ?_⟩
  rw [hr.flashFd_eq]
  rcases h.used fd' (hr.inUse hfd') with hlt | hdisc | hheld
  · exact Or.inl hlt
  · exact Or.inr (Or.inl hdisc)
  · obtain rfl := Option.some.inj hheld
    exact absurd hfd' hfree

/-! ### Pairs of calls -/

theorem fatfsToErrno_ne_emfile {res : FResult} (h : res ≠ .FR_TOO_MANY_OPEN_FILES) :
    ∀ e, fatfsToErrno res = .error e → e ≠ .emfile := by
  cases res <;> simp_all [fatfsToErrno]

/-- The first call of a pair. -/
theorem Only.opened (h : Only none s) (p : OpenClose) (hp : p.res ≠ .FR_TOO_MANY_OPEN_FILES) :
    (p.opened s).2 ≠ .error .emfile ∧ Only (p.opened s).2.toOption (p.opened s).1 := by
  unfold OpenClose.opened sysOpen
  split
  · exact h.openDevice _ p.flags
  · obtain ⟨i, hi⟩ := h.free
    have h3 := h.table.three_le (firstFree_eq_some hi).1
    have hopened := h.fileOpened hi p.init
    rw [fileioOpen_disc hi]
    cases hres : fatfsToErrno p.res with
    | ok u => exact ⟨fun h => (nomatch h), hopened⟩
    | error e =>
      refine ⟨fun heq => ?_, hopened.freed (fileOpened_dealloc h3 p.init) ?_⟩
      · exact fatfsToErrno_ne_emfile hp e hres (Except.error.inj heq)
      · rw [InUse, fdDealloc, Sys.set_fdtable_self]
        exact not_not.mpr rfl

/-- What the first call of a pair has opened. -/
theorem Consistent.openedEntry (h : Consistent s) {p : OpenClose} {s' : Sys} {fd : Fd}
    (hopen : p.opened s = (s', .ok fd)) :
    3 ≤ fd.val ∧ InUse s' fd ∧ (s'.fdtable fd).fdfunc = pathFunction p.pathname := by
  unfold OpenClose.opened sysOpen at hopen
  unfold pathFunction
  split at hopen
  · next hdev =>
    rw [if_pos hdev]
    have hres := openDevice_result s (p.pathname.drop 5) p.flags
    rw [hopen] at hres
    have hspec : OpenSpec s (s', .ok fd) := h.openSpec hres
    refine ⟨hspec.2.2.1, ?_⟩
    cases hlookup : openTable.lookup (p.pathname.drop 5) with
    | none =>
      cases hfree : firstFree s.fdtable with
      | none => simp [FdTable.openDevice, fdAlloc, hfree] at hopen
      | some i => simp [FdTable.openDevice, fdAlloc, hfree, hlookup] at hopen
    | some f => exact openDevice_fdfunc hlookup hopen
  · next hdev =>
    rw [if_neg hdev]
    cases hfree : firstFree s.fdtable with
    | none => simp [fileioOpen, fdAlloc, hfree] at hopen
    | some i =>
      rw [fileioOpen_disc hfree] at hopen
      split at hopen
      · obtain ⟨rfl, hfd⟩ := Prod.mk.inj hopen
        obtain rfl := Except.ok.inj hfd
        refine ⟨h.three_le (firstFree_eq_some hfree).1, ?_, ?_⟩
        · rw [InUse, fileOpened_entry]
          exact (by decide : flagAllocated ≠ 0#32)
        · rw [fileOpened_entry]
      · cases (Prod.mk.inj hopen).2

/-- The first call of a pair, whatever is held. -/
theorem Consistent.openedPair (h : Consistent s) (p : OpenClose) : Consistent (p.opened s).1 := by
  unfold OpenClose.opened sysOpen
  split
  · exact h.opened (openDevice_result s _ p.flags)
  · cases hfree : firstFree s.fdtable with
    | none => simpa [fileioOpen, fdAlloc, hfree] using h
    | some i =>
      rw [fileioOpen_disc hfree]
      have hopened := h.fileOpened hfree p.init
      cases fatfsToErrno p.res with
      | ok u => exact hopened
      | error e =>
        exact hopened.closed (fileOpened_dealloc (h.three_le (firstFree_eq_some hfree).1) p.init)

theorem Consistent.openClose (h : Consistent s) (p : OpenClose) : Consistent (p.step s) := by
  have hopened := h.openedPair p
  unfold OpenClose.step
  split
  · next s' fd heq =>
    rw [heq] at hopened
    exact hopened.closed (closeFd_result s' fd p.fClose)
  · next s' e heq =>
    rw [heq] at hopened
    exact hopened

/-- A pair of calls that does not open the console; FatFS, without its file locks, never has too
many open files. -/
def Releasable (_ : Sys) (p : OpenClose) : Prop :=
  p.pathname ≠ consolePath ∧ p.res ≠ .FR_TOO_MANY_OPEN_FILES

instance (s : Sys) (p : OpenClose) : Decidable (Releasable s p) :=
  inferInstanceAs (Decidable (_ ∧ _))

/-- **A pair of calls** gives its descriptor back, unless it opens the console. -/
theorem Consistent.releases_iff (h : Consistent s) {p : OpenClose} {s' : Sys} {fd : Fd}
    (hopen : p.opened s = (s', .ok fd)) :
    ¬InUse (closeFd s' fd p.fClose).1 fd ↔ p.pathname ≠ consolePath := by
  obtain ⟨h3, hused, hf⟩ := h.openedEntry hopen
  have htable := h.openedPair p
  rw [hopen] at htable
  obtain ⟨f, hf'⟩ := Option.ne_none_iff_exists'.mp ((htable.used fd).mp hused)
  rw [closeFd_frees_iff h3 hused hf', Ne, Ne, ← pathFunction_eq_console, ← hf, hf',
    Option.some.injEq]

theorem Only.openClose (h : Only none s) {p : OpenClose} (hp : Releasable s p) :
    Only none (p.step s) := by
  obtain ⟨-, hopened⟩ := h.opened p hp.2
  unfold OpenClose.step
  split
  · next s' fd heq =>
    rw [heq] at hopened
    exact hopened.freed (closeFd_result s' fd p.fClose) ((h.table.releases_iff heq).mpr hp.1)
  · next s' e heq =>
    rw [heq] at hopened
    exact hopened

theorem only_boot (flash : ℕ → BitVec 8) : Only none (boot flash) := by
  have hboot : ∀ fd, (bootTable fd).flags ≠ 0#32 → fd.val < 3 := by decide
  refine ⟨consistent_boot flash, ?_, fun fd hfd => ?_⟩
  · rw [boot_eq]
    rfl
  · rw [InUse, boot_eq] at hfd
    exact Or.inl (hboot fd hfd)

/-- **Descriptors are given back**: after any pairs of calls, the next pair gives its descriptor
back unless it opens the console; and if no pair before it has opened the console, there is a
descriptor for it. -/
theorem openClose_releases (flash : ℕ → BitVec 8) (ps : List OpenClose) (p : OpenClose)
    (hp : p.res ≠ .FR_TOO_MANY_OPEN_FILES) :
    (∀ s' fd, p.opened (Machine.run OpenClose.step (boot flash) ps) = (s', .ok fd) →
      3 ≤ fd.val ∧ (¬InUse (closeFd s' fd p.fClose).1 fd ↔ p.pathname ≠ consolePath)) ∧
    (Machine.StepsMeet OpenClose.step Releasable (boot flash) ps →
      (p.opened (Machine.run OpenClose.step (boot flash) ps)).2 ≠ .error .emfile) := by
  have htable : Consistent (Machine.run OpenClose.step (boot flash) ps) :=
    Machine.run_invariant_of_step (fun s q hs => hs.openClose q) ps (consistent_boot flash)
  refine ⟨fun s' fd hopen => ⟨(htable.openedEntry hopen).1, htable.releases_iff hopen⟩,
    fun hps => ?_⟩
  have honly : Only none (Machine.run OpenClose.step (boot flash) ps) :=
    Machine.run_invariant (fun s q hs hq => hs.openClose hq) ps _ (only_boot flash) hps
  exact (honly.opened p hp).1

/-- A pair of calls on a path, all of which succeed. -/
def pairOn (path : String) : OpenClose := ⟨path.toList, 2#32, true, .FR_OK, .FR_OK⟩

/-- The lamp, the flash and a file. -/
theorem lampPairs_release :
    (∀ s' fd, (pairOn "/dev/rgbled").opened (Machine.run OpenClose.step (boot fun _ => 0xFF#8)
        [pairOn "/dev/spiflash", pairOn "0:/file"]) = (s', .ok fd) →
      3 ≤ fd.val ∧ (¬InUse (closeFd s' fd .FR_OK).1 fd ↔
        (pairOn "/dev/rgbled").pathname ≠ consolePath)) ∧
    ((pairOn "/dev/rgbled").opened (Machine.run OpenClose.step (boot fun _ => 0xFF#8)
        [pairOn "/dev/spiflash", pairOn "0:/file"])).2 ≠ .error .emfile := by
  obtain ⟨h1, h2⟩ := openClose_releases (fun _ => 0xFF#8)
    [pairOn "/dev/spiflash", pairOn "0:/file"] (pairOn "/dev/rgbled") (by decide)
  exact ⟨h1, h2 (by decide +kernel)⟩

/-- After thirteen pairs of calls on the console there is no descriptor left. -/
theorem consolePairs_emfile :
    ((pairOn "/dev/rgbled").opened (Machine.run OpenClose.step (boot fun _ => 0xFF#8)
      (List.replicate 13 (pairOn "/dev/console")))).2 = .error .emfile := by
  decide +kernel

end Filestick.FdTable
