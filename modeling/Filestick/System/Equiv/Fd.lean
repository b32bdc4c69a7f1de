import Filestick.System.Fd
import Mathlib.Data.Fintype.Basic

/-!
# The table of descriptors is consistent

`OpenResult` and `CloseResult` say once what opening and closing do to the table and to the flash
driver; `Consistent` is kept by both, so it holds after every sequence of calls (`consistent_run`).
-/

namespace Filestick.FdTable

open SpiFlashdev (OpenFD newFd getFd)

/-! ### The first free entry -/

theorem firstFree_eq_some {t : Fd → FD} {i : Fd} (h : firstFree t = some i) :
    (t i).flags = 0#32 ∧ ∀ j, j < i → (t j).flags ≠ 0#32 := by
  rw [firstFree, List.find?_eq_some_iff_append] at h
  obtain ⟨hi, as, bs, hsplit, has⟩ := h
  refine ⟨by simpa using hi, fun j hj => ?_⟩
  have hmem : j ∈ as ++ i :: bs := hsplit ▸ List.mem_finRange j
  have hlt := List.pairwise_lt_finRange 16
  rw [hsplit, List.pairwise_append] at hlt
  rcases List.mem_append.mp hmem with hj' | hj'
  · simpa using has j hj'
  · rcases List.mem_cons.mp hj' with rfl | hj'
    · exact absurd hj (lt_irrefl _)
    · have := (List.pairwise_cons.mp hlt.2.1).1 j hj'
      exact absurd hj (not_lt.mpr this.le)

/-! ### What a call does -/

/-- What opening does: without a free entry nothing; a call that fails leaves the first free entry
free, and one that does not puts it to use, with an entry of the flash driver for the flash. -/
inductive OpenResult (s s' : Sys) : Except Errno Fd → Prop
  | full (h : firstFree s.fdtable = none) (hs : s' = s) : OpenResult s s' (.error .emfile)
  | failed {i : Fd} {e : Errno} (h : firstFree s.fdtable = some i)
    (hs : s' = s.set i ⟨0#32, none, 0#32, i.val⟩) : OpenResult s s' (.error e)
  | opened {i : Fd} {f : FDfunction} {flags : BitVec 32} (h : firstFree s.fdtable = some i)
    (hflags : flags ≠ 0#32)
    (hfdtable : s'.fdtable
      = Function.update s.fdtable i ⟨flags, some f, (s.fdtable i).data, i.val⟩)
    (hflash : if f = .spiflash then newFd s.flash.fdList i.val = some s'.flash.fdList
      else s'.flash.fdList = s.flash.fdList)
    (hflashFd : s'.flashFd = s.flashFd) : OpenResult s s' (.ok i)

theorem flagAllocated_or_ne_zero (flags : BitVec 32) : flagAllocated ||| flags ≠ 0#32 := by
  intro h
  have := congrArg (·.getLsbD 31) h
  simp [flagAllocated] at this

@[simp] theorem Sys.set_fdtable_self (s : Sys) (i : Fd) (e : FD) : (s.set i e).fdtable i = e :=
  Function.update_self ..

@[simp] theorem Sys.set_set (s : Sys) (i : Fd) (e e' : FD) : (s.set i e).set i e' = s.set i e' := by
  simp [Sys.set]

@[simp] theorem Sys.set_flash (s : Sys) (i : Fd) (e : FD) : (s.set i e).flash = s.flash := rfl

@[simp] theorem Sys.set_flashFd (s : Sys) (i : Fd) (e : FD) : (s.set i e).flashFd = s.flashFd := rfl

/-- The open function of a device sets its function table, or fails and leaves all as it is. -/
theorem openDeviceImpl_cases (s : Sys) (fd : Fd) (f : FDfunction) :
    (∃ e, openDeviceImpl s fd f = (s, .error e)) ∨
      ∃ flash, openDeviceImpl s fd f
          = ({ s.set fd { s.fdtable fd with fdfunc := some f } with flash := flash }, .ok ()) ∧
        if f = .spiflash then newFd s.flash.fdList (s.fdtable fd).fd = some flash.fdList
        else flash.fdList = s.flash.fdList := by
  by_cases hf : f = .spiflash
  · subst hf
    cases hnew : newFd s.flash.fdList (s.fdtable fd).fd with
    | none =>
      refine Or.inl ⟨flashErrno .emfile, ?_⟩
      simp [openDeviceImpl, spiflashOpen, SpiFlashdev.spiflashOpen, hnew]
    | some l =>
      refine Or.inr ⟨{ s.flash with fdList := l }, ?_, ?_⟩
      · simp [openDeviceImpl, spiflashOpen, SpiFlashdev.spiflashOpen, hnew]
      · simp
  · refine Or.inr ⟨s.flash, ?_, ?_⟩
    · cases f <;> first | rfl | exact absurd rfl hf
    · simp [hf]

theorem openDevice_result (s : Sys) (devname : List Char) (flags : BitVec 32) :
    OpenResult s (openDevice s devname flags).1 (openDevice s devname flags).2 := by
  unfold openDevice fdAlloc
  cases h : firstFree s.fdtable with
  | none => exact .full h rfl
  | some i =>
    simp only [Option.map_some]
    cases openTable.lookup devname with
    | none =>
      refine .failed h ?_
      simp [fdDealloc]
    | some f =>
      obtain ⟨e, he⟩ | ⟨flash, hok, hflash⟩ := openDeviceImpl_cases
        (s.set i { s.fdtable i with flags := flagAllocated, fd := i.val }) i f
      · simp only [he]
        refine .failed h ?_
        simp [fdDealloc]
      · simp only [hok]
        refine .opened h (flagAllocated_or_ne_zero flags) ?_ (by simpa using hflash) rfl
        simp [Sys.set]

theorem fileioOpen_result (s : Sys) (path : List Char) (flags : BitVec 32) (res : FResult) :
    OpenResult s (fileioOpen s path flags (plainOpen res)).1
      (fileioOpen s path flags (plainOpen res)).2 := by
  unfold fileioOpen fdAlloc
  cases h : firstFree s.fdtable with
  | none => exact .full h rfl
  | some i =>
    simp only [Option.map_some, plainOpen]
    cases fatfsToErrno res with
    | ok u =>
      have hne : flagAllocated ≠ 0#32 := by decide
      have hfdtable : ((s.set i { s.fdtable i with flags := flagAllocated, fd := i.val }).set i
          ⟨flagAllocated, some .fileio, (s.fdtable i).data, i.val⟩).fdtable
          = Function.update s.fdtable i
            ⟨flagAllocated, some .fileio, (s.fdtable i).data, i.val⟩ := by
        simp [Sys.set]
      exact .opened h hne (by simpa using hfdtable) (by simp) rfl
    | error e =>
      refine .failed h ?_
      simp [fdDealloc, Sys.set]

/-- Opening, where `f_open` leaves the descriptors alone. -/
theorem sysOpen_result (s : Sys) (path : List Char) (flags : BitVec 32) (res : FResult) :
    OpenResult s (sysOpen s path flags (plainOpen res)).1
    (sysOpen s path flags (plainOpen res)).2 := by
  unfold sysOpen
  split
  · exact openDevice_result s _ flags
  · exact fileioOpen_result s path flags res

/-- What closing does: nothing, or an entry from 3 on, in use by a device that can be closed,
becomes free, and the flash driver closes its entry. -/
inductive CloseResult (s s' : Sys) (fd : Fd) : Prop
  | kept (hs : s' = s) : CloseResult s s' fd
  | closed {f : FDfunction} (hfd : 3 ≤ fd.val) (hf : (s.fdtable fd).fdfunc = some f)
    (hfdtable : s'.fdtable = Function.update s.fdtable fd
      { s.fdtable fd with flags := 0#32, fdfunc := none, data := 0#32 })
    (hflash : s'.flash =
      if f = .spiflash then (SpiFlashdev.spiflashClose s.flash fd.val).1 else s.flash)
    (hflashFd : s'.flashFd = s.flashFd) : CloseResult s s' fd

theorem closeFd_result (s : Sys) (fd : Fd) (fClose : FResult) :
    CloseResult s (closeFd s fd fClose).1 fd := by
  unfold closeFd
  split_ifs with h3 hflags
  · exact .kept rfl
  · cases hf : (s.fdtable fd).fdfunc with
    | none => exact .kept rfl
    | some f =>
      have hfd : 3 ≤ fd.val := by omega
      cases f with
      | console => exact .kept rfl
      | led => exact .closed hfd hf rfl rfl rfl
      | econet => exact .closed hfd hf rfl rfl rfl
      | fileio => exact .closed hfd hf rfl rfl rfl
      | spiflash =>
        simp only [Option.bind_some, fdClose, spiflashClose]
        split <;> next heq => exact .closed hfd hf rfl (by simp [fdDealloc, Sys.set, heq]) rfl
  · exact .kept rfl

/-! ### The entries of the flash driver -/

/-- The number of entries of `fd_list` for the descriptor `n`. -/
def entries (l : List OpenFD) (n : ℕ) : ℕ := l.countP fun e => e.fd == n

/-- `new_fd` adds one entry. -/
theorem entries_newFd {l l' : List OpenFD} {fd n : ℕ} (h : newFd l fd = some l') (hn : n ≠ 0) :
    entries l' n = entries l n + if n = fd then 1 else 0 := by
  induction l generalizing l' with
  | nil => cases h
  | cons e es ih =>
    simp only [newFd] at h
    split at h
    · next h0 =>
      obtain rfl := Option.some.inj h
      have hne : (e.fd == n) = false := by simpa [h0] using Ne.symm hn
      have hnew : (fd == n) = decide (n = fd) := by simp [eq_comm, Bool.beq_eq_decide_eq]
      simp [entries, List.countP_cons, hne, hnew]
    · obtain ⟨es', hes, rfl⟩ := Option.map_eq_some_iff.mp h
      have := ih hes
      simp only [entries, List.countP_cons] at this ⊢
      omega

/-- `spiflash_close` takes one entry away, if there is one. -/
theorem entries_release {l : List OpenFD} {fd k n : ℕ} (h : getFd l fd = some k) (hn : n ≠ 0) :
    entries (l.modify k fun e => { e with fd := 0 }) n = entries l n - if n = fd then 1 else 0 := by
  induction l generalizing k with
  | nil => cases h
  | cons e es ih =>
    rw [getFd, List.findIdx?_cons] at h
    split at h
    · next he =>
      obtain rfl := Option.some.inj h
      have hfd : e.fd = fd := by simpa using he
      simp only [List.modify_zero_cons, entries, List.countP_cons, hfd]
      by_cases hnf : n = fd
      · subst hnf
        simp [Ne.symm hn]
      · simp [hnf, Ne.symm hn, Ne.symm hnf]
    · next he =>
      obtain ⟨k', hk', rfl⟩ := Option.map_eq_some_iff.mp h
      have hrest := ih hk'
      have hne : n = fd → (e.fd == n) = false := by
        rintro rfl
        simpa using he
      simp only [List.modify_succ_cons, entries, List.countP_cons] at hrest ⊢
      rw [hrest]
      by_cases hnf : n = fd
      · simp [hnf, hnf ▸ hne hnf]
      · simp [hnf]

theorem entries_close (d : SpiFlashdev.Dev) {fd n : ℕ} (hn : n ≠ 0) :
    entries (SpiFlashdev.spiflashClose d fd).1.fdList n
      = entries d.fdList n - if n = fd then 1 else 0 := by
  unfold SpiFlashdev.spiflashClose
  cases h : getFd d.fdList fd with
  | none =>
    have hnone : n = fd → entries d.fdList n = 0 := by
      rintro rfl
      rw [entries, List.countP_eq_zero]
      intro e he
      simpa using List.findIdx?_eq_none_iff.mp h e he
    by_cases hnf : n = fd
    · simp [hnone hnf]
    · simp [hnf]
  | some k =>
    simp only
    split
    · exact entries_release h hn
    · exact entries_release h hn

/-! ### The invariant -/

/-- The descriptor `n` uses the functions of the SPI flash. -/
def UsesFlash (s : Sys) (n : ℕ) : Prop :=
  ∃ fd : Fd, fd.val = n ∧ (s.fdtable fd).fdfunc = some .spiflash

instance (s : Sys) (n : ℕ) : Decidable (UsesFlash s n) := inferInstanceAs (Decidable (∃ _, _))

/-- The table is consistent: the first three entries are the console, the entries in use are those
with functions, a free entry has no data, and the flash driver has one entry for each descriptor
that uses it and no other. -/
structure Consistent (s : Sys) : Prop where
  console : ∀ fd : Fd, fd.val < 3 →
    (s.fdtable fd).flags ≠ 0#32 ∧ (s.fdtable fd).fdfunc = some .console
  used : ∀ fd, (s.fdtable fd).flags ≠ 0#32 ↔ (s.fdtable fd).fdfunc ≠ none
  data : ∀ fd, (s.fdtable fd).flags = 0#32 → (s.fdtable fd).data = 0#32
  flash : ∀ n, n ≠ 0 → entries s.flash.fdList n = if UsesFlash s n then 1 else 0

/-- A free entry is not one of the first three. -/
theorem Consistent.three_le {s : Sys} (h : Consistent s) {i : Fd}
    (hi : (s.fdtable i).flags = 0#32) :
    3 ≤ i.val := by
  by_contra hlt
  exact (h.console i (by omega)).1 hi

/-- An entry that is not in use has no functions. -/
theorem Consistent.fdfunc_eq_none {s : Sys} (h : Consistent s) {i : Fd}
    (hi : (s.fdtable i).flags = 0#32) : (s.fdtable i).fdfunc = none := by
  by_contra hne
  exact (h.used i).mpr hne hi

/-- The descriptors that use the flash after one entry has changed. -/
theorem usesFlash_update {s s' : Sys} {i : Fd} {e : FD}
    (h : s'.fdtable = Function.update s.fdtable i e) (n : ℕ) :
    UsesFlash s' n ↔ if n = i.val then e.fdfunc = some .spiflash else UsesFlash s n := by
  unfold UsesFlash
  rw [h]
  split_ifs with hn
  · subst hn
    constructor
    · rintro ⟨fd, hfd, hf⟩
      obtain rfl : fd = i := Fin.ext hfd
      simpa using hf
    · intro he
      exact ⟨i, rfl, by simpa using he⟩
  · have hne : ∀ fd : Fd, fd.val = n → fd ≠ i := by
      rintro fd rfl rfl
      exact hn rfl
    constructor
    · rintro ⟨fd, hfd, hf⟩
      rw [Function.update_of_ne (hne fd hfd)] at hf
      exact ⟨fd, hfd, hf⟩
    · rintro ⟨fd, hfd, hf⟩
      refine ⟨fd, hfd, ?_⟩
      rwa [Function.update_of_ne (hne fd hfd)]

/-- One entry from 3 on may change when it is in use exactly with functions, is cleared when it
becomes free, and the flash driver follows. -/
theorem Consistent.update {s s' : Sys} (h : Consistent s) {i : Fd} {e : FD} (hi : 3 ≤ i.val)
    (hs : s'.fdtable = Function.update s.fdtable i e) (hused : e.flags ≠ 0#32 ↔ e.fdfunc ≠ none)
    (hdata : e.flags = 0#32 → e.data = 0#32)
    (hflash : ∀ n, n ≠ 0 → entries s'.flash.fdList n
      = if n = i.val then (if e.fdfunc = some .spiflash then 1 else 0)
        else entries s.flash.fdList n) :
    Consistent s' := by
  refine ⟨fun fd hfd => ?_, fun fd => ?_, fun fd => ?_, fun n hn => ?_⟩
  · have hne : fd ≠ i := by
      rintro rfl
      omega
    rw [hs, Function.update_of_ne hne]
    exact h.console fd hfd
  · rw [hs]
    by_cases hfd : fd = i
    · subst hfd; simpa using hused
    · rw [Function.update_of_ne hfd]; exact h.used fd
  · rw [hs]
    by_cases hfd : fd = i
    · subst hfd; simpa using hdata
    · rw [Function.update_of_ne hfd]; exact h.data fd
  · rw [hflash n hn]
    simp only [usesFlash_update hs n]
    by_cases hni : n = i.val
    · simp [hni]
    · simp only [hni, if_false]
      exact h.flash n hn

/-- **Opening keeps the table consistent.** -/
theorem Consistent.opened {s s' : Sys} (h : Consistent s) {r : Except Errno Fd}
    (hr : OpenResult s s' r) : Consistent s' := by
  cases hr with
  | full _ hs => exact hs ▸ h
  | @failed i e hfree hs =>
    have hi := (firstFree_eq_some hfree).1
    refine h.update (h.three_le hi) (e := ⟨0#32, none, 0#32, i.val⟩) (by rw [hs]; rfl) (by simp)
      (by simp) fun n hn => ?_
    rw [hs]
    split
    · next hni =>
      have := h.flash n hn
      rw [if_neg] at this
      · simpa using this
      · rintro ⟨fd, hfd, hf⟩
        obtain rfl : fd = i := Fin.ext (hfd.trans hni)
        rw [h.fdfunc_eq_none hi] at hf
        cases hf
    · rfl
  | @opened i f flags hfree hflags hfdtable hflash _ =>
    have hi := (firstFree_eq_some hfree).1
    refine h.update (h.three_le hi) hfdtable (by simpa using hflags) (fun h0 => absurd h0 hflags)
      fun n hn => ?_
    have hold : n = i.val → entries s.flash.fdList n = 0 := by
      intro hni
      have := h.flash n hn
      rwa [if_neg] at this
      rintro ⟨fd, hfd, hf⟩
      obtain rfl : fd = i := Fin.ext (hfd.trans hni)
      rw [h.fdfunc_eq_none hi] at hf
      cases hf
    by_cases hf : f = .spiflash
    · rw [if_pos hf] at hflash
      rw [entries_newFd hflash hn]
      by_cases hni : n = i.val
      · simp [hni, hf, hni ▸ hold hni]
      · simp [hni]
    · rw [if_neg hf] at hflash
      rw [hflash]
      by_cases hni : n = i.val
      · simp [hni, hf, hni ▸ hold hni]
      · simp [hni]

/-- **Closing keeps the table consistent.** -/
theorem Consistent.closed {s s' : Sys} (h : Consistent s) {fd : Fd} (hr : CloseResult s s' fd) :
    Consistent s' := by
  cases hr with
  | kept hs => exact hs ▸ h
  | @closed f hfd hf hfdtable hflash _ =>
    refine h.update hfd hfdtable (by simp) (by simp) fun n hn => ?_
    have huses : n = fd.val → (UsesFlash s n ↔ f = .spiflash) := by
      rintro rfl
      constructor
      · rintro ⟨fd', hfd', hf'⟩
        obtain rfl : fd' = fd := Fin.ext hfd'
        exact Option.some.inj (hf.symm.trans hf')
      · rintro rfl
        exact ⟨fd, rfl, hf⟩
    have hold := h.flash n hn
    rw [hflash]
    by_cases hni : n = fd.val
    · simp only [huses hni] at hold
      by_cases hfl : f = .spiflash
      · rw [if_pos hfl] at hold ⊢
        rw [entries_close _ hn, hold]
        simp [hni]
      · rw [if_neg hfl] at hold ⊢
        simp [hni, hni ▸ hold]
    · by_cases hfl : f = .spiflash
      · rw [if_pos hfl, entries_close _ hn]
        simp [hni]
      · rw [if_neg hfl]
        simp [hni]

/-! ### The start -/

theorem openDevice_console {s : Sys} {i : Fd} (h : firstFree s.fdtable = some i)
    (flags : BitVec 32) :
    (openDevice s "console".toList flags).1
      = s.set i ⟨flagAllocated ||| flags, some .console, (s.fdtable i).data, i.val⟩ := by
  have hlookup : openTable.lookup "console".toList = some .console := by decide
  rw [openDevice, fdAlloc, h]
  simp only [Option.map_some, hlookup, openDeviceImpl, openPlain, Sys.set_fdtable_self, Sys.set_set]

/-- The table with no entry in use. -/
def emptyTable : Fd → FD := fun _ => ⟨0#32, none, 0#32, 0⟩

/-- The table after `fd_init`. -/
def bootTable : Fd → FD :=
  Function.update (Function.update (Function.update emptyTable
    0 ⟨flagAllocated ||| 0#32, some .console, 0#32, 0⟩)
    1 ⟨flagAllocated ||| 1#32, some .console, 0#32, 1⟩)
    2 ⟨flagAllocated ||| 1#32, some .console, 0#32, 2⟩

theorem boot_eq (flash : ℕ → BitVec 8) :
    boot flash = ⟨bootTable, SpiFlashdev.init flash, none⟩ := by
  have h0 : firstFree emptyTable = some 0 := by decide
  have h1 : firstFree (Function.update emptyTable
      0 ⟨flagAllocated ||| 0#32, some .console, 0#32, 0⟩) = some 1 := by decide
  have h2 : firstFree (Function.update (Function.update emptyTable
      0 ⟨flagAllocated ||| 0#32, some .console, 0#32, 0⟩)
      1 ⟨flagAllocated ||| 1#32, some .console, 0#32, 1⟩) = some 2 := by decide
  have e0 := openDevice_console (s := ⟨emptyTable, SpiFlashdev.init flash, none⟩) h0 0#32
  have e1 := openDevice_console (s := Sys.set ⟨emptyTable, SpiFlashdev.init flash, none⟩
    0 ⟨flagAllocated ||| 0#32, some .console, 0#32, 0⟩) h1 1#32
  have e2 := openDevice_console (s := Sys.set (Sys.set ⟨emptyTable, SpiFlashdev.init flash, none⟩
    0 ⟨flagAllocated ||| 0#32, some .console, 0#32, 0⟩)
    1 ⟨flagAllocated ||| 1#32, some .console, 0#32, 1⟩) h2 1#32
  calc boot flash
      = (openDevice (openDevice (openDevice ⟨emptyTable, SpiFlashdev.init flash, none⟩
          "console".toList 0#32).1 "console".toList 1#32).1 "console".toList 1#32).1 := rfl
    _ = _ := by rw [e0]; exact (congrArg (fun s => (openDevice s _ _).1) e1).trans e2

theorem consistent_boot (flash : ℕ → BitVec 8) : Consistent (boot flash) := by
  rw [boot_eq]
  have hconsole : ∀ fd : Fd, fd.val < 3 →
      (bootTable fd).flags ≠ 0#32 ∧ (bootTable fd).fdfunc = some .console := by decide
  have hused : ∀ fd, (bootTable fd).flags ≠ 0#32 ↔ (bootTable fd).fdfunc ≠ none := by decide
  have hdata : ∀ fd, (bootTable fd).flags = 0#32 → (bootTable fd).data = 0#32 := by decide
  have hflash : ∀ fd, (bootTable fd).fdfunc ≠ some .spiflash := by decide
  refine ⟨hconsole, hused, hdata, fun n hn => ?_⟩
  have huses : ¬UsesFlash ⟨bootTable, SpiFlashdev.init flash, none⟩ n := by
    rintro ⟨fd, -, hf⟩
    exact hflash fd hf
  rw [if_neg huses]
  simp [entries, SpiFlashdev.init, SpiFlashdev.maxFlashFds, List.replicate, Ne.symm hn]

/-! ### Every sequence of calls -/

/-- On a descriptor of the table the bounds are met. -/
theorem sysClose_val (s : Sys) (fd : Fd) (res : FResult) :
    sysClose s fd.val res = some (closeFd s fd res) := by
  have hlt : fd.val < 16 := fd.isLt
  rw [sysClose, if_neg (by omega)]
  simp

theorem Consistent.step {s : Sys} (h : Consistent s) (c : Call) : Consistent (c.step s) := by
  cases c with
  | «open» pathname flags res => exact h.opened (sysOpen_result s pathname flags res)
  | close fd res =>
    rw [Call.step, sysClose_val]
    exact h.closed (closeFd_result s fd res)

/-- What a call to `SYS_open` promises: on success the lowest free descriptor, which is none of the
first three, with every other entry as it was; on failure the flags, functions and data of every
entry as they were. -/
def OpenSpec (s : Sys) : Sys × Except Errno Fd → Prop
  | (s', .ok fd) => (s.fdtable fd).flags = 0#32 ∧ (∀ j, j < fd → (s.fdtable j).flags ≠ 0#32) ∧
      3 ≤ fd.val ∧ ∀ j, j ≠ fd → s'.fdtable j = s.fdtable j
  | (s', .error _) => ∀ j, (s'.fdtable j).flags = (s.fdtable j).flags ∧
      (s'.fdtable j).fdfunc = (s.fdtable j).fdfunc ∧ (s'.fdtable j).data = (s.fdtable j).data

theorem Consistent.openSpec {s : Sys} (h : Consistent s) {r : Sys × Except Errno Fd}
    (hr : OpenResult s r.1 r.2) : OpenSpec s r := by
  obtain ⟨s', r⟩ := r
  cases hr with
  | full _ hs =>
    obtain rfl : s' = s := hs
    exact fun j => ⟨rfl, rfl, rfl⟩
  | @failed i e hfree hs =>
    obtain rfl : s' = _ := hs
    have hi := (firstFree_eq_some hfree).1
    intro j
    by_cases hj : j = i
    · subst hj
      simp [hi, h.fdfunc_eq_none hi, h.data j hi]
    · simp [Sys.set, Function.update_of_ne hj]
  | @opened i f flags hfree hflags hfdtable hflash _ =>
    have hfdtable : s'.fdtable = _ := hfdtable
    obtain ⟨hi, hlow⟩ := firstFree_eq_some hfree
    refine ⟨hi, hlow, h.three_le hi, fun j hj => ?_⟩
    rw [hfdtable, Function.update_of_ne hj]

/-- **The table of descriptors is consistent** after every sequence of calls, with any results of
`f_open` and `f_close`, and the next call to `SYS_open` does what it promises. -/
theorem fdtable_consistent (flash : ℕ → BitVec 8) (calls : List Call) :
    Consistent (Machine.run Call.step (boot flash) calls) ∧
      ∀ pathname flags res, OpenSpec (Machine.run Call.step (boot flash) calls)
        (sysOpen (Machine.run Call.step (boot flash) calls) pathname flags (plainOpen res)) := by
  have h : Consistent (Machine.run Call.step (boot flash) calls) :=
    Machine.run_invariant_of_step (fun s c hs => hs.step c) calls (consistent_boot flash)
  exact ⟨h, fun pathname flags res => h.openSpec (sysOpen_result _ pathname flags res)⟩

end Filestick.FdTable
