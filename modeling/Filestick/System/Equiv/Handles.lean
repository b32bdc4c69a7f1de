import Filestick.System.Handles

/-!
# The checks of the calls on handles

`Checked` is what the check of a call is for.  The seven calls on descriptors have the same check
(`checked_descriptor_iff`), and so have the two on directories (`checked_directory_iff`): both let
the size of the table through, and the second one the negative numbers too.
-/

namespace Filestick.FdTable

variable {D σ : Type} {B : Below D σ} {s : Handles D σ}

/-- A call on the handle `n` of a table of `size` entries reads no entry that is not there, and
answers a number that is not an index with an error, leaving the state as it is. -/
structure Checked (size : ℤ) (s : Handles D σ) (n : ℤ) (r : Option (Handles D σ × Answer)) :
    Prop where
  inside : r ≠ none
  refused : ¬(0 ≤ n ∧ n < size) → ∃ e, r = some (s, .error e)

/-- A call that returns for an index, and refuses the numbers that are not let through. -/
theorem checked_iff {size n : ℤ} {r : Option (Handles D σ × Answer)} {P : Prop}
    (hin : 0 ≤ n ∧ n < size → P ∧ r ≠ none)
    (hout : ¬(0 ≤ n ∧ n < size) → P → ∃ e, r = some (s, .error e))
    (hnone : ¬P → r = none) : Checked size s n r ↔ P := by
  constructor
  · intro h
    by_contra hP
    exact h.inside (hnone hP)
  · intro hP
    refine ⟨?_, fun hn => hout hn hP⟩
    by_cases hn : 0 ≤ n ∧ n < size
    · exact (hin hn).2
    · obtain ⟨e, he⟩ := hout hn hP
      rw [he]
      exact Option.some_ne_none _

/-- The check of a descriptor lets 16 through. -/
theorem checked_descriptor_iff (n : ℤ) (r : Option (Handles D σ × Answer))
    (hbad : 16 < n ∨ n < 0 → r = some (s, .error .ebadf))
    (hfd : 0 ≤ n ∧ n < 16 → r ≠ none) (hnone : n = 16 → r = none) :
    Checked 16 s n r ↔ n ≠ 16 := by
  refine checked_iff (fun hn => ⟨by omega, hfd hn⟩) (fun hn h16 => ?_) fun h => ?_
  · exact ⟨.ebadf, hbad (by omega)⟩
  · exact hnone (not_not.mp h)

/-- The calls that are handed to a device. -/
theorem checked_onDescriptor_iff (n : ℤ) (op : FdOp) (missing : HandleErrno) :
    Checked 16 s n (onDescriptor B s n op missing) ↔ n ≠ 16 := by
  apply checked_descriptor_iff
  · intro h
    exact if_pos h
  · intro h
    rw [onDescriptor, if_neg (by omega), dif_pos (by omega)]
    exact Option.some_ne_none _
  · rintro rfl
    rfl

/-- `SYS_close`. -/
theorem checked_close_iff (n : ℤ) (fClose : FResult) :
    Checked 16 s n (sysCloseHandle s n fClose) ↔ n ≠ 16 := by
  apply checked_descriptor_iff
  · intro h
    rw [sysCloseHandle, sysClose, if_pos h]
    rfl
  · intro h
    rw [sysCloseHandle, sysClose, if_neg (by omega), dif_pos (by omega)]
    exact Option.some_ne_none _
  · rintro rfl
    rfl

/-- The check of a directory lets 8 and the negative numbers through. -/
theorem checked_directory_iff (n : ℤ) (f : Fin 8 → Handles D σ × Answer) :
    Checked 8 s n (onDirectory s n f) ↔ 0 ≤ n ∧ n ≠ 8 := by
  unfold onDirectory
  refine checked_iff (fun hn => ⟨by omega, ?_⟩) (fun hn hP => ?_) fun h => ?_
  · rw [if_neg (by omega), dif_pos (by omega)]
    split
    · exact Option.some_ne_none _
    · exact Option.some_ne_none _
  · exact ⟨.emfile, if_pos (by omega)⟩
  · rw [if_neg (by omega), dif_neg (by omega)]

theorem checked_readdir_iff (n : ℤ) : Checked 8 s n (sysReaddir B s n) ↔ 0 ≤ n ∧ n ≠ 8 := by
  unfold sysReaddir
  exact checked_directory_iff n _

theorem checked_closedir_iff (n : ℤ) : Checked 8 s n (sysClosedir B s n) ↔ 0 ≤ n ∧ n ≠ 8 := by
  unfold sysClosedir
  exact checked_directory_iff n _

/-- **The checks of the calls on handles**: a call on a descriptor is checked for every number but
16, and a call on a directory for every number but 8 and the negative ones. -/
theorem handles_checked_iff {D σ : Type} (B : Below D σ) (s : Handles D σ) (c : HandleCall)
    (n : ℤ) :
    Checked c.size s n (c.run B s n) ↔ n ≠ c.size ∧ (c.onDir = true → 0 ≤ n) := by
  have hfd : ∀ {r : Option (Handles D σ × Answer)}, (Checked 16 s n r ↔ n ≠ 16) →
      (Checked 16 s n r ↔ n ≠ 16 ∧ (false = true → 0 ≤ n)) := fun h =>
    h.trans (and_iff_left fun h => absurd h Bool.false_ne_true).symm
  have hdir : ∀ {r : Option (Handles D σ × Answer)}, (Checked 8 s n r ↔ 0 ≤ n ∧ n ≠ 8) →
      (Checked 8 s n r ↔ n ≠ 8 ∧ (true = true → 0 ≤ n)) := fun h =>
    h.trans (and_comm.trans (and_congr_right fun _ => ⟨fun h _ => h, fun h => h rfl⟩))
  cases c with
  | write buf count => exact hfd (checked_onDescriptor_iff n _ _)
  | read buf count => exact hfd (checked_onDescriptor_iff n _ _)
  | peek => exact hfd (checked_onDescriptor_iff n _ _)
  | ioctl request ptr => exact hfd (checked_onDescriptor_iff n _ _)
  | fstat statbuf => exact hfd (checked_onDescriptor_iff n _ _)
  | lseek offset whence => exact hfd (checked_onDescriptor_iff n _ _)
  | close fClose => exact hfd (checked_close_iff n fClose)
  | readdir => exact hdir (checked_readdir_iff n)
  | closedir => exact hdir (checked_closedir_iff n)

/-- Descriptors after the start, and no open directory. -/
def idleHandles : Handles Unit Unit where
  sys := boot fun _ => 0xFF#8
  dhnd _ := ⟨false, ()⟩
  fno := ⟨[], 0#8, 0#32⟩
  dirent := ⟨[], false, 0#32⟩
  devices := ()

/-- Devices that return 0. -/
def idleBelow : Below Unit Unit where
  fdfunc _ _ _ s := (s, 0#32)
  fReaddir _ := ((), ⟨[], 0#8, 0#32⟩, .FR_OK)
  fClosedir _ := ((), .FR_OK)

/-- A write to the descriptor 16 reads the entry past the table, and so do the handles 8 and -1 of a
directory. -/
theorem handles_beyond :
    sysWrite idleBelow idleHandles 16 0#32 1#32 = none ∧
      sysReaddir idleBelow idleHandles 8 = none ∧
      sysClosedir idleBelow idleHandles (-1) = none ∧
      ¬Checked 16 idleHandles 16 (sysWrite idleBelow idleHandles 16 0#32 1#32) :=
  ⟨rfl, rfl, rfl, fun h => h.inside rfl⟩

end Filestick.FdTable
