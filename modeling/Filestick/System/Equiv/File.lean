import Filestick.System.File

/-!
# What the flags of `open` mean

* `fatfsFlags_create`, `fatfsFlags_creates`, `fatfsFlags_seekend`: the bits of the FatFS mode.
* `fOpen_file`, `fOpen_missing`: `f_open` with such a mode.
* `extends_iff`: a write adds to a file at its end only.
* `open_keeps_posix_iff`: when `fileio_open` and the calls after it keep the meaning of the flags.
-/

namespace Filestick.FileIo

open FdTable
open Machine
open Splice

/-! ### The flags -/

/-- `O_APPEND`. -/
def oAppend : BitVec 32 := 0x0008#32

/-- `O_CREAT`. -/
def oCreat : BitVec 32 := 0x0200#32

/-- `O_TRUNC`. -/
def oTrunc : BitVec 32 := 0x0400#32

/-- `flags` has the bit `flag`. -/
def Has (flags flag : BitVec 32) : Prop := flags &&& flag ≠ 0#32

instance (flags flag : BitVec 32) : Decidable (Has flags flag) :=
  inferInstanceAs (Decidable (_ ≠ _))

theorem fatfsFlags_mask (flags : BitVec 32) : fatfsFlags flags &&& 0x3f#8 = fatfsFlags flags := by
  unfold fatfsFlags
  split_ifs <;> rfl

/-- The bits that make `f_open` create a file. -/
theorem fatfsFlags_creates (flags : BitVec 32) :
    fatfsFlags flags &&& (faCreateAlways ||| faOpenAlways ||| faCreateNew) ≠ 0#8 ↔
      Has flags oAppend ∨ Has flags oCreat ∨ Has flags oTrunc := by
  unfold fatfsFlags Has oAppend oCreat oTrunc
  split_ifs <;> simp_all <;> decide

/-- The bit that makes it empty a file that exists. -/
theorem fatfsFlags_empties (flags : BitVec 32) :
    fatfsFlags flags &&& faCreateAlways ≠ 0#8 ↔ Has flags oCreat ∨ Has flags oTrunc := by
  unfold fatfsFlags Has oCreat oTrunc
  split_ifs <;> simp_all <;> decide

theorem fatfsFlags_seekend (flags : BitVec 32) :
    fatfsFlags flags &&& faSeekend ≠ 0#8 ↔ Has flags oAppend := by
  unfold fatfsFlags Has oAppend
  split_ifs <;> simp_all <;> decide

theorem fatfsFlags_createNew (flags : BitVec 32) : fatfsFlags flags &&& faCreateNew = 0#8 := by
  unfold fatfsFlags
  split_ifs <;> rfl

/-! ### Opening -/

/-- The empty file that `f_open` makes. -/
def emptyFile : Entry := ⟨false, false, []⟩

/-- **A file that exists** is emptied by `O_CREAT` as by `O_TRUNC`, unless it is read only. -/
theorem fOpen_existing (flags : BitVec 32) {entry : Entry} (hdir : entry.dir = false)
    (disc : OpenDisc) :
    (fOpen (fatfsFlags flags) (.ok entry) disc).entry =
      if (Has flags oCreat ∨ Has flags oTrunc) ∧ entry.readOnly = false then .ok emptyFile
      else .ok entry := by
  unfold fOpen
  dsimp only
  rw [fatfsFlags_mask, fatfsFlags_createNew, hdir, Bool.or_false]
  by_cases hempty : Has flags oCreat ∨ Has flags oTrunc
  · have hcreate := (fatfsFlags_creates flags).mpr (Or.inr hempty)
    rw [if_pos hcreate]
    cases hro : entry.readOnly with
    | true => simp
    | false =>
      have hboth : (Has flags oCreat ∨ Has flags oTrunc) ∧ false = false := ⟨hempty, rfl⟩
      rw [if_neg Bool.false_ne_true, if_neg (not_not.mpr rfl),
        if_pos ((fatfsFlags_empties flags).mpr hempty), if_pos hboth]
      rfl
  · have hkeep : ¬fatfsFlags flags &&& faCreateAlways ≠ 0#8 :=
      mt (fatfsFlags_empties flags).mp hempty
    rw [if_neg hkeep, if_neg (c := _ ∧ _) (fun h => hempty h.1)]
    split_ifs <;> rfl

/-- **A missing file** is made by each of the three flags. -/
theorem fOpen_missing (flags : BitVec 32) (disc : OpenDisc) :
    (fOpen (fatfsFlags flags) (.error .FR_NO_FILE) disc).entry =
      if (Has flags oAppend ∨ Has flags oCreat ∨ Has flags oTrunc) ∧ disc.register = .FR_OK then
        .ok emptyFile
      else .error .FR_NO_FILE := by
  unfold fOpen
  dsimp only
  rw [fatfsFlags_mask]
  by_cases hcreate : Has flags oAppend ∨ Has flags oCreat ∨ Has flags oTrunc
  · rw [if_pos ((fatfsFlags_creates flags).mpr hcreate)]
    by_cases hregister : disc.register = .FR_OK
    · rw [if_pos hregister, if_pos ⟨hcreate, hregister⟩]
      rfl
    · rw [if_neg hregister, if_neg (fun h => hregister h.2)]
  · rw [if_neg (mt (fatfsFlags_creates flags).mp hcreate), if_neg (fun h => hcreate h.1)]

theorem attach_content {mode : BitVec 8} {content : List (BitVec 8)} {seek : FResult}
    {o : OpenFile} (h : attach mode content seek = .ok o) : o.content = content := by
  unfold attach at h
  dsimp only at h
  split_ifs at h <;> cases h <;> rfl

/-- The open file has the bytes of the entry. -/
def OpenResult.Attached (r : OpenResult) : Prop :=
  ∀ o, r.file = .ok o → ∃ entry, r.entry = .ok entry ∧ o.content = entry.content

theorem attached_error (found : Except FResult Entry) (res : FResult) :
    OpenResult.Attached ⟨found, .error res⟩ := by
  intro o h
  exact nomatch h

theorem attached_attach (entry : Entry) (mode : BitVec 8) (seek : FResult) :
    OpenResult.Attached ⟨.ok entry, attach mode entry.content seek⟩ := by
  intro o h
  exact ⟨entry, rfl, attach_content h⟩

theorem fOpen_attached (mode : BitVec 8) (found : Except FResult Entry) (disc : OpenDisc) :
    (fOpen mode found disc).Attached := by
  unfold fOpen
  dsimp only
  repeat' split
  all_goals first
    | exact attached_error _ _
    | exact attached_attach _ _ _

theorem attach_seekend {mode : BitVec 8} {content : List (BitVec 8)} {seek : FResult}
    {o : OpenFile} (hmode : mode &&& faSeekend ≠ 0#8) (h : attach mode content seek = .ok o) :
    o.fptr = o.content.length := by
  unfold attach at h
  dsimp only at h
  by_cases hpos : 0 < content.length
  · rw [if_pos ⟨hmode, hpos⟩] at h
    by_cases hseek : seek = .FR_OK
    · rw [if_pos hseek] at h
      cases h
      rfl
    · rw [if_neg hseek] at h
      exact nomatch h
  · rw [if_neg fun hboth => hpos hboth.2] at h
    cases h
    exact (Nat.eq_zero_of_not_pos hpos).symm

/-- `FA_OPEN_APPEND` leaves the file pointer at the end of the file. -/
theorem fOpen_append {flags : BitVec 32} (happend : Has flags oAppend)
    {found : Except FResult Entry} {disc : OpenDisc} {o : OpenFile}
    (h : (fOpen (fatfsFlags flags) found disc).file = .ok o) : o.fptr = o.content.length := by
  have hmode := (fatfsFlags_seekend flags).mpr happend
  have hmade : (fatfsFlags flags ||| faCreateAlways) &&& faSeekend ≠ 0#8 := by
    revert hmode
    generalize fatfsFlags flags = mode
    revert mode
    decide
  revert h
  unfold fOpen
  dsimp only
  rw [fatfsFlags_mask]
  repeat' split
  all_goals first
    | exact attach_seekend hmode
    | exact attach_seekend hmade
    | exact fun h => nomatch h

/-- What the path leads to after `fileio_open`: nothing happens without a descriptor. -/
theorem fileioOpen_entry (s : Sys) (path : List Char) (flags : BitVec 32)
    (found : Except FResult Entry) (disc : OpenDisc) :
    (fileioOpen s path flags found disc).entry =
      if fdAlloc s = none then found else (fOpen (fatfsFlags flags) found disc).entry := by
  unfold fileioOpen
  dsimp only
  cases fdAlloc s with
  | none => exact (if_pos rfl).symm
  | some r => exact (if_neg (by exact fun h => nomatch h)).symm

/-- When a missing file is made. -/
theorem missing_made_iff (s : Sys) (path : List Char) (flags : BitVec 32) (disc : OpenDisc) :
    (∃ entry, (fileioOpen s path flags (.error .FR_NO_FILE) disc).entry = .ok entry) ↔
      (fdAlloc s ≠ none ∧ disc.register = .FR_OK) ∧
        (Has flags oAppend ∨ Has flags oCreat ∨ Has flags oTrunc) := by
  rw [fileioOpen_entry, fOpen_missing]
  split_ifs with hfull hmade
  · constructor
    · rintro ⟨entry, hentry⟩
      exact nomatch hentry
    · exact fun h => absurd hfull h.1.1
  · exact ⟨fun _ => ⟨⟨hfull, hmade.2⟩, hmade.1⟩, fun _ => ⟨emptyFile, rfl⟩⟩
  · constructor
    · rintro ⟨entry, hentry⟩
      exact nomatch hentry
    · exact fun h => absurd ⟨h.2, h.1.2⟩ hmade

theorem fileioOpen_file {s : Sys} {path : List Char} {flags : BitVec 32}
    {found : Except FResult Entry} {disc : OpenDisc} {o : OpenFile}
    (h : (fileioOpen s path flags found disc).file = some o) :
    (fOpen (fatfsFlags flags) found disc).file = .ok o := by
  unfold fileioOpen at h
  dsimp only at h
  cases halloc : fdAlloc s with
  | none =>
    rw [halloc] at h
    exact nomatch h
  | some r =>
    rw [halloc] at h
    have hopt : (fOpen (fatfsFlags flags) found disc).file.toOption = some o := h
    cases hfile : (fOpen (fatfsFlags flags) found disc).file with
    | ok o' =>
      rw [hfile] at hopt
      exact congrArg Except.ok (Option.some.inj hopt)
    | error res =>
      rw [hfile] at hopt
      exact nomatch hopt

theorem fileioOpen_content {s : Sys} {path : List Char} {flags : BitVec 32}
    {found : Except FResult Entry} {disc : OpenDisc} {o : OpenFile}
    (h : (fileioOpen s path flags found disc).file = some o) :
    ∃ entry, (fileioOpen s path flags found disc).entry = .ok entry ∧
      o.content = entry.content := by
  have hfree : fdAlloc s ≠ none := by
    intro hfull
    unfold fileioOpen at h
    dsimp only at h
    rw [hfull] at h
    exact nomatch h
  rw [fileioOpen_entry, if_neg hfree]
  exact fOpen_attached _ _ _ _ (fileioOpen_file h)

/-- With `O_CREAT` the open file is empty. -/
theorem fileioOpen_creat {s : Sys} {path : List Char} {flags : BitVec 32}
    {found : Except FResult Entry} {disc : OpenDisc} {o : OpenFile} (hcreat : Has flags oCreat)
    (h : (fileioOpen s path flags found disc).file = some o) : o.content = [] := by
  have hempties := (fatfsFlags_empties flags).mpr (Or.inl hcreat)
  have hcreates := (fatfsFlags_creates flags).mpr (Or.inr (Or.inl hcreat))
  have hfile := fileioOpen_file h
  revert hfile
  unfold fOpen
  dsimp only
  rw [fatfsFlags_mask, if_pos hcreates]
  repeat' split
  all_goals first
    | exact attach_content
    | exact fun h => nomatch h

/-! ### Writes -/

theorem fileioWrite_content (o : OpenFile) (buf : List (BitVec 8)) (disc : Transfer) :
    (fileioWrite o buf disc).1.content =
      splice o.content o.fptr (buf.take (o.stored buf disc)) := by
  unfold fileioWrite fWrite
  by_cases hbad : o.err ≠ .FR_OK ∨ o.flag &&& faWrite = 0#8
  · have hnone : o.stored buf disc = 0 := if_pos hbad
    rw [hnone, List.take_zero, splice_nil]
    obtain herr | hflag := hbad
    · rw [if_pos herr]
    · split_ifs <;> rfl
  · rw [not_or] at hbad
    rw [if_neg hbad.1, if_neg hbad.2]
    dsimp only
    split_ifs <;> rfl

theorem fileioWrite_fptr (o : OpenFile) (buf : List (BitVec 8)) (disc : Transfer) :
    (fileioWrite o buf disc).1.fptr = o.fptr + o.stored buf disc := by
  have hlen : (buf.take (o.stored buf disc)).length = o.stored buf disc :=
    List.length_take_of_le (o.stored_le buf disc)
  unfold fileioWrite fWrite
  by_cases hbad : o.err ≠ .FR_OK ∨ o.flag &&& faWrite = 0#8
  · have hnone : o.stored buf disc = 0 := if_pos hbad
    rw [hnone, Nat.add_zero]
    obtain herr | hflag := hbad
    · rw [if_pos herr]
    · split_ifs <;> rfl
  · rw [not_or] at hbad
    rw [if_neg hbad.1, if_neg hbad.2]
    dsimp only
    split_ifs
    · exact congrArg (o.fptr + ·) hlen
    · exact congrArg (o.fptr + ·) hlen

/-- If the call is a write, what it stores is added to the file. -/
def Extends (o : OpenFile) : FileCall → Prop
  | .write buf disc =>
    (fileioWrite o buf disc).1.content = o.content ++ buf.take (o.stored buf disc)
  | _ => True

/-- If the call is a write that stores anything, the file pointer is at the end of the file. -/
def AtEnd (o : OpenFile) : FileCall → Prop
  | .write buf disc => o.fptr = o.content.length ∨ o.stored buf disc = 0
  | _ => True

theorem extends_iff (o : OpenFile) (c : FileCall) : Extends o c ↔ AtEnd o c := by
  cases c with
  | write buf disc =>
    show (fileioWrite o buf disc).1.content = _ ↔ o.fptr = o.content.length ∨ _
    rw [fileioWrite_content, splice_eq_append_iff o.le, ← List.length_eq_zero_iff,
      List.length_take_of_le (o.stored_le buf disc)]
  | read count disc => exact Iff.rfl
  | lseek offset whence disc => exact Iff.rfl

/-- A write leaves the file pointer at the end of the file. -/
theorem fileioWrite_end {o : OpenFile} (h : o.fptr = o.content.length) (buf : List (BitVec 8))
    (disc : Transfer) :
    (fileioWrite o buf disc).1.fptr = (fileioWrite o buf disc).1.content.length := by
  rw [fileioWrite_fptr, fileioWrite_content, h, splice_length, List.length_append,
    List.length_take_of_le (o.stored_le buf disc)]

theorem writes_atEnd {calls : List FileCall}
    (hwrites : ∀ c ∈ calls, ∃ buf disc, c = .write buf disc) {o : OpenFile}
    (h : o.fptr = o.content.length) : StepsMeet FileCall.step AtEnd o calls := by
  induction calls generalizing o with
  | nil => trivial
  | cons c calls ih =>
    obtain ⟨buf, disc, rfl⟩ := hwrites c List.mem_cons_self
    exact ⟨Or.inl h, ih (fun c' hc => hwrites c' (List.mem_cons_of_mem _ hc))
      (fileioWrite_end h buf disc)⟩

/-- With nothing but writes after it, `O_APPEND` is enough. -/
theorem append_writes_atEnd {s : Sys} {path : List Char} {flags : BitVec 32}
    {found : Except FResult Entry} {disc : OpenDisc} {o : OpenFile} (happend : Has flags oAppend)
    (h : (fileioOpen s path flags found disc).file = some o) {calls : List FileCall}
    (hwrites : ∀ c ∈ calls, ∃ buf disc, c = .write buf disc) :
    StepsMeet FileCall.step AtEnd o calls :=
  writes_atEnd hwrites (fOpen_append happend (fileioOpen_file h))

/-! ### The meaning of the flags -/

/-- The flags keep their meaning.  A file that exists is left as it is without `O_TRUNC`, and
extended by writes with `O_APPEND`; a missing file is made by `O_CREAT` and by nothing else. -/
def KeepsPosix (s : Sys) (path : List Char) (flags : BitVec 32) (found : Except FResult Entry)
    (disc : OpenDisc) (calls : List FileCall) : Prop :=
  let r := fileioOpen s path flags found disc
  match found with
  | .ok entry => entry.dir = false → ¬Has flags oTrunc →
      (∃ entry', r.entry = .ok entry' ∧ entry'.content = entry.content) ∧
        (Has flags oAppend → ∀ o, r.file = some o →
          o.content = entry.content ∧ StepsMeet FileCall.step Extends o calls)
  | .error .FR_NO_FILE => (∃ entry, r.entry = .ok entry) ↔ Has flags oCreat
  | .error _ => True

/-- `O_CREAT` is not given for a file that has anything in it, and no write after `O_APPEND` is made
while the file pointer is elsewhere.  `O_APPEND` and `O_TRUNC` are not given for a missing file
without `O_CREAT`, or it cannot be made anyway. -/
def PosixFlags (s : Sys) (path : List Char) (flags : BitVec 32) (found : Except FResult Entry)
    (disc : OpenDisc) (calls : List FileCall) : Prop :=
  match found with
  | .ok entry => entry.dir = false → ¬Has flags oTrunc →
      (Has flags oCreat → entry.content = [] ∨ entry.readOnly = true ∨ fdAlloc s = none) ∧
        (Has flags oAppend → ∀ o, (fileioOpen s path flags found disc).file = some o →
          StepsMeet FileCall.step AtEnd o calls)
  | .error .FR_NO_FILE =>
      if fdAlloc s ≠ none ∧ disc.register = .FR_OK then
        Has flags oCreat ∨ ¬Has flags oAppend ∧ ¬Has flags oTrunc
      else ¬Has flags oCreat
  | .error _ => True

/-- What is in a file after it has been opened without `O_TRUNC`. -/
theorem content_kept_iff (s : Sys) (path : List Char) {flags : BitVec 32} {entry : Entry}
    (disc : OpenDisc) (hdir : entry.dir = false) (htrunc : ¬Has flags oTrunc) :
    (∃ entry', (fileioOpen s path flags (.ok entry) disc).entry = .ok entry' ∧
        entry'.content = entry.content) ↔
      (Has flags oCreat → entry.content = [] ∨ entry.readOnly = true ∨ fdAlloc s = none) := by
  have hentry := fileioOpen_entry s path flags (.ok entry) disc
  rw [fOpen_existing flags hdir] at hentry
  rw [hentry]
  constructor
  · rintro ⟨entry', hentry', hsame⟩ hcreat
    by_contra hbad
    rw [not_or, not_or, Bool.not_eq_true] at hbad
    rw [if_neg hbad.2.2, if_pos ⟨Or.inl hcreat, hbad.2.1⟩] at hentry'
    obtain rfl := Except.ok.inj hentry'
    exact hbad.1 hsame.symm
  · intro hcreat
    by_cases hfull : fdAlloc s = none
    · rw [if_pos hfull]
      exact ⟨entry, rfl, rfl⟩
    rw [if_neg hfull]
    by_cases hempties : (Has flags oCreat ∨ Has flags oTrunc) ∧ entry.readOnly = false
    · rw [if_pos hempties]
      obtain hnil | hro | hnone := hcreat (hempties.1.resolve_right htrunc)
      · exact ⟨emptyFile, rfl, hnil.symm⟩
      · exact absurd hro (by simp [hempties.2])
      · exact absurd hnone hfull
    · rw [if_neg hempties]
      exact ⟨entry, rfl, rfl⟩

/-- A missing file is made by `O_CREAT` alone. -/
theorem made_by_creat_iff (s : Sys) (path : List Char) (flags : BitVec 32) (disc : OpenDisc) :
    ((∃ entry, (fileioOpen s path flags (.error .FR_NO_FILE) disc).entry = .ok entry) ↔
        Has flags oCreat) ↔
      if fdAlloc s ≠ none ∧ disc.register = .FR_OK then
        Has flags oCreat ∨ ¬Has flags oAppend ∧ ¬Has flags oTrunc
      else ¬Has flags oCreat := by
  rw [missing_made_iff]
  split_ifs with hroom
  · rw [and_iff_right hroom]
    constructor
    · intro hiff
      by_cases hcreat : Has flags oCreat
      · exact Or.inl hcreat
      · exact Or.inr ⟨fun happend => hcreat (hiff.mp (Or.inl happend)),
          fun htrunc => hcreat (hiff.mp (Or.inr (Or.inr htrunc)))⟩
    · rintro (hcreat | ⟨happend, htrunc⟩)
      · exact ⟨fun _ => hcreat, fun _ => Or.inr (Or.inl hcreat)⟩
      · rw [or_iff_right happend, or_iff_left htrunc]
  · constructor
    · intro hiff hcreat
      exact hroom (hiff.mpr hcreat).1
    · intro hcreat
      exact iff_of_false (fun h => hroom h.1) hcreat

/-- **The flags keep their meaning** under these conditions, and only then. -/
theorem open_keeps_posix_iff (s : Sys) (path : List Char) (flags : BitVec 32)
    (found : Except FResult Entry) (disc : OpenDisc) (calls : List FileCall) :
    KeepsPosix s path flags found disc calls ↔ PosixFlags s path flags found disc calls := by
  unfold KeepsPosix PosixFlags
  dsimp only
  split
  · next entry =>
    apply forall_congr'
    intro hdir
    apply forall_congr'
    intro htrunc
    rw [← content_kept_iff s path disc hdir htrunc]
    apply and_congr_right
    rintro ⟨entry', hentry', hsame⟩
    apply forall_congr'
    intro happend
    apply forall_congr'
    intro o
    apply forall_congr'
    intro ho
    have hkept : o.content = entry.content := by
      obtain ⟨entry'', hentry'', hcontent⟩ := fileioOpen_content ho
      obtain rfl := Except.ok.inj (hentry'.symm.trans hentry'')
      exact hcontent.trans hsame
    rw [and_iff_right hkept]
    exact stepsMeet_congr extends_iff o calls
  · exact made_by_creat_iff s path flags disc
  · exact Iff.rfl

/-- `open(path, O_CREAT | O_WRONLY)` empties a file of one byte. -/
theorem creat_empties_file :
    ¬KeepsPosix (boot fun _ => 0xff#8) "a".toList 0x201#32 (.ok ⟨false, false, [1#8]⟩)
      ⟨.FR_OK, .FR_OK, .FR_OK⟩ [] := by
  intro h
  obtain ⟨⟨entry', hentry', hsame⟩, -⟩ := h rfl (by decide)
  rw [fileioOpen_entry, fOpen_existing 0x201#32 rfl, if_neg (by decide +kernel),
    if_pos (by decide)] at hentry'
  obtain rfl := Except.ok.inj hentry'
  exact nomatch hsame

end Filestick.FileIo
