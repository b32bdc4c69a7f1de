import Filestick.System.Equiv.Elfload

/-!
# Programs that are not started

`elf_run` sets up the arguments on the stack of the user before it looks for the program, clears the
memory of the user before it loads it, and returns `ENOEXEC` as a positive number.

* `runArgs_status`: what is returned once the arguments have been copied.
* `noEffect_iff`: a call fails with a negative number and leaves the memory of the user as it was if
  and only if there is no memory for the copy of the arguments.
-/

namespace Filestick.Elf

/-- The call fails, whatever the status on the stack of the kernel is: it returns a negative number
and leaves the memory of the user as it was. -/
def NoEffect (env : Env) (last args : Addr) (m : Image) : Prop :=
  ∀ status, ∃ rc mem', elfRun { env with status } last args m = some (.returned rc mem') ∧
    rc.slt 0#32 = true ∧ ∀ a : Addr, a.toNat ∈ userMem userSp → mem' a = m.mem a

/-- The arguments have to be copied, and there is no memory for the copy. -/
def OutOfMemory (env : Env) (mem : Mem) (args : Addr) : Prop :=
  10000 < args.toNat ∧ ∃ len, strlen mem args = some len ∧ env.kmalloc (len + 1) = none

theorem elfReadEhdr_status (f : File) (offset : BitVec 32) (header : Buf) :
    (elfReadEhdr f offset header).1 = 0#32 ∨ (elfReadEhdr f offset header).1 = enoexec := by
  unfold elfReadEhdr
  dsimp only
  split_ifs
  · exact Or.inr rfl
  · exact Or.inr rfl
  · exact Or.inr rfl
  · exact Or.inr rfl
  · exact Or.inr rfl
  · exact Or.inl rfl

theorem elfValidatePhdr_status (f : File) (offset : BitVec 32) (h : Elf32Ehdr) (phdr : Buf) :
    elfValidatePhdr f offset h phdr = 0#32 ∨ elfValidatePhdr f offset h phdr = enoexec := by
  rw [elfValidatePhdr, validateFrom_eq]
  split_ifs
  · exact Or.inr rfl
  · exact Or.inl rfl

/-- The status of the loader is 0 or `ENOEXEC`. -/
theorem elfLoadFd_status {f : File} {offset : BitVec 32} {stackPtr : Addr} {l : Locals} {m : Image}
    {r : Loaded} (hr : elfLoadFd f offset stackPtr l m = some r) :
    r.status = 0#32 ∨ r.status = enoexec := by
  have hread := elfReadEhdr_status f offset l.header
  unfold elfLoadFd at hr
  generalize elfReadEhdr f offset l.header = p at hr hread
  obtain ⟨status, h⟩ := p
  dsimp only at hr hread
  have hvalid := elfValidatePhdr_status f offset h l.validated
  split_ifs at hr with hstatus hzero hsize
  · obtain rfl := Option.some.inj hr
    exact hread
  · rw [Option.bind_eq_bind, Option.bind_eq_some_iff] at hr
    obtain ⟨mem, _, hmem⟩ := hr
    obtain rfl := Option.some.inj hmem
    exact hvalid
  · obtain rfl := Option.some.inj hr
    exact hvalid

/-- A file that cannot be opened leaves the status as it was. -/
theorem elfLoad_status {env : Env} {filename : Addr} {offset : BitVec 32} {stackPtr : Addr}
    {m : Image} {r : Loaded} (hr : elfLoad env filename offset stackPtr m = some r) :
    r.status = env.status ∨ r.status = 0#32 ∨ r.status = enoexec := by
  unfold elfLoad at hr
  rw [Option.bind_eq_bind, Option.bind_eq_some_iff] at hr
  obtain ⟨path, _, hr⟩ := hr
  cases hopen : env.sysOpen path with
  | none =>
    rw [hopen] at hr
    obtain rfl := Option.some.inj hr
    exact Or.inl rfl
  | some f =>
    rw [hopen] at hr
    exact Or.inr (elfLoadFd_status hr)

/-- **What is returned** once the arguments are out of the way. -/
theorem runArgs_status {env : Env} {last args : Addr} {m : Image} {rc : BitVec 32} {mem' : Mem}
    (hr : runArgs env last args m = some (.returned rc mem')) :
    rc = env.status ∨ rc = 0#32 ∨ rc = enoexec := by
  unfold runArgs at hr
  rw [Option.bind_eq_bind, Option.bind_eq_some_iff] at hr
  obtain ⟨s, _, hr⟩ := hr
  rw [Option.bind_eq_bind, Option.bind_eq_some_iff] at hr
  obtain ⟨r, hload, hr⟩ := hr
  have hstatus := elfLoad_status hload
  split_ifs at hr with hstart
  · exact absurd (Option.some.inj hr) (by simp)
  · obtain ⟨rfl, -⟩ := Run.returned.inj (Option.some.inj hr)
    exact hstatus

/-- With a status of 0 nothing negative is returned after the arguments have been copied. -/
theorem not_negative {env : Env} {last args : Addr} {m : Image} {rc : BitVec 32} {mem' : Mem}
    (hzero : env.status = 0#32) (hr : runArgs env last args m = some (.returned rc mem')) :
    rc.slt 0#32 = false := by
  have hstatus := runArgs_status hr
  rw [hzero] at hstatus
  rcases hstatus with rfl | rfl | rfl
  · decide
  · decide
  · decide

/-- **A failed call is without effect** if and only if there is no memory for the copy of the
arguments. -/
theorem noEffect_iff (env : Env) (last args : Addr) (m : Image) :
    NoEffect env last args m ↔ OutOfMemory env m.mem args := by
  constructor
  · intro h
    obtain ⟨rc, mem', hrun, hneg, -⟩ := h 0#32
    have habsurd : ∀ {args' m'},
        runArgs { env with status := 0#32 } last args' m' = some (.returned rc mem') → False := by
      intro args' m' hargs
      rw [not_negative rfl hargs] at hneg
      exact Bool.false_ne_true hneg
    unfold elfRun at hrun
    split_ifs at hrun with hspace
    · rw [Option.bind_eq_bind, Option.bind_eq_some_iff] at hrun
      obtain ⟨len, hlen, hrun⟩ := hrun
      refine ⟨hspace, len, hlen, ?_⟩
      dsimp only at hrun
      cases hmalloc : env.kmalloc (len + 1) with
      | none => rfl
      | some tmpargs =>
        rw [hmalloc] at hrun
        dsimp only at hrun
        rw [hlen] at hrun
        exact (habsurd hrun).elim
    · exact (habsurd hrun).elim
  · rintro ⟨hspace, len, hlen, hmalloc⟩ status
    refine ⟨negEnomem, m.mem, ?_, by decide, fun _ _ => rfl⟩
    rw [elfRun, if_pos hspace, hlen, Option.bind_eq_bind, Option.bind_some]
    dsimp only
    rw [hmalloc]
    rfl

/-- A disc with one file, which is empty, and room for a copy of the arguments. -/
def emptyFileEnv : Env where
  kmalloc _ := some 0x8000#32
  sysOpen path := if path = [0x61#8] then some ⟨[], by decide⟩ else none
  locals := zeroLocals
  status := 0#32

/-- The name of the file in the memory of the user. -/
def nameImage : Image :=
  ⟨fun a => if a = 0x10100#32 then 0x61#8 else 0#8, ⟨0x10000#32, 0x10000#32⟩, []⟩

/-- What a call returns, and a cell of the memory that it leaves. -/
def returnedAt (a : Addr) : Option Run → Option (BitVec 32 × BitVec 8)
  | some (.returned rc mem) => some (rc, mem a)
  | _ => none

theorem returnedAt_eq_some {a : Addr} {run : Option Run} {rc : BitVec 32} {x : BitVec 8}
    (h : returnedAt a run = some (rc, x)) : ∃ mem, run = some (.returned rc mem) ∧ mem a = x := by
  match run with
  | none => exact absurd h.symm (Option.some_ne_none _)
  | some (.started _ _ _) => exact absurd h.symm (Option.some_ne_none _)
  | some (.returned rc' mem) =>
    obtain ⟨rfl, rfl⟩ := Prod.mk.inj (Option.some.inj h)
    exact ⟨mem, rfl, rfl⟩

/-- **A file that is no program**: the number that is returned is positive, and there is an `argc`
in the memory of the user where there was none. -/
theorem emptyFile_returned :
    ∃ mem', elfRun emptyFileEnv 0#32 0x10100#32 nameImage = some (.returned 8#32 mem') ∧
      nameImage.mem 0x21BD0#32 = 0#8 ∧ mem' 0x21BD0#32 = 1#8 ∧
      ¬NoEffect emptyFileEnv 0#32 0x10100#32 nameImage := by
  have hrun : returnedAt 0x21BD0#32 (elfRun emptyFileEnv 0#32 0x10100#32 nameImage) =
      some (8#32, 1#8) := by decide +kernel
  obtain ⟨mem', hmem, hargc⟩ := returnedAt_eq_some hrun
  refine ⟨mem', hmem, rfl, hargc, fun h => ?_⟩
  obtain ⟨rc, mem, hrc, hneg, -⟩ := h 0#32
  obtain ⟨rfl, -⟩ := Run.returned.inj (Option.some.inj (hmem.symm.trans hrc))
  exact absurd hneg (by decide)

end Filestick.Elf
