import Filestick.System.Sbrk
import Filestick.Lib.Machine

/-!
# The contract of `_sbrk`

* `InStep`: `memptr` is the break of the kernel, and the break is not below `min_brk`.
* `fetch_fresh`, `fetch_of_inStep`: the first call brings the two in step; later ones find them so.
* `sbrk_of_inStep`: what one call does.
* `run_started`: every run is fresh or in step.
* `contract_iff`: after every run, a call keeps the contract unless it asks for no change of a break
  that the kernel accepts.
-/

namespace Filestick.Sbrk

open Elf (Addr Brk setMinBrk sysBrk)
open Machine (run run_invariant_of_step)

/-! ### The break of the kernel -/

/-- `min_brk` above the global pointer. -/
def floor (gp : Addr) (b : Brk) : Addr :=
  if b.minBrk < gp + 0x800#32 then gp + 0x800#32 else b.minBrk

/-- The break as `SYS_brk` takes it. -/
def breakOf (gp : Addr) (b : Brk) : Addr :=
  if b.programBrk < floor gp b then floor gp b else b.programBrk

/-- The kernel does not accept the break `a`. -/
def Outside (gp : Addr) (b : Brk) (sp a : Addr) : Prop := sp - 1024#32 < a ∨ a < floor gp b

instance (gp : Addr) (b : Brk) (sp a : Addr) : Decidable (Outside gp b sp a) :=
  inferInstanceAs (Decidable (_ ∨ _))

/-- **The contract of a call**: it returns the break and moves it by `incr`, or it fails on a break
out of the range, and leaves the old one. -/
def Contract (gp : Addr) (s : State) (c : Call) : Prop :=
  let r := sbrk gp s c
  let brk := breakOf gp s.brk
  (r.2 = some brk ∧ r.1.brk.programBrk = brk + c.incr ∨
    r.2 = none ∧ r.1.brk.programBrk = brk ∧ Outside gp s.brk c.sp (brk + c.incr)) ∧
  r.1.memptr = r.1.brk.programBrk

instance (gp : Addr) (s : State) (c : Call) : Decidable (Contract gp s c) :=
  inferInstanceAs (Decidable (_ ∧ _))

theorem sysBrk_eq (gp sp a : Addr) (b : Brk) :
    sysBrk b gp sp a =
      if Outside gp b sp a then (⟨breakOf gp b, floor gp b⟩, breakOf gp b)
      else (⟨a, floor gp b⟩, a) := rfl

variable {gp : Addr} {s : State}

/-! ### The library and the kernel in step -/

/-- `memptr` is the break of the kernel, which keeps above the global pointer. -/
structure InStep (gp : Addr) (s : State) : Prop where
  memptr_eq : s.memptr = s.brk.programBrk
  floor_eq : floor gp s.brk = s.brk.minBrk
  minBrk_le : s.brk.minBrk ≤ s.brk.programBrk

/-- The statics before the first call and after it. -/
def Started (gp e : Addr) (s : State) : Prop := s = fresh e ∨ InStep gp s

theorem InStep.breakOf_eq (h : InStep gp s) : breakOf gp s.brk = s.brk.programBrk := by
  unfold breakOf
  rw [h.floor_eq]
  exact if_neg (BitVec.not_lt.mpr h.minBrk_le)

theorem floor_of_le {p m : Addr} (h : gp + 0x800#32 ≤ m) : floor gp ⟨p, m⟩ = m :=
  if_neg (BitVec.not_lt.mpr h)

theorem le_floor (gp : Addr) (b : Brk) : gp + 0x800#32 ≤ floor gp b := by
  unfold floor
  split_ifs with h
  · exact BitVec.le_refl _
  · exact BitVec.not_lt.mp h

theorem breakOf_setMinBrk (gp e : Addr) : breakOf gp (setMinBrk e) = floor gp (setMinBrk e) := by
  unfold breakOf floor setMinBrk
  split_ifs with h
  · rfl
  · rfl
  · rfl

/-- Zero is not accepted unless it is the break already. -/
theorem sysBrk_zero_of_fixed {b : Brk} (sp : Addr) (h : breakOf gp b = floor gp b) :
    sysBrk b gp sp 0#32 = (⟨floor gp b, floor gp b⟩, floor gp b) := by
  rw [sysBrk_eq, h]
  split_ifs with hout
  · rfl
  · have hzero : floor gp b = 0#32 := by
      unfold Outside at hout
      bv_omega
    rw [hzero]

theorem fetch_fresh (gp e sp : Addr) :
    fetch gp (fresh e) sp =
      ⟨floor gp (setMinBrk e), ⟨floor gp (setMinBrk e), floor gp (setMinBrk e)⟩⟩ := by
  have hbrk := sysBrk_zero_of_fixed sp (breakOf_setMinBrk gp e)
  unfold fetch fresh
  rw [if_pos rfl, hbrk]

theorem fetch_of_inStep (h : InStep gp s) (sp : Addr) : fetch gp s sp = s := by
  unfold fetch
  by_cases hzero : s.memptr = 0#32
  · obtain ⟨m, p, n⟩ := s
    obtain ⟨hm, hf, hle⟩ := h
    dsimp only at hm hf hle hzero
    obtain rfl : p = 0#32 := hm.symm.trans hzero
    obtain rfl : n = 0#32 := by bv_omega
    have hfixed : breakOf gp ⟨0#32, 0#32⟩ = floor gp ⟨0#32, 0#32⟩ := by
      unfold breakOf
      rw [hf]
      exact ite_self _
    rw [if_pos hzero, sysBrk_zero_of_fixed sp hfixed, hf, hzero]
  · exact if_neg hzero

theorem Started.inStep_fetch {e : Addr} (h : Started gp e s) (sp : Addr) :
    InStep gp (fetch gp s sp) ∧ (fetch gp s sp).brk.programBrk = breakOf gp s.brk ∧
      (fetch gp s sp).brk.minBrk = floor gp s.brk := by
  rcases h with rfl | h
  · have hbrk : (fresh e).brk = setMinBrk e := rfl
    rw [fetch_fresh, hbrk, breakOf_setMinBrk]
    have hle := le_floor gp (setMinBrk e)
    generalize floor gp (setMinBrk e) = m at hle ⊢
    exact ⟨⟨rfl, floor_of_le hle, BitVec.le_refl m⟩, rfl, rfl⟩
  · rw [fetch_of_inStep h]
    exact ⟨h, h.breakOf_eq.symm, h.floor_eq.symm⟩

/-! ### One call -/

/-- One call, once `memptr` has been fetched. -/
theorem sbrk_of_inStep {c : Call} (h : InStep gp (fetch gp s c.sp)) :
    sbrk gp s c =
      let f := fetch gp s c.sp
      let a := f.brk.programBrk + c.incr
      if Outside gp f.brk c.sp a ∨ c.incr = 0#32 then (f, none)
      else (⟨a, ⟨a, f.brk.minBrk⟩⟩, some f.brk.programBrk) := by
  unfold sbrk
  generalize fetch gp s c.sp = f at h ⊢
  obtain ⟨m, b⟩ := f
  have hbreak := h.breakOf_eq
  obtain ⟨hm, hf, hle⟩ := h
  dsimp only at hm hbreak hf hle ⊢
  subst hm
  rw [sysBrk_eq, hbreak, hf]
  by_cases hout : Outside gp b c.sp (b.programBrk + c.incr)
  · rw [if_pos hout, if_pos rfl, if_pos (Or.inl hout)]
  · rw [if_neg hout]
    dsimp only
    by_cases hincr : c.incr = 0#32
    · rw [hincr, BitVec.add_zero, if_pos rfl, if_pos (Or.inr rfl)]
    · have hne : b.programBrk + c.incr ≠ b.programBrk := by
        intro heq
        apply hincr
        bv_omega
      rw [if_neg hne, if_neg (not_or.mpr ⟨hout, hincr⟩)]

/-- A call keeps the two in step. -/
theorem inStep_next {e : Addr} (h : Started gp e s) (c : Call) : InStep gp (next gp s c) := by
  obtain ⟨hstep, -, -⟩ := h.inStep_fetch c.sp
  unfold next
  rw [sbrk_of_inStep hstep]
  generalize fetch gp s c.sp = f at hstep ⊢
  dsimp only
  split_ifs with hout
  · exact hstep
  · obtain ⟨-, hf, -⟩ := hstep
    rw [not_or] at hout
    unfold Outside at hout
    rw [hf, not_or] at hout
    refine ⟨rfl, ?_, BitVec.not_lt.mp hout.1.2⟩
    exact floor_of_le (hf ▸ le_floor gp f.brk)

/-! ### Runs -/

theorem run_started (gp e : Addr) (calls : List Call) :
    Started gp e (run (next gp) (fresh e) calls) :=
  run_invariant_of_step (I := Started gp e) (fun _ c h => Or.inr (inStep_next h c)) calls
    (Or.inl rfl)

/-- After the first call, the break is what the last call has left. -/
theorem breakOf_run (gp e : Addr) (calls : List Call) (c : Call) :
    let s := next gp (run (next gp) (fresh e) calls) c
    breakOf gp s.brk = s.brk.programBrk ∧ s.memptr = s.brk.programBrk := by
  have hstep := inStep_next (run_started gp e calls) c
  exact ⟨hstep.breakOf_eq, hstep.memptr_eq⟩

/-- **After every run, a call keeps the contract** if and only if it asks for a change, or finds the
break closer to the stack than it may be. -/
theorem contract_iff (gp e : Addr) (calls : List Call) (c : Call) :
    let s := run (next gp) (fresh e) calls
    Contract gp s c ↔ c.incr ≠ 0#32 ∨ c.sp - 1024#32 < breakOf gp s.brk := by
  have hstarted := run_started gp e calls
  generalize run (next gp) (fresh e) calls = s at hstarted ⊢
  obtain ⟨hstep, hbrk, hmin⟩ := hstarted.inStep_fetch c.sp
  have hfloor : floor gp (fetch gp s c.sp).brk = floor gp s.brk := hstep.floor_eq.trans hmin
  have houtside (a : Addr) : Outside gp (fetch gp s c.sp).brk c.sp a ↔ Outside gp s.brk c.sp a := by
    unfold Outside
    rw [hfloor]
  have hnext := (inStep_next hstarted c).memptr_eq
  have hle : floor gp s.brk ≤ breakOf gp s.brk := by
    rw [← hbrk, ← hmin]
    exact hstep.minBrk_le
  unfold Contract
  unfold next at hnext
  dsimp only
  rw [and_iff_left hnext, sbrk_of_inStep hstep]
  simp only [hbrk, houtside]
  by_cases hincr : c.incr = 0#32
  · -- nothing is asked for: the answer is the one of a failure
    rw [hincr, BitVec.add_zero, if_pos (Or.inr rfl)]
    dsimp only
    rw [hbrk]
    constructor
    · rintro (⟨hnone, -⟩ | ⟨-, -, hout⟩)
      · cases hnone
      · right
        unfold Outside at hout
        bv_omega
    · rintro (hne | hlt)
      · exact absurd rfl hne
      · exact Or.inr ⟨rfl, rfl, Or.inl hlt⟩
  · refine iff_of_true ?_ (Or.inl hincr)
    by_cases hout : Outside gp s.brk c.sp (breakOf gp s.brk + c.incr)
    · rw [if_pos (Or.inl hout)]
      exact Or.inr ⟨rfl, hbrk, hout⟩
    · rw [if_neg (not_or.mpr ⟨hout, hincr⟩)]
      exact Or.inl ⟨rfl, rfl⟩

/-- **`_sbrk(0)` fails**: the break is at `0x12345`, and it stays there. -/
theorem sbrk_zero_fails :
    (sbrk 0x11000#32 (fresh 0x12345#32) ⟨0x21BE0#32, 0#32⟩).2 = none ∧
      ¬Contract 0x11000#32 (run (next 0x11000#32) (fresh 0x12345#32) []) ⟨0x21BE0#32, 0#32⟩ := by
  decide +kernel

end Filestick.Sbrk
