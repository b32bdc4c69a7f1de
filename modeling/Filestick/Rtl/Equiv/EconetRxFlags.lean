import Filestick.Rtl.Equiv.EconetRxPhy
import Filestick.Rtl.Equiv.EconetRxBuffered

/-!
# Flags and idle lines

`STATE_PHY_RX_SYNC` looks for the rest of a flag: six 1s and a 0.  It is entered on a 0 from
`STATE_PHY_IDLE`, on the sixth 1 from `STATE_PHY_SYNC`, and on a 0 from `STATE_PHY_WAIT_IDLE`, which
does not clear `one_counter`.  `entryCount` is what it is entered with.  `STATE_PHY_SYNC` is left on
a sixth 1; `leftOnByte` is whether that was the last bit of a byte, in which case `data_strobe`
stays high.

* `flagReported_iff`: a report is for a flag on the line exactly when `one_counter` was clear.
* `idleLine_asReset_iff`: an idle line brings the receiver back to its reset state, as far as its
  reports show, exactly when `data_strobe` was not left high.
-/

namespace Filestick

open Hdlc Machine

/-! ### The run of 1s at the end -/

/-- The number of 1s at the end of a list of bits. -/
def onesAtEnd (bits : List Bool) : ℕ := (bits.reverse.takeWhile id).length

theorem onesAtEnd_of_suffix {bits : List Bool} {t : ℕ}
    (h : (false :: List.replicate t true) <:+ bits) : onesAtEnd bits = t := by
  obtain ⟨before, rfl⟩ := h
  rw [onesAtEnd, List.reverse_append, List.reverse_cons, List.reverse_replicate, List.append_assoc,
    List.takeWhile_append_of_pos (by simp), List.length_append]
  simp

/-- One more 1. -/
theorem suffix_one {bits : List Bool} {t : ℕ} (h : (false :: List.replicate t true) <:+ bits) :
    (false :: List.replicate (t + 1) true) <:+ bits ++ [true] := by
  obtain ⟨before, rfl⟩ := h
  refine ⟨before, ?_⟩
  rw [List.append_assoc, List.replicate_succ', List.cons_append]

theorem suffix_zero (bits : List Bool) :
    (false :: List.replicate 0 true) <:+ bits ++ [false] := ⟨bits, rfl⟩

/-- A flag ends with its second 0. -/
theorem flag_suffix_iff {bits : List Bool} {t : ℕ} (h : (false :: List.replicate t true) <:+ bits) :
    flag <:+ bits ++ [false] ↔ t = 6 := by
  have hflag : flag = (false :: List.replicate 6 true) ++ [false] := rfl
  constructor
  · rintro ⟨before, heq⟩
    rw [hflag, ← List.append_assoc] at heq
    have hsix : (false :: List.replicate 6 true) <:+ bits := ⟨before, List.append_cancel_right heq⟩
    rw [← onesAtEnd_of_suffix h, onesAtEnd_of_suffix hsix]
  · rintro rfl
    obtain ⟨before, rfl⟩ := h
    exact ⟨before, by rw [hflag, List.append_assoc]⟩

/-! ### Reports -/

/-- The value of `one_counter`, beyond the 1s sampled since, with which `STATE_PHY_RX_SYNC` is
entered. -/
def entryCount (s : RxPhy) (entry : BitVec 4) (econetData : Bool) : BitVec 4 :=
  match s.phyState with
  | .idle => 0#4
  | .sync => 0#4
  | .rxSync => entry
  | .waitIdle => if econetData then 0#4 else s.oneCounter

/-- The receiver with the count beside it. -/
def stepEntry (p : RxPhy × BitVec 4) (econetData : Bool) : RxPhy × BitVec 4 :=
  (p.1.step econetData false, entryCount p.1 p.2 econetData)

/-- The count after the bits, from a reset. -/
def rxEntry (bits : List Bool) : BitVec 4 := (run stepEntry (.reset, 0#4) bits).2

theorem run_stepEntry_fst (p : RxPhy × BitVec 4) (bits : List Bool) :
    (run stepEntry p bits).1 = rxRun p.1 bits := by
  induction bits generalizing p with
  | nil => rfl
  | cons b bits ih => exact ih (stepEntry p b)

/-- `one_counter` and the bits sampled so far, in each state. -/
def CountsOnes (bits : List Bool) (s : RxPhy) (entry : BitVec 4) : Prop :=
  match s.phyState with
  | .idle => True
  | .rxSync => ∃ t, (false :: List.replicate t true) <:+ bits ∧
      s.oneCounter = BitVec.ofNat 4 (entry.toNat + t) ∧
      (entry.toNat + t ≤ 6 ∨ entry.toNat = 7 ∧ t ≤ 15)
  | .sync =>
    ∃ t, (false :: List.replicate t true) <:+ bits ∧ s.oneCounter = BitVec.ofNat 4 t ∧ t ≤ 5
  | .waitIdle => s.oneCounter.toNat ≤ 7

/-- `STATE_PHY_SYNC` counts 1s, and is left on the sixth. -/
theorem RxPhy.stepSync_counts (s : RxPhy) (b : Bool) :
    (s.stepSync b).oneCounter = (if b then s.oneCounter + 1#4 else 0#4) ∧
      (s.stepSync b).phyState = if b ∧ s.oneCounter = 5#4 then .rxSync else s.phyState := by
  unfold RxPhy.stepSync
  split_ifs <;> simp_all

section CountsOnes

variable {bits : List Bool} {s : RxPhy} {entry : BitVec 4}

/-- `STATE_PHY_RX_SYNC` counts on from `entry`. -/
theorem countsOnes_stepRxSync (h : CountsOnes bits s entry) (hs : s.phyState = .rxSync) (b : Bool) :
    CountsOnes (bits ++ [b]) (s.stepRxSync b) entry := by
  unfold CountsOnes at h
  rw [hs] at h
  obtain ⟨t, hsuf, hone, hle⟩ := h
  simp only [RxPhy.stepRxSync]
  have hsix : s.oneCounter = 6#4 ↔ (entry.toNat + t) % 16 = 6 := by
    rw [hone, ← BitVec.toNat_inj, BitVec.toNat_ofNat]
    rfl
  cases b with
  | true =>
    by_cases h6 : s.oneCounter = 6#4
    · simp [CountsOnes, h6]
    · simp only [CountsOnes, if_true, if_neg h6, hs]
      refine ⟨t + 1, suffix_one hsuf, ?_, ?_⟩
      · rw [hone, ofNat_four_succ, Nat.add_assoc]
      · rw [hsix] at h6
        omega
  | false =>
    by_cases h6 : s.oneCounter = 6#4
    · simp only [h6, ne_eq, not_true_eq_false, Bool.false_eq_true, if_false]
      cases hend : s.endSync with
      | true => simp [CountsOnes]
      | false => exact ⟨0, suffix_zero bits, rfl, by omega⟩
    · simp [CountsOnes, h6]

/-- `STATE_PHY_SYNC` counts from the last 0, and hands its count on with the sixth 1. -/
theorem countsOnes_stepSync (h : CountsOnes bits s entry) (hs : s.phyState = .sync) (b : Bool) :
    CountsOnes (bits ++ [b]) (s.stepSync b) 0#4 := by
  unfold CountsOnes at h
  rw [hs] at h
  obtain ⟨t, hsuf, hone, hle⟩ := h
  have hfive : s.oneCounter = 5#4 ↔ t = 5 := by
    rw [hone]
    exact ofNat_four_eq (by omega) (by omega)
  obtain ⟨hcount, hstate⟩ := s.stepSync_counts b
  simp only [CountsOnes, hcount, hstate, hs]
  cases b with
  | true =>
    by_cases h5 : s.oneCounter = 5#4
    · rw [if_pos ⟨rfl, h5⟩]
      refine ⟨t + 1, suffix_one hsuf, ?_, ?_⟩
      · rw [if_pos rfl, hone, ofNat_four_succ]
        simp
      · rw [hfive] at h5
        exact Or.inl (by simp; omega)
    · rw [if_neg (fun h => h5 h.2)]
      rw [hfive] at h5
      refine ⟨t + 1, suffix_one hsuf, ?_, by omega⟩
      rw [if_pos rfl, hone, ofNat_four_succ]
  | false =>
    rw [if_neg (fun h => Bool.noConfusion h.1)]
    exact ⟨0, suffix_zero bits, rfl, by omega⟩

/-- `STATE_PHY_WAIT_IDLE` hands its count on with a 0. -/
theorem countsOnes_stepWaitIdle (h : CountsOnes bits s entry) (hs : s.phyState = .waitIdle)
    (b : Bool) :
    CountsOnes (bits ++ [b]) (s.stepWaitIdle b) (if b then 0#4 else s.oneCounter) := by
  unfold CountsOnes at h
  rw [hs] at h
  simp only at h
  simp only [RxPhy.stepWaitIdle]
  cases b with
  | true =>
    by_cases h7 : s.oneCounter = 7#4
    · simp [CountsOnes, h7]
    · simp only [CountsOnes, if_true, if_neg h7, hs]
      bv_omega
  | false =>
    simp only [Bool.false_eq_true, if_false]
    refine ⟨0, suffix_zero bits, ?_, by omega⟩
    rw [Nat.add_zero, BitVec.ofNat_toNat, BitVec.setWidth_eq]

theorem countsOnes_step (h : CountsOnes bits s entry) (b : Bool) :
    CountsOnes (bits ++ [b]) (s.step b false) (entryCount s entry b) := by
  unfold RxPhy.step entryCount
  cases hs : s.phyState with
  | idle =>
    simp only [RxPhy.stepIdle, CountsOnes, hs]
    cases b with
    | true => trivial
    | false => exact ⟨0, suffix_zero bits, rfl, Or.inl (by decide)⟩
  | rxSync => exact countsOnes_stepRxSync h hs b
  | sync => exact countsOnes_stepSync h hs b
  | waitIdle => exact countsOnes_stepWaitIdle h hs b

end CountsOnes

theorem countsOnes_run (bits : List Bool) :
    CountsOnes bits (rxRun .reset bits) (rxEntry bits) ∧ (rxRun .reset bits).Inv := by
  induction bits using List.reverseRecOn with
  | nil => exact ⟨trivial, .reset⟩
  | append_singleton bits b ih =>
    have hentry : rxEntry (bits ++ [b]) = entryCount (rxRun .reset bits) (rxEntry bits) b := by
      rw [rxEntry, run_append, run_cons, run_nil, stepEntry, run_stepEntry_fst]
      rfl
    rw [rxRun_append, hentry]
    exact ⟨countsOnes_step ih.1 b, ih.2.step b false⟩

/-- A report is raised on a 0 in `STATE_PHY_RX_SYNC`, after six counted 1s. -/
theorem RxPhy.Inv.reports_step {s : RxPhy} (h : s.Inv) {b : Bool}
    (hrep : (s.step b false).frameStart = true ∨ (s.step b false).frameEnd = true) :
    s.phyState = .rxSync ∧ b = false ∧ s.oneCounter = 6#4 := by
  unfold RxPhy.step at hrep
  split at hrep
  · simp [RxPhy.stepIdle] at hrep
  next hs =>
    have hfs := h.frameStart_of_ne (by simp [hs])
    have hfe := h.frameEnd_of_ne (by simp [hs])
    unfold RxPhy.stepRxSync at hrep
    split_ifs at hrep <;> simp_all
  next hs =>
    have hfe := h.frameEnd_of_ne (by simp [hs])
    unfold RxPhy.stepSync at hrep
    split_ifs at hrep <;> simp_all
  next hs =>
    have hfs := h.frameStart_of_ne (by simp [hs])
    have hfe := h.frameEnd_of_ne (by simp [hs])
    unfold RxPhy.stepWaitIdle at hrep
    split_ifs at hrep <;> simp_all

/-- **Flag detection.**  For every sequence of bits sampled after a reset, the start or the end of a
frame that is reported on the last one is reported for a flag exactly when `STATE_PHY_RX_SYNC` was
entered with `one_counter` clear. -/
theorem flagReported_iff (bits : List Bool)
    (h : (rxRun .reset bits).frameStart = true ∨ (rxRun .reset bits).frameEnd = true) :
    flag <:+ bits ↔ rxEntry bits = 0#4 := by
  rcases List.eq_nil_or_concat' bits with rfl | ⟨before, b, rfl⟩
  · exact absurd h (by decide)
  · obtain ⟨hcounts, hinv⟩ := countsOnes_run before
    rw [rxRun_append] at h
    obtain ⟨hs, rfl, hsix⟩ := hinv.reports_step h
    have hentry : rxEntry (before ++ [false]) = rxEntry before := by
      rw [rxEntry, run_append, run_cons, run_nil, stepEntry, run_stepEntry_fst, entryCount,
        hs, rxEntry]
    unfold CountsOnes at hcounts
    rw [hs] at hcounts
    obtain ⟨t, hsuf, hone, hle⟩ := hcounts
    rw [flag_suffix_iff hsuf, hentry]
    have hmod : (rxEntry before).toNat + t ≡ 6 [MOD 16] := by
      have := congrArg BitVec.toNat (hone.symm.trans hsix)
      rwa [BitVec.toNat_ofNat] at this
    rw [← BitVec.toNat_inj]
    unfold Nat.ModEq at hmod
    simp only [BitVec.toNat_ofNat]
    omega

theorem flagReported_flag : flag <:+ flag := (flagReported_iff flag (by decide)).mpr (by decide)

/-- Two 0s, six 1s and two 0s: the second 0 ends in `STATE_PHY_WAIT_IDLE`, and the third keeps its
count of 1s. -/
theorem flagReported_noise :
    (rxRun .reset [false, false, true, true, true, true, true, true, false, false]).frameStart =
    true ∧
      ¬flag <:+ [false, false, true, true, true, true, true, true, false, false] := by
  decide

/-! ### Idle lines -/

/-- The number of 1s after which the receiver is idle. -/
def onesToIdle (s : RxPhy) : ℕ :=
  match s.phyState with
  | .idle => 0
  | .rxSync => (6#4 - s.oneCounter).toNat + 1
  | .sync => 7 - s.oneCounter.toNat
  | .waitIdle => 8 - s.oneCounter.toNat

theorem onesToIdle_le (s : RxPhy) : onesToIdle s ≤ 16 := by
  unfold onesToIdle
  split
  · omega
  · have := (6#4 - s.oneCounter).isLt
    omega
  · omega
  · omega

/-- The counter does not run past the end of its state. -/
def CounterInRange (s : RxPhy) : Prop :=
  (s.phyState = .sync → s.oneCounter.toNat ≤ 5) ∧ (s.phyState = .waitIdle → s.oneCounter.toNat ≤ 7)

theorem CountsOnes.counterInRange {bits : List Bool} {s : RxPhy} {entry : BitVec 4}
    (h : CountsOnes bits s entry) : CounterInRange s := by
  unfold CountsOnes at h
  constructor
  · intro hs
    rw [hs] at h
    obtain ⟨t, -, hone, hle⟩ := h
    rw [hone, BitVec.toNat_ofNat]
    omega
  · intro hs
    rw [hs] at h
    exact h

theorem onesToIdle_step {s : RxPhy} (h : CounterInRange s) :
    onesToIdle (s.step true false) = onesToIdle s - 1 := by
  unfold RxPhy.step
  cases hs : s.phyState with
  | idle => simp [RxPhy.stepIdle, onesToIdle, hs]
  | rxSync =>
    by_cases h6 : s.oneCounter = 6#4
    · simp [RxPhy.stepRxSync, onesToIdle, hs, h6]
    · simp only [RxPhy.stepRxSync, onesToIdle, hs, h6, if_true, if_false]
      bv_omega
  | sync =>
    have hle := h.1 hs
    obtain ⟨hcount, hstate⟩ := s.stepSync_counts true
    simp only [onesToIdle, hs, hcount, hstate, if_true, true_and]
    by_cases h5 : s.oneCounter = 5#4
    · simp [h5]
    · simp only [h5, if_false]
      bv_omega
  | waitIdle =>
    have hle := h.2 hs
    by_cases h7 : s.oneCounter = 7#4
    · simp [RxPhy.stepWaitIdle, onesToIdle, hs, h7]
    · simp only [RxPhy.stepWaitIdle, onesToIdle, hs, h7, if_true, if_false]
      bv_omega

/-- After sixteen 1s the receiver is idle. -/
theorem onesToIdle_run (history : List Bool) (k : ℕ) :
    onesToIdle (rxRun .reset (history ++ List.replicate k true)) ≤ 16 - k := by
  induction k with
  | zero => simpa using onesToIdle_le _
  | succ k ih =>
    rw [List.replicate_succ', ← List.append_assoc, rxRun_append, rxRun_cons, rxRun_nil]
    rw [onesToIdle_step (countsOnes_run _).1.counterInRange]
    omega

theorem idle_of_onesToIdle {s : RxPhy} (h : onesToIdle s = 0) (hrange : CounterInRange s) :
    s.phyState = .idle := by
  cases hs : s.phyState with
  | idle => rfl
  | rxSync => simp [onesToIdle, hs] at h
  | sync =>
    have := hrange.1 hs
    simp only [onesToIdle, hs] at h
    omega
  | waitIdle =>
    have := hrange.2 hs
    simp only [onesToIdle, hs] at h
    omega

/-- Whether `STATE_PHY_SYNC` was last left by a sixth 1 that was the last bit of a byte. -/
def leftOnByte (s : RxPhy) (left econetData : Bool) : Bool :=
  if s.phyState = .sync ∧ econetData ∧ s.oneCounter = 5#4 then s.bitCounter == 7#4 else left

/-- The receiver with this beside it. -/
def stepLeft (p : RxPhy × Bool) (econetData : Bool) : RxPhy × Bool :=
  (p.1.step econetData false, leftOnByte p.1 p.2 econetData)

/-- Whether it is so after the bits, from a reset. -/
def rxLeft (bits : List Bool) : Bool := (run stepLeft (.reset, false) bits).2

theorem run_stepLeft_fst (p : RxPhy × Bool) (bits : List Bool) :
    (run stepLeft p bits).1 = rxRun p.1 bits := by
  induction bits generalizing p with
  | nil => rfl
  | cons b bits ih => exact ih (stepLeft p b)

/-- Outside `STATE_PHY_SYNC` nothing touches `data_strobe`. -/
theorem dataStrobe_step {s : RxPhy} {left : Bool}
    (h : s.phyState ≠ .sync → s.dataStrobe = left) (b : Bool)
    (hs' : (s.step b false).phyState ≠ .sync) :
    (s.step b false).dataStrobe = leftOnByte s left b := by
  unfold leftOnByte
  unfold RxPhy.step at hs' ⊢
  cases hs : s.phyState with
  | idle => simpa [RxPhy.stepIdle, hs] using h
  | rxSync =>
    have hstrobe := h (by rw [hs]; decide)
    simp only [RxPhy.stepRxSync]
    split_ifs <;> simp_all
  | sync =>
    simp only [hs] at hs'
    obtain ⟨-, hstate⟩ := s.stepSync_counts b
    rw [hstate] at hs'
    have hleave : b = true ∧ s.oneCounter = 5#4 := by
      by_contra hno
      rw [if_neg hno] at hs'
      exact hs' hs
    obtain ⟨rfl, hfive⟩ := hleave
    simp only [RxPhy.stepSync, hfive, if_true, and_self]
    split_ifs <;> simp_all
  | waitIdle =>
    have hstrobe := h (by rw [hs]; decide)
    simp only [RxPhy.stepWaitIdle]
    split_ifs <;> simp_all

theorem dataStrobe_run (bits : List Bool) (hs : (rxRun .reset bits).phyState ≠ .sync) :
    (rxRun .reset bits).dataStrobe = rxLeft bits := by
  induction bits using List.reverseRecOn with
  | nil => rfl
  | append_singleton bits b ih =>
    have hleft : rxLeft (bits ++ [b]) = leftOnByte (rxRun .reset bits) (rxLeft bits) b := by
      rw [rxLeft, run_append, run_cons, run_nil, stepLeft, run_stepLeft_fst]
      rfl
    rw [rxRun_append] at hs ⊢
    rw [hleft]
    exact dataStrobe_step ih b hs

/-- Two receivers that report the same from now on. -/
structure SameReports (s t : RxPhy) : Prop where
  phyState : s.phyState = t.phyState
  dataStrobe : s.dataStrobe = t.dataStrobe
  dataOut : s.dataStrobe = true → s.dataOut = t.dataOut
  active : s.phyState ≠ .idle → s.oneCounter = t.oneCounter ∧ s.endSync = t.endSync ∧
    s.frameStart = t.frameStart ∧ s.frameEnd = t.frameEnd
  sync : s.phyState = .sync → s.bitCounter = t.bitCounter ∧ s.rxbuf = t.rxbuf

theorem RxPhy.events_congr {s t : RxPhy} (hfs : s.frameStart = t.frameStart)
    (hfe : s.frameEnd = t.frameEnd) (hstrobe : s.dataStrobe = t.dataStrobe)
    (hout : s.dataStrobe = true → s.dataOut = t.dataOut) : s.events = t.events := by
  unfold RxPhy.events
  rw [hfs, hfe, ← hstrobe]
  cases hs : s.dataStrobe with
  | false => rfl
  | true => rw [hout hs]

theorem SameReports.step {s t : RxPhy} (h : SameReports s t) (b : Bool) :
    (s.step b false).events = (t.step b false).events ∧
      SameReports (s.step b false) (t.step b false) := by
  obtain ⟨hstate, hstrobe, hout, hactive, hsync⟩ := h
  unfold RxPhy.step
  rw [← hstate]
  cases hs : s.phyState with
  | idle =>
    refine ⟨RxPhy.events_congr rfl rfl hstrobe hout,
      ⟨?_, hstrobe, hout, fun _ => ⟨rfl, rfl, rfl, rfl⟩, ?_⟩⟩
    · simp only [RxPhy.stepIdle, hstate]
    · intro hsync'
      simp only [RxPhy.stepIdle, hs] at hsync'
      split_ifs at hsync'
  | rxSync =>
    obtain ⟨hone, hend, hfs, hfe⟩ := hactive (by rw [hs]; decide)
    simp only [RxPhy.stepRxSync, ← hone, ← hend, ← hfs, ← hfe, ← hstate]
    split_ifs
    all_goals refine ⟨RxPhy.events_congr ?_ ?_ ?_ ?_, ⟨?_, ?_, ?_, ?_, ?_⟩⟩ <;> simp_all
  | sync =>
    obtain ⟨hone, hend, hfs, hfe⟩ := hactive (by rw [hs]; decide)
    obtain ⟨hbit, hbuf⟩ := hsync hs
    simp only [RxPhy.stepSync, ← hone, ← hend, ← hfe, ← hstate, ← hbit, ← hbuf]
    split_ifs
    all_goals refine ⟨RxPhy.events_congr ?_ ?_ ?_ ?_, ⟨?_, ?_, ?_, ?_, ?_⟩⟩ <;> simp_all
  | waitIdle =>
    obtain ⟨hone, hend, hfs, hfe⟩ := hactive (by rw [hs]; decide)
    simp only [RxPhy.stepWaitIdle, ← hone, ← hend, ← hfs, ← hfe, ← hstate]
    split_ifs
    all_goals refine ⟨RxPhy.events_congr ?_ ?_ ?_ ?_, ⟨?_, ?_, ?_, ?_, ?_⟩⟩ <;> simp_all

/-- The reports of a receiver, clock by clock. -/
def rxReports (s : RxPhy) (bits : List Bool) : List (List RxEvent) :=
  trace (fun s b => RxPhy.step s b false) RxPhy.events s bits

/-- The receiver is idle, and reports what a freshly reset one does on all bits that follow. -/
def AsReset (s : RxPhy) : Prop :=
  s.phyState = .idle ∧ ∀ bits, rxReports s bits = rxReports .reset bits

theorem asReset_iff {s : RxPhy} (hidle : s.phyState = .idle) :
    AsReset s ↔ s.dataStrobe = false := by
  constructor
  · rintro ⟨-, h⟩
    -- a strobe that is left high is reported on the next clock
    by_contra hstrobe
    have hone := h [true]
    simp [rxReports, RxPhy.step, hidle, RxPhy.stepIdle, RxPhy.events, RxPhy.reset, hstrobe] at hone
  · intro hstrobe
    have hsame : SameReports s .reset :=
      ⟨hidle, hstrobe, fun h => absurd (hstrobe.symm.trans h) (by decide), fun h => absurd hidle h,
        fun h => absurd (hidle.symm.trans h) (by decide)⟩
    exact ⟨hidle, trace_eq_of_bisim (fun s t b h => h.step b) hsame⟩

/-- **The receiver on an idle line.**  After any history and at least sixteen 1s it is idle and
reports what a freshly reset receiver does exactly when `STATE_PHY_SYNC` was not last left by a
sixth 1 that was the last bit of a byte. -/
theorem idleLine_asReset_iff (history : List Bool) (k : ℕ) (hk : 16 ≤ k) :
    AsReset (rxRun .reset (history ++ List.replicate k true)) ↔
      rxLeft (history ++ List.replicate k true) = false := by
  have hidle : (rxRun .reset (history ++ List.replicate k true)).phyState = .idle := by
    apply idle_of_onesToIdle _ (countsOnes_run _).1.counterInRange
    have := onesToIdle_run history k
    omega
  rw [asReset_iff hidle, dataStrobe_run _ (by rw [hidle]; decide)]

theorem idleLine_asReset_frame :
    AsReset (rxRun .reset (frameOnLine [0x55#8] ++ List.replicate 16 true)) :=
  (idleLine_asReset_iff (frameOnLine [0x55#8]) 16 le_rfl).mpr (by decide)

/-- A frame that is aborted after its first two bits: the sixth 1 is the last bit of a byte. -/
theorem idleLine_abort_not_asReset :
    ¬AsReset (rxRun .reset ((flag ++ [false, false]) ++ List.replicate 16 true)) :=
  fun h => absurd (h.2 [true]) (by decide)

end Filestick
