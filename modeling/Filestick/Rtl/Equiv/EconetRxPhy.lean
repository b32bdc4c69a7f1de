import Filestick.Lib.Hdlc
import Filestick.Rtl.EconetRxPhy
import Mathlib.Tactic.IntervalCases

/-!
# Deframing by `econet_rx`

Between the flags the receiver is in `STATE_PHY_SYNC`.  `Receiving s c ds` says that it has taken in
the bits `ds` of the current byte and that the run of 1s before the next bit has length `c`.
-/

namespace Filestick

open Hdlc Machine

@[simp] theorem rxEvents_nil (s : RxPhy) : rxEvents s [] = [] := rfl

@[simp] theorem rxEvents_cons (s : RxPhy) (b : Bool) (bits : List Bool) :
    rxEvents s (b :: bits) = (s.step b false).events ++ rxEvents (s.step b false) bits := rfl

@[simp] theorem rxRun_nil (s : RxPhy) : rxRun s [] = s := rfl

@[simp] theorem rxRun_cons (s : RxPhy) (b : Bool) (bits : List Bool) :
    rxRun s (b :: bits) = rxRun (s.step b false) bits := rfl

theorem rxRun_append (s : RxPhy) (as bs : List Bool) :
    rxRun s (as ++ bs) = rxRun (rxRun s as) bs := run_append as bs

theorem rxEvents_append (s : RxPhy) (as bs : List Bool) :
    rxEvents s (as ++ bs) = rxEvents s as ++ rxEvents (rxRun s as) bs := by
  rw [rxEvents, trace_append, List.flatten_append]; rfl

/-- In `STATE_PHY_SYNC`, with the first `k` bits of the byte `x` taken in and `c` 1s counted.  The
bits sit at the top of `rxbuf`, the last one highest. -/
structure Receiving (s : RxPhy) (c : ℕ) (x : BitVec 8) (k : ℕ) : Prop where
  phyState : s.phyState = .sync
  oneCounter : s.oneCounter = BitVec.ofNat 4 c
  bitCounter : s.bitCounter = BitVec.ofNat 4 k
  rxbuf : ∀ i, i < k → s.rxbuf.getLsbD (8 - k + i) = x.getLsbD i
  frameEnd : s.frameEnd = false

/-- Before its first bit the byte may be any. -/
theorem Receiving.anyByte {s : RxPhy} {c : ℕ} {x : BitVec 8} (h : Receiving s c x 0)
    (y : BitVec 8) : Receiving s c y 0 :=
  ⟨h.phyState, h.oneCounter, h.bitCounter, fun i hi => absurd hi (by omega), h.frameEnd⟩

theorem ofNat_four_eq {m n : ℕ} (hm : m < 16) (hn : n < 16) :
    BitVec.ofNat 4 m = BitVec.ofNat 4 n ↔ m = n := by
  rw [← BitVec.toNat_inj, BitVec.toNat_ofNat, BitVec.toNat_ofNat, Nat.mod_eq_of_lt hm,
    Nat.mod_eq_of_lt hn]

theorem ofNat_four_succ (m : ℕ) : BitVec.ofNat 4 m + 1#4 = BitVec.ofNat 4 (m + 1) :=
  BitVec.ofNat_add_ofNat m 1

/-! ### The branches of `STATE_PHY_SYNC` -/

namespace RxPhy

variable {s : RxPhy}

/-- A data bit that does not complete a byte is shifted into `rxbuf`. -/
theorem stepSync_shift (hone : s.oneCounter ≠ 5#4) (hbit : s.bitCounter ≠ 7#4) (b : Bool) :
    s.stepSync b =
      { s with
        frameStart := false
        oneCounter := if b then s.oneCounter + 1#4 else 0#4
        dataStrobe := false
        rxbuf := (if b then 0x80#8 else 0#8) ||| (s.rxbuf >>> 1)
        bitCounter := s.bitCounter + 1#4 } := by
  cases b <;> simp [stepSync, hone, hbit]

/-- A data bit that completes a byte strobes it. -/
theorem stepSync_byte (hone : s.oneCounter ≠ 5#4) (hbit : s.bitCounter = 7#4) (b : Bool) :
    s.stepSync b =
      { s with
        frameStart := false
        oneCounter := if b then s.oneCounter + 1#4 else 0#4
        dataOut := (if b then 0x80#8 else 0#8) ||| (s.rxbuf >>> 1)
        bitCounter := 0#4
        dataStrobe := true
        endSync := true } := by
  cases b <;> simp [stepSync, hone, hbit, BitVec.or_comm]

/-- The 0 after five 1s is dropped; `data_strobe` keeps its value. -/
theorem stepSync_stuffed (hone : s.oneCounter = 5#4) :
    s.stepSync false = { s with frameStart := false, oneCounter := 0#4 } := by
  simp [stepSync, hone]

/-- The sixth 1 leaves the data; it strobes nothing unless it completes a byte. -/
theorem stepSync_sixthOne (hone : s.oneCounter = 5#4) (hbit : s.bitCounter ≠ 7#4) :
    s.stepSync true =
      { s with
        frameStart := false
        phyState := .rxSync
        oneCounter := 6#4
        dataStrobe := false
        rxbuf := 0x80#8 ||| (s.rxbuf >>> 1)
        bitCounter := s.bitCounter + 1#4 } := by
  simp [stepSync, hone, hbit]

/-- A sync pattern after a byte ends the frame. -/
theorem stepRxSync_close (hone : s.oneCounter = 6#4) (hend : s.endSync = true) :
    s.stepRxSync false =
      { s with
        frameEnd := true
        phyState := .idle
        oneCounter := 0#4
        bitCounter := 0#4
        rxbuf := 0#8
        dataOut := 0#8 } := by
  simp [stepRxSync, hone, hend]

end RxPhy

/-- The bit shifted into the top of `rxbuf`. -/
theorem getLsbD_shiftIn (r x : BitVec 8) (k : ℕ) (hk : k < 8)
    (hr : ∀ i, i < k → r.getLsbD (8 - k + i) = x.getLsbD i) (i : ℕ) (hi : i < k + 1) :
    ((if x.getLsbD k then 0x80#8 else 0#8) ||| (r >>> 1)).getLsbD (8 - (k + 1) + i)
      = x.getLsbD i := by
  rw [BitVec.getLsbD_or, BitVec.getLsbD_ushiftRight]
  rcases Nat.lt_or_ge i k with h | h
  · have h80 : (if x.getLsbD k then 0x80#8 else 0#8).getLsbD (8 - (k + 1) + i) = false := by
      split
      · have : 8 - (k + 1) + i < 7 := by omega
        interval_cases 8 - (k + 1) + i <;> rfl
      · simp
    rw [h80, Bool.false_or, show 1 + (8 - (k + 1) + i) = 8 - k + i by omega, hr i h]
  · obtain rfl : i = k := by omega
    rw [show 8 - (i + 1) + i = 7 by omega, BitVec.getLsbD_of_ge r (1 + 7) (by omega), Bool.or_false]
    cases x.getLsbD i <;> rfl

/-! ### One data bit -/

namespace Receiving

variable {s : RxPhy} {c k : ℕ} {x : BitVec 8}

theorem oneCounter_ne_five (h : Receiving s c x k) (hc : c < 5) : s.oneCounter ≠ 5#4 := by
  rw [h.oneCounter, Ne, ofNat_four_eq (by omega) (by omega)]; omega

theorem oneCounter_next (h : Receiving s c x k) (b : Bool) :
    (if b then s.oneCounter + 1#4 else 0#4) = BitVec.ofNat 4 (if b then c + 1 else 0) := by
  cases b
  · rfl
  · exact h.oneCounter ▸ ofNat_four_succ c

theorem step_eq (h : Receiving s c x k) (b inhibit : Bool) : s.step b inhibit = s.stepSync b := by
  rw [RxPhy.step, h.phyState]

/-- A data bit other than the last one of its byte reports nothing. -/
theorem step_bit (h : Receiving s c x k) (hc : c < 5) (hk : k < 7) :
    Receiving (s.step (x.getLsbD k) false) (if x.getLsbD k then c + 1 else 0) x (k + 1) ∧
      (s.step (x.getLsbD k) false).events = [] ∧
      (s.step (x.getLsbD k) false).dataStrobe = false ∧
      (s.step (x.getLsbD k) false).endSync = s.endSync := by
  have hbit : s.bitCounter ≠ 7#4 := by
    rw [h.bitCounter, Ne, ofNat_four_eq (by omega) (by omega)]; omega
  rw [h.step_eq, RxPhy.stepSync_shift (h.oneCounter_ne_five hc) hbit]
  refine ⟨⟨h.phyState, h.oneCounter_next _, ?_, getLsbD_shiftIn _ x k (by omega) h.rxbuf,
    h.frameEnd⟩, ?_, rfl, rfl⟩
  · exact h.bitCounter ▸ ofNat_four_succ k
  · simp [RxPhy.events, h.frameEnd]

/-- The last bit of a byte reports the byte. -/
theorem step_lastBit (h : Receiving s c x 7) (hc : c < 5) (y : BitVec 8) :
    Receiving (s.step (x.getLsbD 7) false) (if x.getLsbD 7 then c + 1 else 0) y 0 ∧
      (s.step (x.getLsbD 7) false).events = [.byte x] ∧
      (s.step (x.getLsbD 7) false).endSync = true := by
  have hbyte : (if x.getLsbD 7 then 0x80#8 else 0#8) ||| (s.rxbuf >>> 1) = x := by
    apply BitVec.eq_of_getLsbD_eq
    intro i hi
    have := getLsbD_shiftIn s.rxbuf x 7 (by omega) h.rxbuf i hi
    rwa [show 8 - (7 + 1) + i = i by omega] at this
  rw [h.step_eq, RxPhy.stepSync_byte (h.oneCounter_ne_five hc) h.bitCounter, hbyte]
  refine ⟨⟨h.phyState, h.oneCounter_next _, rfl, fun i hi => absurd hi (by omega), h.frameEnd⟩, ?_,
    rfl⟩
  simp [RxPhy.events, h.frameEnd]

/-- A stuffed 0 repeats the reports of the clock before it: `data_strobe` is still high after it
when it was high before. -/
theorem step_stuffed (h : Receiving s 5 x k) :
    Receiving (s.step false false) 0 x k ∧
      (s.step false false).events = (if s.dataStrobe then [.byte s.dataOut] else []) ∧
      (s.step false false).endSync = s.endSync := by
  rw [h.step_eq, RxPhy.stepSync_stuffed h.oneCounter]
  refine ⟨⟨h.phyState, rfl, h.bitCounter, h.rxbuf, h.frameEnd⟩, ?_, rfl⟩
  simp [RxPhy.events, h.frameEnd]

/-- A data bit with the 0 stuffed after it, when one is, reports nothing before the last bit. -/
theorem run_bit (h : Receiving s (c % 5) x k) (hk : k < 7) :
    Receiving (rxRun s (stuff c [x.getLsbD k])) (onesNext c (x.getLsbD k) % 5) x (k + 1) ∧
      rxEvents s (stuff c [x.getLsbD k]) = [] := by
  obtain ⟨h1, hev, hstrobe, -⟩ := h.step_bit (by omega) hk
  by_cases h5 : onesNext c (x.getLsbD k) = 5
  · have h1' : Receiving (s.step (x.getLsbD k) false) 5 x (k + 1) := h5 ▸ h1
    obtain ⟨h2, hev2, -⟩ := h1'.step_stuffed
    simp only [stuff, h5, if_true, List.append_nil, rxRun_cons, rxRun_nil, rxEvents_cons,
      rxEvents_nil, hev, hev2, hstrobe]
    exact ⟨h2, rfl⟩
  · have hlt : onesNext c (x.getLsbD k) % 5 = onesNext c (x.getLsbD k) := by
      have := onesNext_le c (x.getLsbD k)
      omega
    simp only [stuff, h5, if_false, List.append_nil, rxRun_cons, rxRun_nil, rxEvents_cons,
      rxEvents_nil, hev, hlt]
    exact ⟨h1, trivial⟩

/-- The last bit of a byte, with the 0 stuffed after it, reports the byte twice. -/
theorem run_lastBit (h : Receiving s (c % 5) x 7) (y : BitVec 8) :
    Receiving (rxRun s (stuff c [x.getLsbD 7])) (onesNext c (x.getLsbD 7) % 5) y 0 ∧
      rxEvents s (stuff c [x.getLsbD 7])
        = List.replicate (if onesNext c (x.getLsbD 7) = 5 then 2 else 1) (.byte x) ∧
      (rxRun s (stuff c [x.getLsbD 7])).endSync = true := by
  obtain ⟨h1, hev, hend⟩ := h.step_lastBit (by omega) y
  by_cases h5 : onesNext c (x.getLsbD 7) = 5
  · have h1' : Receiving (s.step (x.getLsbD 7) false) 5 y 0 := h5 ▸ h1
    obtain ⟨h2, hev2, hend2⟩ := h1'.step_stuffed
    -- the strobe of the last bit is what the stuffed 0 repeats
    have hrep : (if (s.step (x.getLsbD 7) false).dataStrobe
        then [RxEvent.byte (s.step (x.getLsbD 7) false).dataOut] else []) = [.byte x] := by
      have hfs : (s.step (x.getLsbD 7) false).frameStart = false := by
        rw [h.step_eq, RxPhy.stepSync_byte (h.oneCounter_ne_five (by omega)) h.bitCounter]
      rw [← hev, RxPhy.events, hfs, h1.frameEnd]
      simp
    simp only [stuff, h5, if_true, List.append_nil, rxRun_cons, rxRun_nil, rxEvents_cons,
      rxEvents_nil, hev, hev2, hrep, hend2, hend]
    exact ⟨h2, rfl, trivial⟩
  · have hlt : onesNext c (x.getLsbD 7) % 5 = onesNext c (x.getLsbD 7) := by
      have := onesNext_le c (x.getLsbD 7)
      omega
    simp only [stuff, h5, if_false, List.append_nil, rxRun_cons, rxRun_nil, rxEvents_cons,
      rxEvents_nil, hev, hlt, hend]
    exact ⟨h1, rfl, trivial⟩

/-! ### Bytes and frames -/

/-- The bits of `x` from bit `k` on: the byte is reported once, or twice when a 0 is stuffed after
its last bit. -/
theorem run_byte_from (y : BitVec 8) : ∀ (j k c : ℕ) (s : RxPhy), k + j = 7 →
    Receiving s (c % 5) x k →
    Receiving (rxRun s (stuff c ((byteBits x).drop k))) (ones c ((byteBits x).drop k) % 5) y 0 ∧
      rxEvents s (stuff c ((byteBits x).drop k))
        = List.replicate (if ones c ((byteBits x).drop k) = 5 then 2 else 1) (.byte x) ∧
      (rxRun s (stuff c ((byteBits x).drop k))).endSync = true := by
  intro j
  induction j with
  | zero =>
    intro k c s hk h
    obtain rfl : k = 7 := by omega
    exact h.run_lastBit y
  | succ j ih =>
    intro k c s hk h
    have hdrop : (byteBits x).drop k = [x.getLsbD k] ++ (byteBits x).drop (k + 1) := by
      rw [List.drop_eq_getElem_cons (by rw [length_byteBits]; omega)]
      simp only [byteBits, List.getElem_ofFn, List.singleton_append]
    obtain ⟨h1, hev⟩ := h.run_bit (by omega)
    obtain ⟨h2, hev2, hend⟩ := ih (k + 1) (onesNext c (x.getLsbD k)) _ (by omega) h1
    rw [hdrop, stuff_append, ones_append, rxRun_append, rxEvents_append, hev, List.nil_append]
    exact ⟨h2, hev2, hend⟩

/-- The bits of a byte. -/
theorem run_byte (h : Receiving s (c % 5) x 0) (y : BitVec 8) :
    Receiving (rxRun s (stuff c (byteBits x))) (ones c (byteBits x) % 5) y 0 ∧
      rxEvents s (stuff c (byteBits x))
        = List.replicate (if ones c (byteBits x) = 5 then 2 else 1) (.byte x) ∧
      (rxRun s (stuff c (byteBits x))).endSync = true :=
  run_byte_from y 7 0 c s rfl h

end Receiving

/-- The bytes that the receiver strobes for the bytes of a frame, from a run of `c` 1s. -/
def strobes : ℕ → List (BitVec 8) → List (BitVec 8)
  | _, [] => []
  | c, x :: xs =>
    List.replicate (if ones c (byteBits x) = 5 then 2 else 1) x ++ strobes (ones c (byteBits x)) xs

/-- The bytes of a frame. -/
theorem Receiving.run_bytes {x : BitVec 8} : ∀ (bs : List (BitVec 8)) (c : ℕ) (s : RxPhy),
    Receiving s (c % 5) x 0 →
    Receiving (rxRun s (stuff c (bytesBits bs))) (ones c (bytesBits bs) % 5) x 0 ∧
      rxEvents s (stuff c (bytesBits bs)) = (strobes c bs).map .byte ∧
      (bs ≠ [] → (rxRun s (stuff c (bytesBits bs))).endSync = true) := by
  intro bs
  induction bs with
  | nil => intro c s h; exact ⟨h, rfl, fun hne => absurd rfl hne⟩
  | cons b bs ih =>
    intro c s h
    obtain ⟨h1, hev1, hend1⟩ := (h.anyByte b).run_byte x
    obtain ⟨h2, hev2, hend2⟩ := ih (ones c (byteBits b)) _ h1
    rw [bytesBits_cons, stuff_append, ones_append, rxRun_append, rxEvents_append, hev1, hev2]
    refine ⟨h2, ?_, fun _ => ?_⟩
    · rw [strobes, List.map_append, List.map_replicate]
    · by_cases hbs : bs = []
      · subst hbs; exact hend1
      · exact hend2 hbs

/-- An idle line reports nothing to an idle receiver whose strobe is low. -/
theorem rxEvents_idle (n : ℕ) {s : RxPhy} (hs : s.phyState = .idle)
    (hstrobe : s.dataStrobe = false) :
    rxEvents s (List.replicate n true) = [] := by
  induction n generalizing s with
  | zero => rfl
  | succ n ih =>
    have hstep : s.step true false
        = { s with
          oneCounter := 0#4, endSync := false, frameStart := false, frameEnd := false } := by
      simp [RxPhy.step, hs, RxPhy.stepIdle]
    have hrest : rxEvents (s.step true false) (List.replicate n true) = [] :=
      ih (by rw [hstep]; exact hs) (by rw [hstep]; exact hstrobe)
    rw [List.replicate_succ, rxEvents_cons, hrest, hstep]
    simp [RxPhy.events, hstrobe]

/-- The first 0 and five 1s of a flag are taken in like the bits of the byte `0x7E`. -/
theorem Receiving.run_flagOnes {s : RxPhy} (h : Receiving s 0 0x7E#8 1) : ∀ j, j ≤ 5 →
    Receiving (rxRun s (List.replicate j true)) j 0x7E#8 (j + 1) ∧
      rxEvents s (List.replicate j true) = [] ∧
      (rxRun s (List.replicate j true)).endSync = s.endSync := by
  intro j
  induction j with
  | zero => intro _; exact ⟨h, rfl, rfl⟩
  | succ j ih =>
    intro hj
    obtain ⟨h1, hev1, hend1⟩ := ih (by omega)
    have hbit : (0x7E#8).getLsbD (j + 1) = true := by
      have : j < 6 := by omega
      interval_cases j <;> rfl
    have h2 := h1.step_bit (by omega) (by omega)
    rw [hbit, if_pos rfl] at h2
    obtain ⟨h2, hev2, -, hend2⟩ := h2
    rw [List.replicate_succ', rxRun_append, rxEvents_append, hev1, List.nil_append]
    exact ⟨h2, by simp [hev2], hend2.trans hend1⟩

/-- The closing flag, after a byte, reports the end of the frame and leaves the receiver idle. -/
theorem Receiving.run_flag {s : RxPhy} {c : ℕ} {x : BitVec 8} (h : Receiving s c x 0) (hc : c < 5)
    (hend : s.endSync = true) :
    rxEvents s flag = [.frameEnd] ∧ (rxRun s flag).phyState = .idle ∧
      (rxRun s flag).dataStrobe = false ∧ (rxRun s flag).frameEnd = true := by
  obtain ⟨h1, hev1, -, hend1⟩ := (h.anyByte 0x7E#8).step_bit hc (by omega)
  obtain ⟨h2, hev2, hend2⟩ := Receiving.run_flagOnes h1 5 le_rfl
  have hbit0 : (0x7E#8).getLsbD 0 = false := rfl
  rw [hbit0] at hev1 hev2 hend1 hend2 h2
  generalize hs2 : rxRun (s.step false false) (List.replicate 5 true) = s2 at h2 hend2
  -- the sixth 1 comes six bits into a byte, so it strobes nothing
  have h3 := (h2.step_eq true false).trans
    (RxPhy.stepSync_sixthOne h2.oneCounter (by rw [h2.bitCounter]; decide))
  have h4 : (s2.step true false).step false false = (s2.step true false).stepRxSync false := by
    rw [h3]; rfl
  have hend3 : (s2.step true false).endSync = true := by
    rw [h3]; exact hend2.trans (hend1.trans hend)
  rw [RxPhy.stepRxSync_close (by rw [h3]) hend3] at h4
  have hflag : flag = false :: (List.replicate 5 true ++ [true, false]) := rfl
  rw [hflag, rxEvents_cons, rxRun_cons, rxEvents_append, rxRun_append, hs2, hev1, hev2]
  simp only [rxEvents_cons, rxEvents_nil, rxRun_cons, rxRun_nil, h4]
  rw [h3]
  simp [RxPhy.events, h2.frameEnd]

/-- The opening flag, from the reset state, reports the start of a frame. -/
theorem run_openingFlag (x : BitVec 8) :
    rxEvents .reset flag = [.frameStart] ∧ Receiving (rxRun .reset flag) 0 x 0 :=
  ⟨by decide, by decide, by decide, by decide, fun i hi => absurd hi (by omega), by decide⟩

/-- **Everything the receiver reports for a frame**, from the reset state: the start, the strobed
bytes and the end. -/
theorem rxEvents_frame {bs : List (BitVec 8)} (hbs : bs ≠ []) (n : ℕ) :
    rxEvents .reset (flag ++ stuff 0 (bytesBits bs) ++ flag ++ List.replicate n true)
      = .frameStart :: (strobes 0 bs).map .byte ++ [.frameEnd] := by
  obtain ⟨hev0, h0⟩ := run_openingFlag 0
  obtain ⟨h1, hev1, hend1⟩ := Receiving.run_bytes bs 0 _ h0
  obtain ⟨hev2, hidle, hstrobe, -⟩ := h1.run_flag (by omega) (hend1 hbs)
  simp only [rxEvents_append, rxRun_append, hev0, hev1, hev2, rxEvents_idle n hidle hstrobe]
  simp

/-! ### When every byte is reported once -/

theorem length_strobes (c : ℕ) (bs : List (BitVec 8)) : bs.length ≤ (strobes c bs).length := by
  induction bs generalizing c with
  | nil => exact le_rfl
  | cons b bs ih =>
    have h1 : 1 ≤ if ones c (byteBits b) = 5 then 2 else 1 := by split <;> omega
    have h2 := ih (ones c (byteBits b))
    rw [strobes, List.length_append, List.length_replicate, List.length_cons]
    omega

theorem strobes_eq_self_iff (c : ℕ) (bs : List (BitVec 8)) :
    strobes c bs = bs ↔ ∀ k, k < bs.length → ones c (bytesBits (bs.take (k + 1))) ≠ 5 := by
  induction bs generalizing c with
  | nil => simp [strobes]
  | cons b bs ih =>
    by_cases h5 : ones c (byteBits b) = 5
    · constructor
      · intro h
        have hlen := congrArg List.length h
        have := length_strobes (ones c (byteBits b)) bs
        rw [strobes, if_pos h5, List.length_append, List.length_replicate, List.length_cons] at hlen
        omega
      · intro h
        exact absurd (by simpa [ones_append] using h5) (h 0 (by simp))
    · rw [strobes, if_neg h5, List.replicate_one, List.singleton_append, List.cons.injEq,
        and_iff_right rfl, ih]
      constructor
      · rintro h (_ | k) hk
        · simpa using h5
        · rw [List.take_succ_cons, bytesBits_cons, ones_append]
          exact h k (by simpa using hk)
      · intro h k hk
        have := h (k + 1) (by simpa using hk)
        rwa [List.take_succ_cons, bytesBits_cons, ones_append] at this

/-- **Deframing.** From the reset state, a frame of the bytes `bs` between two flags is reported as
its start, each of its bytes once and in order, and its end, exactly when no 0 is stuffed directly
after the last bit of a byte: the receiver leaves `data_strobe` high over such a 0. -/
theorem deframe_iff (bs : List (BitVec 8)) (hbs : bs ≠ []) (n : ℕ) :
    rxEvents .reset (flag ++ stuff 0 (bytesBits bs) ++ flag ++ List.replicate n true)
        = .frameStart :: bs.map .byte ++ [.frameEnd] ↔
      ∀ k, k < bs.length → ones 0 (bytesBits (bs.take (k + 1))) ≠ 5 := by
  rw [rxEvents_frame hbs, ← strobes_eq_self_iff]
  have hinj : Function.Injective RxEvent.byte := fun _ _ h => RxEvent.byte.inj h
  simp [hinj.list_map.eq_iff]

/-- The frame of the single byte `0x55` meets the condition. -/
theorem deframe_0x55 :
    rxEvents .reset (flag ++ stuff 0 (bytesBits [0x55#8]) ++ flag ++ List.replicate 3 true)
      = [.frameStart, .byte 0x55#8, .frameEnd] :=
  (deframe_iff [0x55#8] (by decide) 3).mpr (by decide)

/-- The byte `0xF8` ends with five 1s: it is reported twice. -/
theorem deframe_0xF8 :
    rxEvents .reset (flag ++ stuff 0 (bytesBits [0xF8#8]) ++ flag ++ List.replicate 3 true)
      ≠ .frameStart :: [0xF8#8].map .byte ++ [.frameEnd] := by
  decide

end Filestick
