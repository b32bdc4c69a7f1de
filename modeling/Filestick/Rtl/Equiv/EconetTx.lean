import Filestick.Lib.Hdlc
import Filestick.Rtl.EconetTx
import Mathlib.Data.BitVec
import Mathlib.Tactic.IntervalCases

/-!
# Framing by the Econet transmitter

A transmission goes through the phases of `Phase`: the request waits for the line, the opening flag
is sent, then the bits of the frame, then the closing flag.  The buffer side (`Feeding`) only counts
the bytes that the line side has requested; the line side (`Sending`) sends the bits of the byte
that was loaded last and stuffs 0s.

* `Phase.period`: what one clock does in each phase.
* `sends_of_clean`: a frame in which no 0 is stuffed before the last bit of a byte is sent, and the
  transmitter is idle again.
* `transmission_framed_iff`: from every reachable idle state, exactly when what goes out on the line
  is the frame between two flags.
-/

namespace Filestick

open Hdlc

/-! ### The frame of a request -/

/-- What a transmission request hands over: the buffer and the two offsets. -/
structure TxFrame where
  buf : BitVec 9 → BitVec 32
  first : BitVec 11
  last : BitVec 11

namespace TxFrame

/-- The number of bytes between the two offsets. -/
def length (f : TxFrame) : ℕ := (f.last - f.first).toNat + 1

/-- The bytes between the two offsets. -/
def data (f : TxFrame) : List (BitVec 8) :=
  (List.range f.length).map fun i => EconetTxBuffered.bufByte f.buf (f.first + BitVec.ofNat 11 i)

/-- The data and its complemented check sequence, low byte first. -/
def bytes (f : TxFrame) : List (BitVec 8) :=
  f.data ++ [~~~((Fcs.ofBytes f.data).extractLsb' 0 8), ~~~((Fcs.ofBytes f.data).extractLsb' 8 8)]

/-- The bits of the frame, before stuffing. -/
def bits (f : TxFrame) : List Bool := bytesBits f.bytes

/-- The state of `econet_tx_buffered` once the transmitter has requested `i` bytes. -/
def stateAt (f : TxFrame) (i : ℕ) : TxState :=
  if i < f.length then .tx
  else if i = f.length then .fcs1
  else if i = f.length + 1 then .fcs2
  else if i = f.length + 2 then .txEnd
  else .idle

/-- The buffer offset once the transmitter has requested `i` bytes: it stays at the last one. -/
def offset (f : TxFrame) (i : ℕ) : BitVec 11 := f.first + BitVec.ofNat 11 (min i (f.length - 1))

variable (f : TxFrame)

theorem length_pos : 0 < f.length := Nat.succ_pos _

theorem length_le : f.length ≤ 2048 := (f.last - f.first).isLt

@[simp] theorem length_data : f.data.length = f.length := by simp [data]

@[simp] theorem length_bytes : f.bytes.length = f.length + 2 := by simp [bytes]

@[simp] theorem length_bits : f.bits.length = 8 * (f.length + 2) := by simp [bits]

theorem stateAt_of_lt {i : ℕ} (hi : i < f.length) : f.stateAt i = .tx := if_pos hi

@[simp] theorem stateAt_length : f.stateAt f.length = .fcs1 := by simp [stateAt]

@[simp] theorem stateAt_length_add_one : f.stateAt (f.length + 1) = .fcs2 := by simp [stateAt]

@[simp] theorem stateAt_length_add_two : f.stateAt (f.length + 2) = .txEnd := by simp [stateAt]

theorem stateAt_of_ge {i : ℕ} (hi : f.length + 3 ≤ i) : f.stateAt i = .idle := by
  unfold stateAt
  repeat rw [if_neg (by omega)]

theorem offset_eq_last_iff {i : ℕ} (hi : i < f.length) :
    f.offset i = f.last ↔ i + 1 = f.length := by
  have hle := f.length_le
  have hmin : min i (f.length - 1) = i := by omega
  rw [offset, hmin]
  constructor
  · intro h
    have h' : f.last - f.first = BitVec.ofNat 11 i := by
      rw [← h, BitVec.add_comm, BitVec.add_sub_cancel]
    rw [length, h', BitVec.toNat_ofNat, Nat.mod_eq_of_lt (by omega)]
  · intro h
    have h' : BitVec.ofNat 11 i = f.last - f.first := by
      apply BitVec.eq_of_toNat_eq
      rw [BitVec.toNat_ofNat, Nat.mod_eq_of_lt (by omega)]
      unfold length at h
      omega
    rw [h', BitVec.add_comm, BitVec.sub_add_cancel]

theorem offset_succ {i : ℕ} (hi : i + 1 < f.length) : f.offset (i + 1) = f.offset i + 1#11 := by
  have h1 : min (i + 1) (f.length - 1) = i + 1 := by omega
  have h2 : min i (f.length - 1) = i := by omega
  rw [offset, offset, h1, h2, BitVec.ofNat_add, BitVec.add_assoc]

theorem getD_bytes_data {i : ℕ} (hi : i < f.length) :
    f.bytes.getD i 0 = EconetTxBuffered.bufByte f.buf (f.offset i) := by
  have hmin : min i (f.length - 1) = i := by omega
  rw [offset, hmin, bytes, List.getD_eq_getElem?_getD,
    List.getElem?_append_left (by simpa using hi)]
  simp [data, hi]

theorem take_succ_data {i : ℕ} (hi : i < f.length) :
    f.data.take (i + 1)
      = f.data.take i ++ [EconetTxBuffered.bufByte f.buf (f.offset i)] := by
  have hmin : min i (f.length - 1) = i := by omega
  rw [List.take_add_one, offset, hmin]
  simp [data, hi]

end TxFrame

/-! ### The buffer side -/

open EconetTxBuffered

theorem EconetTxBuffered.period_txRequested (s : EconetTxBuffered) (r : Bool) :
    (s.period r).txRequested
    = if (s.stepState r).state = .idle then (s.stepState r).txRequested else false := rfl

/-- The frame check register on the rising edge, after the state has changed. -/
theorem EconetTxBuffered.period_txFcs_eq (s : EconetTxBuffered) (r : Bool) : (s.period r).txFcs
    = Fcs.step (if (s.period r).state = .idle then Fcs.fcsInit else (s.stepState r).txFcs)
      ((s.period r).state == .idle)
      ((s.period r).transmitter.requestByte && (s.period r).state == .tx)
      (s.period r).econetByte := rfl

/-- The buffer and the offsets are those of the frame. -/
structure TxFrame.Loaded (f : TxFrame) (s : EconetTxBuffered) : Prop where
  buf : s.econetBuf = f.buf
  bufferStart : s.bufferStart = f.first
  bufferEnd : s.bufferEnd = f.last

theorem TxFrame.Loaded.period {f : TxFrame} {s : EconetTxBuffered} (h : f.Loaded s) (r : Bool) :
    f.Loaded (s.period r) := by
  have hfields : (s.stepState r).econetBuf = s.econetBuf ∧
      (s.stepState r).bufferStart = s.bufferStart ∧ (s.stepState r).bufferEnd = s.bufferEnd := by
    unfold EconetTxBuffered.stepState
    split <;> exact ⟨rfl, rfl, rfl⟩
  exact ⟨hfields.1.trans h.buf, hfields.2.1.trans h.bufferStart, hfields.2.2.trans h.bufferEnd⟩

/-- The buffer side while a frame is sent: `i` bytes were requested, `i'` of them before the last
clock. -/
structure Feeding (f : TxFrame) (s : EconetTxBuffered) (i' i : ℕ) : Prop where
  loaded : f.Loaded s
  startFrame : s.startFrame = false
  txRequested : s.txRequested = false
  state : s.state = f.stateAt i
  econetCtr : i < f.length + 3 → s.econetCtr = f.offset i
  bufReg : i' < f.length + 3 → s.bufReg = f.buf ((f.offset i').extractLsb' 2 9)
  endFrame : s.endFrame = decide (i' = f.length + 2)
  le : i' ≤ i

namespace Feeding

variable {f : TxFrame} {s : EconetTxBuffered} {i' i : ℕ}

theorem stepState_spec (h : Feeding f s i' i) (r : Bool) :
    (s.stepState r).startFrame = false ∧ (s.stepState r).txRequested = false ∧
      (s.stepState r).state = f.stateAt (i + s.transmitter.requestByte.toNat) ∧
      (i + s.transmitter.requestByte.toNat < f.length + 3 →
        (s.stepState r).econetCtr = f.offset (i + s.transmitter.requestByte.toNat)) ∧
      (s.stepState r).endFrame = decide (i = f.length + 2) := by
  have hpos := f.length_pos
  have hle := h.le
  have hs := h.state
  have hctr := h.econetCtr
  have hend := h.endFrame
  rcases lt_or_ge i f.length with hi | hi
  · -- `STATE_TX`: the counter moves on unless it is at the last byte
    have hs' : s.state = .tx := by rw [hs, TxFrame.stateAt, if_pos hi]
    have hctr' := hctr (by omega)
    have hlast : (s.econetCtr == s.bufferEnd) = decide (i + 1 = f.length) := by
      rw [hctr', h.loaded.bufferEnd, beq_eq_decide, decide_eq_decide]
      exact f.offset_eq_last_iff hi
    have hne : (s.econetCtr != s.bufferEnd) = !decide (i + 1 = f.length) := congrArg not hlast
    have he : s.endFrame = decide (i = f.length + 2) := by
      rw [hend, decide_eq_decide]; omega
    simp only [EconetTxBuffered.stepState, hs', hlast, hne, h.txRequested, he]
    rw [hctr']
    cases s.transmitter.requestByte with
    | false => simp [f.stateAt_of_lt hi]
    | true =>
      by_cases hl : i + 1 = f.length
      · have hoff : f.offset f.length = f.offset i := by
          rw [TxFrame.offset, TxFrame.offset]; congr 2; omega
        simp [hl, hoff]
      · have hi' : i + 1 < f.length := by omega
        simp [hl, f.stateAt_of_lt hi', f.offset_succ hi']
  · -- `STATE_FCS_1`, `STATE_FCS_2`, `STATE_TX_END` and `STATE_IDLE`: the counter rests
    have hoff : f.offset (i + s.transmitter.requestByte.toNat) = f.offset i := by
      rw [TxFrame.offset, TxFrame.offset]; congr 2; omega
    rw [hoff]
    obtain rfl | rfl | rfl | hi3 : i = f.length ∨ i = f.length + 1 ∨ i = f.length + 2 ∨
        f.length + 3 ≤ i := by omega
    · have hs' : s.state = .fcs1 := by rw [hs, f.stateAt_length]
      have he : s.endFrame = false := by rw [hend, decide_eq_false_iff_not]; omega
      simp only [EconetTxBuffered.stepState, hs', h.txRequested, h.startFrame, he, hctr (by omega)]
      cases s.transmitter.requestByte <;> simp
    · have hs' : s.state = .fcs2 := by rw [hs, f.stateAt_length_add_one]
      have he : s.endFrame = false := by rw [hend, decide_eq_false_iff_not]; omega
      simp only [EconetTxBuffered.stepState, hs', h.txRequested, h.startFrame, he, hctr (by omega)]
      cases s.transmitter.requestByte <;> simp [Nat.add_assoc]
    · have hs' : s.state = .txEnd := by rw [hs, f.stateAt_length_add_two]
      simp only [EconetTxBuffered.stepState, hs', h.txRequested, h.startFrame, hctr (by omega)]
      cases s.transmitter.requestByte <;> simp [Nat.add_assoc, f.stateAt_of_ge]
    · have hs' : s.state = .idle := by rw [hs, f.stateAt_of_ge hi3]
      simp only [EconetTxBuffered.stepState, hs', h.txRequested]
      rw [f.stateAt_of_ge (by omega)]
      refine ⟨trivial, trivial, rfl, fun h => absurd h (by omega), ?_⟩
      rw [eq_comm, decide_eq_false_iff_not]
      omega

/-- The bytes requested so far, after one more clock. -/
theorem period (h : Feeding f s i' i) (r : Bool) :
    Feeding f (s.period r) i (i + s.transmitter.requestByte.toNat) := by
  obtain ⟨h1, h2, h3, h4, h5⟩ := h.stepState_spec r
  have hreg : (s.period r).bufReg = s.econetBuf (s.econetCtr.extractLsb' 2 9) := rfl
  refine ⟨h.loaded.period r, h1, ?_, h3, h4, fun hi => by
    rw [hreg, h.loaded.buf, h.econetCtr hi], h5, by omega⟩
  rw [period_txRequested, h2, ite_self]

/-- The byte offered to the transmitter, when no byte was requested on the last clock. -/
theorem txByte_eq (h : Feeding f s i i) (hi : i ≤ f.length + 2)
    (hfcs : f.length ≤ i → s.txFcs = Fcs.ofBytes f.data) :
    s.txByte = f.bytes.getD (min i (f.length + 1)) 0 := by
  have hs := h.state
  rcases lt_or_ge i f.length with hlt | hge
  · rw [f.stateAt_of_lt hlt] at hs
    have hmin : min i (f.length + 1) = i := by omega
    rw [EconetTxBuffered.txByte, hs, hmin, f.getD_bytes_data hlt]
    simp only [EconetTxBuffered.econetByte, h.bufReg (by omega), h.econetCtr (by omega),
      EconetTxBuffered.bufByte]
  · replace hfcs := hfcs hge
    have hlo : f.bytes.getD f.length 0 = ~~~((Fcs.ofBytes f.data).extractLsb' 0 8) := by
      simp [TxFrame.bytes]
    have hhi : f.bytes.getD (f.length + 1) 0 = ~~~((Fcs.ofBytes f.data).extractLsb' 8 8) := by
      simp [TxFrame.bytes]
    obtain rfl | rfl | rfl : i = f.length ∨ i = f.length + 1 ∨ i = f.length + 2 := by omega
    · have hmin : min f.length (f.length + 1) = f.length := by omega
      rw [f.stateAt_length] at hs
      rw [EconetTxBuffered.txByte, hs, hmin, hlo, hfcs]
    · rw [f.stateAt_length_add_one] at hs
      rw [EconetTxBuffered.txByte, hs, min_self, hhi, hfcs]
    · have hmin : min (f.length + 2) (f.length + 1) = f.length + 1 := by omega
      rw [f.stateAt_length_add_two] at hs
      rw [EconetTxBuffered.txByte, hs, hmin, hhi, hfcs]

/-- The frame check register takes in a byte on the clock before the transmitter does. -/
theorem period_txFcs (h : Feeding f s i' i) (r : Bool)
    (hi : i + s.transmitter.requestByte.toNat ≤ f.length + 2)
    (hreq : (s.period r).transmitter.requestByte = true → s.transmitter.requestByte = false)
    (hfcs : s.txFcs = Fcs.ofBytes (f.data.take (i + s.transmitter.requestByte.toNat))) :
    (s.period r).txFcs = Fcs.ofBytes (f.data.take
      (i + s.transmitter.requestByte.toNat + (s.period r).transmitter.requestByte.toNat)) := by
  have h' := h.period r
  have hstate := h'.state
  have hkeep : (s.stepState r).txFcs = s.txFcs := by
    unfold EconetTxBuffered.stepState
    split <;> rfl
  have hactive : (s.period r).state ≠ .idle := by
    rw [hstate, TxFrame.stateAt]
    split_ifs <;> first | decide | omega
  rw [period_txFcs_eq, if_neg hactive, beq_eq_false_iff_ne.mpr hactive, hkeep, Fcs.step,
    if_neg (by decide)]
  cases hr' : (s.period r).transmitter.requestByte with
  | false => rw [Bool.false_and, if_neg (by decide), hfcs]; rfl
  | true =>
    have hr := hreq hr'
    rw [hr, Bool.toNat_false, Nat.add_zero] at hstate h' hfcs ⊢
    rw [Bool.true_and, Bool.toNat_true, hfcs]
    rcases lt_or_ge i f.length with hlt | hge
    · -- a byte of the buffer, which is in `buf_reg` since the last clock
      have hbyte : (s.period r).econetByte = bufByte f.buf (f.offset i) := by
        simp only [EconetTxBuffered.econetByte, h'.bufReg (by omega), h'.econetCtr (by omega),
          EconetTxBuffered.bufByte]
      rw [hstate, f.stateAt_of_lt hlt, if_pos (by decide), hbyte, f.take_succ_data hlt,
        Fcs.ofBytes_concat]
    · -- the check sequence does not go into the register
      have htx : ((s.period r).state == .tx) = false := by
        rw [hstate, beq_eq_false_iff_ne, TxFrame.stateAt, if_neg (by omega)]
        split_ifs <;> decide
      rw [htx, if_neg (by decide), List.take_of_length_le (by simpa using hge),
        List.take_of_length_le (by simpa using by omega)]

end Feeding

/-! ### The line side -/

theorem ofNat_three_eq_iff {n m : ℕ} (hm : m < 8) :
    BitVec.ofNat 3 n = BitVec.ofNat 3 m ↔ n % 8 = m := by
  rw [← BitVec.toNat_inj, BitVec.toNat_ofNat, BitVec.toNat_ofNat, Nat.mod_eq_of_lt hm]

namespace TxPhy

theorem requestByte_eq {p : TxPhy} {n : ℕ} (hs : p.state ≠ .endSync)
    (hb : p.bitcount = BitVec.ofNat 3 n) : p.requestByte = decide (n % 8 = 7) := by
  have hb' : (p.bitcount == 7#3) = decide (n % 8 = 7) := by
    rw [beq_eq_decide, hb, decide_eq_decide]
    exact ofNat_three_eq_iff (by decide)
  rw [TxPhy.requestByte, hb', bne_iff_ne.mpr hs, Bool.and_true]

variable {p : TxPhy} (b : BitVec 8) (startFrame endFrame : Bool)

theorem step_stuffed (hs : p.state = .transmit) (hone : p.onecount = 5#3) :
    p.step b startFrame endFrame = { p with
      onecount := 0#3
      dataOut := false
      txbuf := if p.requestByte then b else p.txbuf
      transmitting := true } := by
  simp [TxPhy.step, TxPhy.stepTransmit, hs, hone]

theorem step_bit (hs : p.state = .transmit) (hone : p.onecount ≠ 5#3) :
    p.step b startFrame endFrame = { p with
      onecount := if p.outputBit then p.onecount + 1#3 else 0#3
      state := if p.bitcount = 7#3 ∧ endFrame then .endSync else .transmit
      dataOut := p.outputBit
      bitcount := p.bitcount + 1#3
      txbuf := if p.requestByte then b else p.txbuf
      transmitting := true } := by
  simp [TxPhy.step, TxPhy.stepTransmit, hs, hone]

theorem stepFlag_eq {j : ℕ} (hj : j < 8) (hb : p.bitcount = BitVec.ofNat 3 j) (next : TxPhyState) :
    p.stepFlag next = { p with
      dataOut := flag.getD j false
      state := if j = 7 then next else p.state
      bitcount := BitVec.ofNat 3 (j + 1) } := by
  rw [TxPhy.stepFlag, hb]
  interval_cases j <;> rfl

end TxPhy

/-- The number of bytes requested when the bits `ds` and, if `z`, a stuffed 0 after them have been
sent, and `bad` times a 0 was stuffed before the last bit of a byte: each time one byte more. -/
def requests (ds : List Bool) (z : Bool) (bad : ℕ) : ℕ :=
  1 + ds.length / 8 + bad + if z = true ∧ ds.length % 8 = 7 then 1 else 0

/-- The number of bytes requested before the last clock. -/
def requestsBefore (ds : List Bool) (z : Bool) (bad : ℕ) : ℕ :=
  requests ds z bad - if z = true ∧ ds.length % 8 = 7 ∨ z = false ∧ ds.length % 8 = 0 then 1 else 0

/-- No 0 is stuffed before the last bit of a byte, the last byte of the frame apart, when `c` 1s
were counted before the frame. -/
def TxFrame.Clean (f : TxFrame) (c : ℕ) : Prop :=
  ∀ k, k ≤ f.length → ones c (f.bits.take (8 * k + 7)) ≠ 5

/-- What has been sent is a part of the frame. -/
structure Content (f : TxFrame) (c : ℕ) (s : EconetTxBuffered) (ds : List Bool) (z : Bool) :
    Prop where
  lt : ds.length < 8 * (f.length + 2)
  bits : ds = f.bits.take ds.length
  unstuffed : ∀ k, k < ds.length / 8 → ones c (f.bits.take (8 * k + 7)) ≠ 5
  txbuf : (z = true → ds.length % 8 = 7 → ds.length / 8 = f.length + 1) →
    s.transmitter.txbuf = f.bytes.getD (ds.length / 8) 0
  txFcs : ¬(z = true ∧ ds.length % 8 = 7) → s.txFcs
    = Fcs.ofBytes (f.data.take (1 + ds.length / 8 + if ds.length % 8 = 7 then 1 else 0))

/-- The bit that is sent next. -/
theorem Content.take_succ {f : TxFrame} {c : ℕ} {s : EconetTxBuffered} {ds : List Bool} {z : Bool}
    (hc : Content f c s ds z) (hz : z = true → ds.length % 8 = 7 → ds.length / 8 = f.length + 1) :
    ds ++ [s.transmitter.txbuf.getLsbD (ds.length % 8)] = f.bits.take (ds.length + 1) := by
  have hbuf := hc.txbuf hz
  have hlt := hc.lt
  rw [List.take_add_one, ← hc.bits, TxFrame.bits,
    getElem?_bytesBits (by rw [f.length_bytes]; exact hlt), hbuf]
  rfl

/-- The state between the flags: the bits `ds` and, if `z`, a stuffed 0 have been sent. -/
structure Sending (f : TxFrame) (c : ℕ) (s : EconetTxBuffered) (ds : List Bool) (z : Bool)
    (bad : ℕ) : Prop where
  phyState : s.transmitter.state = .transmit
  bitcount : s.transmitter.bitcount = BitVec.ofNat 3 ds.length
  onecount : s.transmitter.onecount = BitVec.ofNat 3 (if z then 0 else ones c ds)
  stuffed : z = true → ones c ds = 5
  feeding : Feeding f s (requestsBefore ds z bad) (requests ds z bad)
  content : bad = 0 → Content f c s ds z
  clean : f.Clean c → bad = 0

/-- The bits `ds` have been sent as a whole frame. -/
structure Sent (f : TxFrame) (c : ℕ) (ds : List Bool) (bad : ℕ) : Prop where
  length : ds.length + 8 * bad = 8 * (f.length + 2)
  bits : bad = 0 → ds = f.bits ∧ f.Clean c
  clean : f.Clean c → bad = 0

/-- The closing flag: `j` of its bits have been sent. -/
structure Closing (f : TxFrame) (s : EconetTxBuffered) (j : ℕ) : Prop where
  phyState : s.transmitter.state = .endSync
  bitcount : s.transmitter.bitcount = BitVec.ofNat 3 j
  feeding : ∃ i' i, f.length + 3 ≤ i ∧ Feeding f s i' i

namespace Sending

variable {f : TxFrame} {c : ℕ} {s : EconetTxBuffered} {ds : List Bool} {z : Bool} {bad : ℕ}

theorem requestByte_eq (h : Sending f c s ds z bad) :
    s.transmitter.requestByte = decide (ds.length % 8 = 7) :=
  TxPhy.requestByte_eq (by rw [h.phyState]; decide) h.bitcount

/-- The clock that stuffs a 0. -/
theorem period_stuffed (h : Sending f c s ds false bad) (h5 : ones c ds = 5) (r : Bool) :
    Sending f c (s.period r) ds true bad ∧ (s.period r).lineBit = [false] := by
  have hreq := h.requestByte_eq
  have hphy : (s.period r).transmitter = _ := TxPhy.step_stuffed s.txByte s.startFrame s.endFrame
    h.phyState (by rw [h.onecount, h5]; rfl)
  have hfeed := h.feeding.period r
  have hi : requests ds false bad = 1 + ds.length / 8 + bad := by simp [requests]
  have hi' : requestsBefore ds true bad = requests ds false bad := by
    simp only [requestsBefore, requests]; split_ifs <;> simp_all
  have hn : requests ds true bad = requests ds false bad + s.transmitter.requestByte.toNat := by
    rw [hreq]; by_cases h7 : ds.length % 8 = 7 <;> simp [requests, h7]
  refine ⟨⟨?_, ?_, ?_, fun _ => h5, ?_, ?_, h.clean⟩, ?_⟩
  · rw [hphy]; exact h.phyState
  · rw [hphy]; exact h.bitcount
  · rw [hphy]; rfl
  · rw [hi', hn]; exact hfeed
  · intro hbad
    subst hbad
    have hc := h.content rfl
    have hlt := hc.lt
    refine ⟨hc.lt, hc.bits, hc.unstuffed, fun hlast => ?_, fun h7 => ?_⟩
    · rw [hphy]
      by_cases h7 : ds.length % 8 = 7
      · -- the last byte of the frame: it is loaded a second time
        have hk := hlast rfl h7
        have hfull : s.txFcs = Fcs.ofBytes f.data := by
          rw [hc.txFcs (by simp), List.take_of_length_le (by rw [f.length_data]; omega)]
        have hbefore : requestsBefore ds false 0 = requests ds false 0 := by
          simp [requestsBefore, h7]
        have hbyte := (hbefore ▸ h.feeding).txByte_eq (by omega) fun _ => hfull
        have hmin : min (requests ds false 0) (f.length + 1) = ds.length / 8 := by omega
        rw [if_pos (by rw [hreq]; simpa using h7), hbyte, hmin]
      · rw [if_neg (by rw [hreq]; simpa using h7)]
        exact hc.txbuf (by simp)
    · have h7' : ds.length % 8 ≠ 7 := by simpa using h7
      have hreq' : (s.period r).transmitter.requestByte = s.transmitter.requestByte := by
        rw [hphy]; rfl
      have hno : s.transmitter.requestByte = false := by rw [hreq]; simpa using h7'
      have hfcs := h.feeding.period_txFcs r (by rw [hno, hi]; simp; omega) (fun _ => hno)
        (by rw [hc.txFcs (by simp), hno, hi, if_neg h7']; rfl)
      rw [hfcs, hreq', hno, hi, if_neg h7']
      rfl
  · rw [lineBit, hphy]; rfl

theorem outputBit_eq (h : Sending f c s ds z bad) :
    s.transmitter.outputBit = s.transmitter.txbuf.getLsbD (ds.length % 8) := by
  rw [TxPhy.outputBit, h.bitcount, BitVec.toNat_ofNat]

theorem onecount_ne_five (h : Sending f c s ds z bad) (hc : c ≤ 5)
    (h5 : z = false → ones c ds ≠ 5) : s.transmitter.onecount ≠ 5#3 := by
  have hle := ones_le hc ds
  rw [h.onecount, Ne, ofNat_three_eq_iff (by decide)]
  cases z with
  | true => rw [if_pos rfl]; decide
  | false =>
    have := h5 rfl
    simp only [Bool.false_eq_true, if_false]
    omega

theorem onecount_next (h : Sending f c s ds z bad) (hc : c ≤ 5)
    (h5 : z = false → ones c ds ≠ 5) (b : Bool) :
    (if b then s.transmitter.onecount + 1#3 else 0#3) = BitVec.ofNat 3 (ones c (ds ++ [b])) := by
  have hle := ones_le hc ds
  rw [ones_append, ones_cons, ones_nil, onesNext]
  cases b with
  | false => rfl
  | true =>
    rw [if_pos rfl, if_pos rfl, h.onecount]
    cases z with
    | true => rw [h.stuffed rfl]; rfl
    | false =>
      have := h5 rfl
      have hmod : ones c ds % 5 = ones c ds := by omega
      rw [hmod, BitVec.ofNat_add, if_neg (by decide)]

/-- The clock that sends a bit before the last one of a byte. -/
theorem period_bit (h : Sending f c s ds z bad) (hc : c ≤ 5) (h5 : z = false → ones c ds ≠ 5)
    (h7 : ds.length % 8 ≠ 7) (r : Bool) : ∃ b,
    Sending f c (s.period r) (ds ++ [b]) false bad ∧ (s.period r).lineBit = [b] := by
  have hno : s.transmitter.requestByte = false := by rw [h.requestByte_eq]; simpa using h7
  have hphy : (s.period r).transmitter = _ := TxPhy.step_bit s.txByte s.startFrame s.endFrame
    h.phyState (h.onecount_ne_five hc h5)
  have hbit : s.transmitter.bitcount ≠ 7#3 := by
    rwa [h.bitcount, Ne, ofNat_three_eq_iff (by decide)]
  rw [if_neg (by simp [hbit]), hno, if_neg (by decide)] at hphy
  have hdiv : (ds.length + 1) / 8 = ds.length / 8 := by omega
  have hn : requests ds z bad = 1 + ds.length / 8 + bad := by simp [requests, h7]
  have hfeed := h.feeding.period r
  rw [hno, Bool.toNat_false, Nat.add_zero, hn] at hfeed
  refine ⟨s.transmitter.outputBit, ⟨?_, ?_, ?_, by simp, ?_, ?_, h.clean⟩, ?_⟩
  · rw [hphy]
  · rw [hphy, h.bitcount, List.length_append, BitVec.ofNat_add]; rfl
  · rw [hphy]; exact h.onecount_next hc h5 _
  · have hmod : (ds.length + 1) % 8 ≠ 0 := by omega
    simpa [requests, requestsBefore, hdiv, hmod] using hfeed
  · intro hbad
    subst hbad
    have hcon := h.content rfl
    have hlt := hcon.lt
    have htake := hcon.take_succ fun _ h => absurd h h7
    rw [← h.outputBit_eq] at htake
    refine ⟨by rw [List.length_append, List.length_singleton]; omega, ?_, ?_, ?_, ?_⟩
    · rw [htake, List.length_take, f.length_bits]
      congr 1
      omega
    · rw [List.length_append, List.length_singleton, hdiv]
      exact hcon.unstuffed
    · intro _
      rw [List.length_append, List.length_singleton, hdiv, hphy]
      exact hcon.txbuf fun _ h => absurd h h7
    · intro _
      have hreq' := TxPhy.requestByte_eq (p := (s.period r).transmitter) (n := ds.length + 1)
        (by rw [hphy]; simp) (by rw [hphy, h.bitcount, BitVec.ofNat_add])
      have hfcs := h.feeding.period_txFcs r (by rw [hno, hn]; simp; omega) (fun _ => hno)
        (by rw [hcon.txFcs (fun h => h7 h.2), hno, hn, if_neg h7]; rfl)
      rw [hfcs, hreq', hno, hn, List.length_append, List.length_singleton, hdiv]
      by_cases h6 : (ds.length + 1) % 8 = 7 <;> simp [h6]
  · rw [lineBit, hphy]; rfl

theorem endFrame_eq (h : Sending f c s ds z bad) (h7 : ds.length % 8 = 7) :
    s.endFrame = decide (1 + ds.length / 8 + bad = f.length + 2) := by
  have hbefore : requestsBefore ds z bad = 1 + ds.length / 8 + bad := by
    simp only [requestsBefore, requests, h7]
    cases z <;> simp
  rw [h.feeding.endFrame, hbefore]

/-- The transmitter after the last bit of a byte, before the end of the frame: it has taken the next
byte. -/
theorem transmitter_lastBit (h : Sending f c s ds z bad) (hc : c ≤ 5)
    (h5 : z = false → ones c ds ≠ 5)
    (h7 : ds.length % 8 = 7) (hmore : 1 + ds.length / 8 + bad ≠ f.length + 2) (r : Bool) :
    (s.period r).transmitter = { s.transmitter with
      onecount := if s.transmitter.outputBit then s.transmitter.onecount + 1#3 else 0#3
      state := .transmit
      dataOut := s.transmitter.outputBit
      bitcount := s.transmitter.bitcount + 1#3
      txbuf := s.txByte
      transmitting := true } := by
  have hreq : s.transmitter.requestByte = true := by rw [h.requestByte_eq]; simpa using h7
  have hphy : (s.period r).transmitter = _ := TxPhy.step_bit s.txByte s.startFrame s.endFrame
    h.phyState (h.onecount_ne_five hc h5)
  have hend : s.endFrame = false := by rw [h.endFrame_eq h7]; simpa using hmore
  rwa [if_neg (by simp [hend]), hreq, if_pos rfl] at hphy

/-- After the last bit of a byte the next byte of the frame is in the transmitter. -/
theorem content_lastBit (h : Sending f c s ds false 0) (hc : c ≤ 5) (h5 : ones c ds ≠ 5)
    (h7 : ds.length % 8 = 7) (hmore : 1 + ds.length / 8 ≠ f.length + 2) (r : Bool) :
    Content f c (s.period r) (ds ++ [s.transmitter.outputBit]) false := by
  have hreq : s.transmitter.requestByte = true := by rw [h.requestByte_eq]; simpa using h7
  have hphy := h.transmitter_lastBit hc (fun _ => h5) h7 hmore r
  have hdiv : (ds.length + 1) / 8 = ds.length / 8 + 1 := by omega
  have hmod : (ds.length + 1) % 8 = 0 := by omega
  have hcon := h.content rfl
  have hlt := hcon.lt
  have htake := hcon.take_succ (by simp)
  rw [← h.outputBit_eq] at htake
  have hn : requests ds false 0 = 1 + ds.length / 8 := by simp [requests]
  have hbefore : requestsBefore ds false 0 = 1 + ds.length / 8 := by simp [requestsBefore, hn, h7]
  have hfeed : Feeding f s (1 + ds.length / 8) (1 + ds.length / 8) := by
    have := h.feeding
    rwa [hbefore, hn] at this
  have hfcs : s.txFcs = Fcs.ofBytes (f.data.take (1 + ds.length / 8 + 1)) := by
    rw [hcon.txFcs (by simp), if_pos h7]
  refine ⟨by rw [List.length_append, List.length_singleton]; omega, ?_, ?_, fun _ => ?_,
    fun _ => ?_⟩
  · rw [htake, List.length_take, f.length_bits]
    congr 1
    omega
  · rw [List.length_append, List.length_singleton, hdiv]
    intro k hk
    rcases Nat.lt_succ_iff_lt_or_eq.mp hk with hk | rfl
    · exact hcon.unstuffed k hk
    · have heq : 8 * (ds.length / 8) + 7 = ds.length := by omega
      rw [heq, ← hcon.bits]
      exact h5
  · -- the check sequence is complete when its first byte is taken
    have hbyte := hfeed.txByte_eq (by omega) fun hge => by
      rw [hfcs, List.take_of_length_le (by rw [f.length_data]; omega)]
    have hmin : min (1 + ds.length / 8) (f.length + 1) = ds.length / 8 + 1 := by omega
    rw [hphy, List.length_append, List.length_singleton, hdiv, hbyte, hmin]
  · have hreq' := TxPhy.requestByte_eq (p := (s.period r).transmitter) (n := ds.length + 1)
      (by rw [hphy]; simp) (by rw [hphy, h.bitcount, BitVec.ofNat_add])
    have hno' : (s.period r).transmitter.requestByte = false := by rw [hreq', hmod]; rfl
    have hfcs' := h.feeding.period_txFcs r (by rw [hreq, hn, Bool.toNat_true]; omega)
      (fun h => absurd h (by rw [hno']; decide)) (by rw [hfcs, hn, hreq]; rfl)
    rw [hfcs', hno', hreq, hn, List.length_append, List.length_singleton, hdiv, hmod]
    congr 2

/-- The clock that sends the last bit of a byte, before the end of the frame. -/
theorem period_lastBit (h : Sending f c s ds z bad) (hc : c ≤ 5) (h5 : z = false → ones c ds ≠ 5)
    (h7 : ds.length % 8 = 7) (hmore : 1 + ds.length / 8 + bad ≠ f.length + 2) (r : Bool) : ∃ b,
    Sending f c (s.period r) (ds ++ [b]) false (bad + z.toNat) ∧ (s.period r).lineBit = [b] := by
  have hreq : s.transmitter.requestByte = true := by rw [h.requestByte_eq]; simpa using h7
  have hphy := h.transmitter_lastBit hc h5 h7 hmore r
  have hdiv : (ds.length + 1) / 8 = ds.length / 8 + 1 := by omega
  have hmod : (ds.length + 1) % 8 = 0 := by omega
  have hn : requests ds z bad = 1 + ds.length / 8 + bad + z.toNat := by
    rw [requests, h7]; cases z <;> simp
  have hfeed := h.feeding.period r
  rw [hreq, Bool.toNat_true] at hfeed
  refine ⟨s.transmitter.outputBit, ⟨?_, ?_, ?_, by simp, ?_, ?_, ?_⟩, ?_⟩
  · rw [hphy]
  · rw [hphy, h.bitcount, List.length_append, BitVec.ofNat_add]; rfl
  · rw [hphy]; exact h.onecount_next hc h5 _
  · have hn' : requests (ds ++ [s.transmitter.outputBit]) false (bad + z.toNat)
        = requests ds z bad + 1 := by
      rw [hn, requests, List.length_append, List.length_singleton, hdiv]; simp; omega
    have hb' : requestsBefore (ds ++ [s.transmitter.outputBit]) false (bad + z.toNat)
        = requests ds z bad := by
      rw [requestsBefore, hn', List.length_append, List.length_singleton, hmod]; simp
    rw [hn', hb']
    exact hfeed
  · intro hbad
    obtain ⟨rfl, hz⟩ : bad = 0 ∧ z.toNat = 0 := by omega
    obtain rfl : z = false := by simpa using hz
    exact h.content_lastBit hc (h5 rfl) h7 hmore r
  · intro hclean
    obtain rfl := h.clean hclean
    cases z with
    | false => rfl
    | true =>
      -- a 0 was stuffed before the last bit of this byte
      have hcon := h.content rfl
      have hlt := hcon.lt
      have heq : 8 * (ds.length / 8) + 7 = ds.length := by omega
      refine absurd ?_ (hclean (ds.length / 8) (by omega))
      rw [heq, ← hcon.bits]
      exact h.stuffed rfl
  · rw [lineBit, hphy]; rfl

/-- The clock that sends the last bit of the frame. -/
theorem period_end (h : Sending f c s ds z bad) (hc : c ≤ 5) (h5 : z = false → ones c ds ≠ 5)
    (h7 : ds.length % 8 = 7) (hend : 1 + ds.length / 8 + bad = f.length + 2) (r : Bool) : ∃ b,
    Closing f (s.period r) 0 ∧ Sent f c (ds ++ [b]) bad ∧ (s.period r).lineBit = [b] := by
  have hphy : (s.period r).transmitter = _ := TxPhy.step_bit s.txByte s.startFrame s.endFrame
    h.phyState (h.onecount_ne_five hc h5)
  have hend' : s.endFrame = true := by rw [h.endFrame_eq h7]; simpa using hend
  have hbit : s.transmitter.bitcount = 7#3 := by
    rwa [h.bitcount, ofNat_three_eq_iff (by decide)]
  have hreq : s.transmitter.requestByte = true := by rw [h.requestByte_eq]; simpa using h7
  have hn : f.length + 2 ≤ requests ds z bad := by rw [requests]; omega
  have hfeed := h.feeding.period r
  rw [hreq, Bool.toNat_true] at hfeed
  refine ⟨s.transmitter.outputBit, ⟨?_, ?_, _, _, ?_, hfeed⟩, ⟨?_, ?_, h.clean⟩, ?_⟩
  · rw [hphy, if_pos ⟨hbit, hend'⟩]
  · rw [hphy, hbit]; rfl
  · omega
  · rw [List.length_append, List.length_singleton]; omega
  · intro hbad
    subst hbad
    have hcon := h.content rfl
    have htake := hcon.take_succ fun _ _ => by omega
    rw [← h.outputBit_eq] at htake
    refine ⟨?_, fun k hk => hcon.unstuffed k (by omega)⟩
    rw [htake, List.take_of_length_le (by rw [f.length_bits]; omega)]
  · rw [lineBit, hphy]; rfl

end Sending

/-! ### Before and after -/

/-- The request waits for the line. -/
structure Waiting (f : TxFrame) (c : ℕ) (s : EconetTxBuffered) : Prop where
  loaded : f.Loaded s
  startFrame : s.startFrame = false
  phyState : s.transmitter.state = .idle
  onecount : s.transmitter.onecount = BitVec.ofNat 3 c
  txFcs : s.txFcs = Fcs.fcsInit
  state : s.state = .idle ∧ s.txRequested = true ∨
    s.state = .rxwait ∧ s.txRequested = false ∧ s.econetCtr = f.first ∧ s.endFrame = false

/-- The two clocks that start the transmitter; on the second one `start_frame` is high. -/
structure Starting (f : TxFrame) (c : ℕ) (s : EconetTxBuffered) (late : Bool) : Prop where
  loaded : f.Loaded s
  txRequested : s.txRequested = false
  startFrame : s.startFrame = late
  endFrame : s.endFrame = false
  econetCtr : s.econetCtr = f.first
  state : s.state = if late then .tx else .txStart
  phyState : s.transmitter.state = .idle
  bitcount : s.transmitter.bitcount = 0#3
  onecount : s.transmitter.onecount = BitVec.ofNat 3 c
  txFcs : s.txFcs = Fcs.fcsInit

/-- The opening flag: `j` of its bits have been sent. -/
structure Opening (f : TxFrame) (c : ℕ) (s : EconetTxBuffered) (j : ℕ) : Prop where
  phyState : s.transmitter.state = .startSync
  bitcount : s.transmitter.bitcount = BitVec.ofNat 3 j
  onecount : s.transmitter.onecount = BitVec.ofNat 3 c
  feeding : Feeding f s 0 0
  txFcs : s.txFcs = Fcs.ofBytes (f.data.take (if j = 7 then 1 else 0))

/-- The frame is over; `late` is set once the line driver is off. -/
structure Done (f : TxFrame) (s : EconetTxBuffered) (late : Bool) : Prop where
  phyState : s.transmitter.state = .idle
  transmitting : s.transmitter.transmitting = !late
  feeding : ∃ i' i, f.length + 3 ≤ i ∧ Feeding f s i' i

section

variable {f : TxFrame} {c : ℕ} {s : EconetTxBuffered} {j : ℕ} {r : Bool}

theorem idle_period_transmitter (h : s.transmitter.state = .idle) (r : Bool) :
    (s.period r).transmitter = { s.transmitter with
      state := if s.startFrame then .startSync else .idle
      bitcount := 0#3
      dataOut := true
      transmitting := false
      txbuf := if s.transmitter.requestByte then s.txByte else s.transmitter.txbuf } := by
  simp [EconetTxBuffered.period, posedge, negedge, stateResets, TxPhy.step, TxPhy.stepIdle, h]

theorem flag_period_transmitter (next : TxPhyState)
    (h : s.transmitter.state = .startSync ∧ next = .transmit ∨
      s.transmitter.state = .endSync ∧ next = .idle)
    (hj : j < 8) (hb : s.transmitter.bitcount = BitVec.ofNat 3 j) (r : Bool) :
    (s.period r).transmitter = { s.transmitter with
      state := if j = 7 then next else s.transmitter.state
      bitcount := BitVec.ofNat 3 (j + 1)
      dataOut := flag.getD j false
      transmitting := true
      txbuf := if s.transmitter.requestByte then s.txByte else s.transmitter.txbuf } := by
  have hstep : (s.period r).transmitter = s.transmitter.step s.txByte s.startFrame s.endFrame := rfl
  rcases h with ⟨h, rfl⟩ | ⟨h, rfl⟩ <;>
    simp [hstep, TxPhy.step, h, TxPhy.stepFlag_eq hj hb]

/-- A clock before the transmitter runs leaves the check register alone. -/
theorem period_txFcs_init (hno : (s.period r).transmitter.requestByte = false)
    (h : s.txFcs = Fcs.fcsInit) : (s.period r).txFcs = Fcs.fcsInit := by
  have hkeep : (s.stepState r).txFcs = s.txFcs := by
    unfold EconetTxBuffered.stepState
    split <;> rfl
  rw [period_txFcs_eq, hno, hkeep, h, ite_self, Fcs.step, Bool.false_and]
  exact ite_self _

/-- The request is taken in as soon as the line is ready. -/
theorem Waiting.period (h : Waiting f c s) (r : Bool) :
    (s.period r).lineBit = [] ∧
      if s.lineReady r then Starting f c (s.period r) false else Waiting f c (s.period r) := by
  have hphy := idle_period_transmitter h.phyState r
  rw [h.startFrame, if_neg (by decide)] at hphy
  have hfcs := period_txFcs_init (r := r) (by rw [hphy]; rfl) h.txFcs
  have hstep : s.stepState r = { s with
      econetCtr := f.first
      startFrame := false
      endFrame := false
      state := if s.lineReady r then .txStart else .rxwait } := by
    -- `STATE_IDLE` with the request, or `STATE_RXWAIT`
    rcases h.state with ⟨hs, htx⟩ | ⟨hs, htx, hctr, hend⟩
    · simp [EconetTxBuffered.stepState, hs, htx, h.loaded.bufferStart]
    · rw [← hctr, ← hend]
      simp [EconetTxBuffered.stepState, hs, h.startFrame, hend]
  refine ⟨by rw [lineBit, hphy]; rfl, ?_⟩
  cases hr : s.lineReady r with
  | true =>
    rw [hr, if_pos rfl] at hstep
    rw [if_pos rfl]
    refine ⟨h.loaded.period r, ?_, ?_, ?_, ?_, ?_, by rw [hphy], by rw [hphy], ?_, hfcs⟩
    · rw [period_txRequested, hstep]; rfl
    · exact congrArg EconetTxBuffered.startFrame hstep
    · exact congrArg EconetTxBuffered.endFrame hstep
    · exact congrArg EconetTxBuffered.econetCtr hstep
    · exact congrArg EconetTxBuffered.state hstep
    · rw [hphy]; exact h.onecount
  | false =>
    rw [hr, if_neg (by decide)] at hstep
    rw [if_neg (by decide)]
    refine ⟨h.loaded.period r, ?_, by rw [hphy], by rw [hphy]; exact h.onecount, hfcs,
      Or.inr ⟨?_, ?_, ?_, ?_⟩⟩
    · exact congrArg EconetTxBuffered.startFrame hstep
    · exact congrArg EconetTxBuffered.state hstep
    · rw [period_txRequested, hstep]; rfl
    · exact congrArg EconetTxBuffered.econetCtr hstep
    · exact congrArg EconetTxBuffered.endFrame hstep

theorem Starting.period_early (h : Starting f c s false) (r : Bool) :
    Starting f c (s.period r) true ∧ (s.period r).lineBit = [] := by
  have hphy := idle_period_transmitter h.phyState r
  rw [h.startFrame, if_neg (by decide)] at hphy
  have hfcs := period_txFcs_init (r := r) (by rw [hphy]; rfl) h.txFcs
  have hstep : s.stepState r = { s with startFrame := true, state := .tx } := by
    simp [EconetTxBuffered.stepState, h.state]
  refine ⟨⟨h.loaded.period r, ?_, ?_, ?_, ?_, ?_, by rw [hphy], by rw [hphy], ?_, hfcs⟩,
    by rw [lineBit, hphy]; rfl⟩
  · rw [period_txRequested, hstep]; rfl
  · exact congrArg EconetTxBuffered.startFrame hstep
  · exact (congrArg EconetTxBuffered.endFrame hstep).trans h.endFrame
  · exact (congrArg EconetTxBuffered.econetCtr hstep).trans h.econetCtr
  · exact congrArg EconetTxBuffered.state hstep
  · rw [hphy]; exact h.onecount

theorem Starting.period_late (h : Starting f c s true) (r : Bool) :
    Opening f c (s.period r) 0 ∧ (s.period r).lineBit = [] := by
  have hphy := idle_period_transmitter h.phyState r
  rw [h.startFrame, if_pos rfl] at hphy
  have hfcs := period_txFcs_init (r := r) (by rw [hphy]; rfl) h.txFcs
  have hno : s.transmitter.requestByte = false := by
    simp [TxPhy.requestByte, h.bitcount]
  have hstep : s.stepState r = { s with startFrame := false, state := .tx } := by
    simp [EconetTxBuffered.stepState, h.state, hno]
  have hreg : (s.period r).bufReg = s.econetBuf (s.econetCtr.extractLsb' 2 9) := rfl
  have hoff : f.offset 0 = f.first := by simp [TxFrame.offset]
  refine ⟨⟨by rw [hphy], by rw [hphy], by rw [hphy]; exact h.onecount,
    ⟨h.loaded.period r, ?_, ?_, ?_, fun _ => ?_, fun _ => ?_, ?_, le_rfl⟩, hfcs⟩,
    by rw [lineBit, hphy]; rfl⟩
  · exact congrArg EconetTxBuffered.startFrame hstep
  · rw [period_txRequested, hstep]; rfl
  · rw [f.stateAt_of_lt f.length_pos]
    exact congrArg EconetTxBuffered.state hstep
  · rw [hoff]
    exact (congrArg EconetTxBuffered.econetCtr hstep).trans h.econetCtr
  · rw [hreg, h.loaded.buf, h.econetCtr, hoff]
  · exact (congrArg EconetTxBuffered.endFrame hstep).trans h.endFrame

theorem Opening.period (h : Opening f c s j) (hj : j < 7) (r : Bool) :
    Opening f c (s.period r) (j + 1) ∧ (s.period r).lineBit = [flag.getD j false] := by
  have hphy := flag_period_transmitter .transmit (Or.inl ⟨h.phyState, rfl⟩) (by omega) h.bitcount r
  have hno : s.transmitter.requestByte = false := by
    rw [TxPhy.requestByte_eq (by rw [h.phyState]; decide) h.bitcount, decide_eq_false_iff_not]
    omega
  have hreq' : (s.period r).transmitter.requestByte = decide (j + 1 = 7) := by
    rw [TxPhy.requestByte_eq (n := j + 1) (by rw [hphy, if_neg (by omega), h.phyState]; decide)
      (by rw [hphy]), Nat.mod_eq_of_lt (by omega)]
  have hfeed := h.feeding.period r
  rw [hno] at hfeed
  refine ⟨⟨?_, by rw [hphy], by rw [hphy]; exact h.onecount, hfeed, ?_⟩, by rw [lineBit, hphy]; rfl⟩
  · rw [hphy, if_neg (by omega)]; exact h.phyState
  · have hfcs := h.feeding.period_txFcs r (by rw [hno]; simp) (fun _ => hno)
      (by rw [h.txFcs, hno, if_neg (by omega)]; rfl)
    rw [hfcs, hno, hreq']
    by_cases h6 : j + 1 = 7 <;> simp [h6]

theorem Opening.period_last (h : Opening f c s 7) (r : Bool) :
    Sending f c (s.period r) [] false 0 ∧ (s.period r).lineBit = [false] := by
  have hphy := flag_period_transmitter .transmit (Or.inl ⟨h.phyState, rfl⟩) (by omega) h.bitcount r
  have hreq : s.transmitter.requestByte = true := by
    rw [TxPhy.requestByte_eq (by rw [h.phyState]; decide) h.bitcount]; rfl
  have hno' : (s.period r).transmitter.requestByte = false := by
    rw [TxPhy.requestByte_eq (n := 8) (by rw [hphy]; simp) (by rw [hphy])]; rfl
  have hpos := f.length_pos
  have hfeed := h.feeding.period r
  rw [hreq] at hfeed hphy
  rw [if_pos rfl, if_pos rfl] at hphy
  refine ⟨⟨?_, ?_, ?_, by simp, hfeed, fun _ => ⟨?_, rfl, by simp, ?_, ?_⟩, fun _ => rfl⟩, ?_⟩
  · rw [hphy]
  · rw [hphy]; rfl
  · rw [hphy]; exact h.onecount
  · simp
  · intro _
    rw [hphy, h.feeding.txByte_eq (by omega) fun h => by omega]
    rfl
  · intro _
    rw [h.feeding.period_txFcs r (by rw [hreq, Bool.toNat_true]; omega)
      (fun h => absurd h (by rw [hno']; decide)) (by rw [h.txFcs, hreq]; rfl), hreq, hno']
    rfl
  · rw [lineBit, hphy]; rfl

theorem Closing.period (h : Closing f s j) (hj : j < 7) (r : Bool) :
    Closing f (s.period r) (j + 1) ∧ (s.period r).lineBit = [flag.getD j false] := by
  have hphy := flag_period_transmitter .idle (Or.inr ⟨h.phyState, rfl⟩) (by omega) h.bitcount r
  obtain ⟨i', i, hi, hfeed⟩ := h.feeding
  refine ⟨⟨?_, by rw [hphy], _, _, by omega, hfeed.period r⟩, by rw [lineBit, hphy]; rfl⟩
  rw [hphy, if_neg (by omega)]
  exact h.phyState

theorem Closing.period_last (h : Closing f s 7) (r : Bool) :
    Done f (s.period r) false ∧ (s.period r).lineBit = [false] := by
  have hphy := flag_period_transmitter .idle (Or.inr ⟨h.phyState, rfl⟩) (by omega) h.bitcount r
  obtain ⟨i', i, hi, hfeed⟩ := h.feeding
  exact ⟨⟨by rw [hphy]; rfl, by rw [hphy]; rfl, _, _, by omega, hfeed.period r⟩,
    by rw [lineBit, hphy]; rfl⟩

theorem Done.period {late : Bool} (h : Done f s late) (r : Bool) :
    Done f (s.period r) true ∧ (s.period r).lineBit = [] := by
  obtain ⟨i', i, hi, hfeed⟩ := h.feeding
  have hphy := idle_period_transmitter h.phyState r
  rw [hfeed.startFrame] at hphy
  exact ⟨⟨by rw [hphy]; rfl, by rw [hphy]; rfl, _, _, by omega, hfeed.period r⟩,
    by rw [lineBit, hphy]; rfl⟩

theorem Done.idle (h : Done f s true) : s.Idle := by
  obtain ⟨i', i, hi, hfeed⟩ := h.feeding
  exact ⟨by rw [hfeed.state, f.stateAt_of_ge hi], h.phyState, h.transmitting⟩

end

/-! ### A whole transmission -/

/-- The phases of a transmission, with the bits on the line so far and a bound on the clocks that
are left when the frame is clean. -/
inductive Phase (f : TxFrame) (c : ℕ) : EconetTxBuffered → List Bool → ℕ → Prop
  | waiting {s : EconetTxBuffered} (h : Waiting f c s) : Phase f c s [] (16 * f.length + 80)
  | starting {s : EconetTxBuffered} {late : Bool} (h : Starting f c s late) :
    Phase f c s [] (16 * f.length + 70 - late.toNat)
  | opening {s : EconetTxBuffered} {j : ℕ} (hj : j ≤ 7) (h : Opening f c s j) :
    Phase f c s (flag.take j) (16 * f.length + 60 - j)
  | sending {s : EconetTxBuffered} {ds : List Bool} {z : Bool} {bad : ℕ}
    (h : Sending f c s ds z bad) :
    Phase f c s (flag ++ stuffLazy c ds ++ if z then [false] else [])
      (2 * (8 * (f.length + 2) - ds.length) + 11 - z.toNat)
  | closing {s : EconetTxBuffered} {ds : List Bool} {bad j : ℕ} (hj : j ≤ 7) (h : Closing f s j)
    (hds : Sent f c ds bad) : Phase f c s (flag ++ stuffLazy c ds ++ flag.take j) (9 - j)
  | done {s : EconetTxBuffered} {ds : List Bool} {bad : ℕ} {late : Bool} (h : Done f s late)
    (hds : Sent f c ds bad) : Phase f c s (flag ++ stuffLazy c ds ++ flag) (1 - late.toNat)

theorem flag_take_succ {j : ℕ} (hj : j < 7) :
    flag.take j ++ [flag.getD j false] = flag.take (j + 1) := by
  interval_cases j <;> rfl

/-- A bit after a stuffed 0, or after no run of five. -/
theorem Sending.stuffLazy_append_bit {f : TxFrame} {c : ℕ} {s : EconetTxBuffered}
    {ds : List Bool} {z : Bool}
    {bad : ℕ} (h : Sending f c s ds z bad) (h5 : z = false → ones c ds ≠ 5) (b : Bool) :
    flag ++ stuffLazy c ds ++ (if z then [false] else []) ++ [b] =
      flag ++ stuffLazy c (ds ++ [b]) := by
  have hz : (if z then [false] else []) = if ones c ds = 5 then [false] else [] := by
    cases z with
    | false => rw [if_neg (h5 rfl), if_neg (by decide)]
    | true => rw [if_pos (h.stuffed rfl), if_pos rfl]
  rw [hz, stuffLazy_append, stuffLazy, stuffLazy_nil]
  simp only [List.append_assoc]

/-- A clock between the flags. -/
theorem Phase.period_sending {f : TxFrame} {c : ℕ} (hc : c ≤ 5) {s : EconetTxBuffered}
    {ds : List Bool} {z : Bool} {bad : ℕ} (h : Sending f c s ds z bad) (r : Bool) :
    ∃ rank', Phase f c (s.period r)
        (flag ++ stuffLazy c ds ++ (if z then [false] else []) ++ (s.period r).lineBit) rank' ∧
      (f.Clean c → rank' < 2 * (8 * (f.length + 2) - ds.length) + 11 - z.toNat) := by
  by_cases hstuff : z = false ∧ ones c ds = 5
  · obtain ⟨rfl, h5⟩ := hstuff
    obtain ⟨h', hbit⟩ := h.period_stuffed h5 r
    rw [hbit, if_neg (by decide), List.append_nil]
    exact ⟨_, .sending h', fun _ => by simp⟩
  · have h5 : z = false → ones c ds ≠ 5 := fun hz h => hstuff ⟨hz, h⟩
    -- a clean frame sends no more bits than it has
    have hrank : f.Clean c → ds.length < 8 * (f.length + 2) ∧ z.toNat ≤ 1 :=
      fun hclean => ⟨(h.content (h.clean hclean)).lt, z.toNat_le⟩
    by_cases h7 : ds.length % 8 = 7
    · by_cases hend : 1 + ds.length / 8 + bad = f.length + 2
      · obtain ⟨b, h', hds, hbit⟩ := h.period_end hc h5 h7 hend r
        rw [hbit, h.stuffLazy_append_bit h5, ← List.append_nil (flag ++ _)]
        refine ⟨_, .closing (j := 0) (by omega) h' hds, fun hclean => ?_⟩
        have := hrank hclean
        omega
      · obtain ⟨b, h', hbit⟩ := h.period_lastBit hc h5 h7 hend r
        rw [hbit, h.stuffLazy_append_bit h5, ← List.append_nil (flag ++ _)]
        refine ⟨_, .sending h', fun hclean => ?_⟩
        have := hrank hclean
        rw [List.length_append, List.length_singleton, Bool.toNat_false]
        omega
    · obtain ⟨b, h', hbit⟩ := h.period_bit hc h5 h7 r
      rw [hbit, h.stuffLazy_append_bit h5, ← List.append_nil (flag ++ _)]
      refine ⟨_, .sending h', fun hclean => ?_⟩
      have := hrank hclean
      rw [List.length_append, List.length_singleton, Bool.toNat_false]
      omega

/-- A clock in a phase: when the frame is clean, the bound goes down unless the request waits or all
is over. -/
theorem Phase.period {f : TxFrame} {c : ℕ} (hc : c ≤ 5) {s : EconetTxBuffered} {bits : List Bool}
    {rank : ℕ} (h : Phase f c s bits rank) (r : Bool) :
    ∃ rank', Phase f c (s.period r) (bits ++ (s.period r).lineBit) rank' ∧
      (f.Clean c → rank' < rank ∨ rank = 0 ∧ rank' = 0 ∨
        rank = 16 * f.length + 80 ∧ s.lineReady r = false) := by
  cases h with
  | waiting h =>
    obtain ⟨hbit, h'⟩ := h.period r
    rw [hbit, List.append_nil]
    cases hr : s.lineReady r with
    | true =>
      rw [hr, if_pos rfl] at h'
      exact ⟨_, .starting h', fun _ => Or.inl (by rw [Bool.toNat_false]; omega)⟩
    | false =>
      rw [hr, if_neg (by decide)] at h'
      exact ⟨_, .waiting h', fun _ => Or.inr (Or.inr ⟨rfl, rfl⟩)⟩
  | @starting late h =>
    cases late with
    | false =>
      obtain ⟨h', hbit⟩ := h.period_early r
      rw [hbit, List.append_nil]
      exact ⟨_, .starting h', fun _ => Or.inl (by rw [Bool.toNat_false, Bool.toNat_true]; omega)⟩
    | true =>
      obtain ⟨h', hbit⟩ := h.period_late r
      rw [hbit, List.append_nil]
      exact ⟨_, .opening (j := 0) (by omega) h', fun _ => Or.inl (by rw [Bool.toNat_true]; omega)⟩
  | @opening j hj h =>
    rcases Nat.lt_or_eq_of_le hj with hj | rfl
    · obtain ⟨h', hbit⟩ := h.period hj r
      rw [hbit, flag_take_succ hj]
      exact ⟨_, .opening hj h', fun _ => Or.inl (by omega)⟩
    · obtain ⟨h', hbit⟩ := h.period_last r
      rw [hbit]
      exact ⟨_, .sending h', fun _ => Or.inl (by simp; omega)⟩
  | @sending ds z bad h =>
    obtain ⟨rank', h', hlt⟩ := period_sending hc h r
    exact ⟨rank', h', fun hclean => Or.inl (hlt hclean)⟩
  | @closing ds bad j hj h hds =>
    rcases Nat.lt_or_eq_of_le hj with hj | rfl
    · obtain ⟨h', hbit⟩ := h.period hj r
      rw [hbit, List.append_assoc, flag_take_succ hj]
      exact ⟨_, .closing hj h' hds, fun _ => Or.inl (by omega)⟩
    · obtain ⟨h', hbit⟩ := h.period_last r
      rw [hbit, List.append_assoc]
      exact ⟨_, .done h' hds, fun _ => Or.inl (by simp)⟩
  | @done ds bad late h hds =>
    obtain ⟨h', hbit⟩ := h.period r
    rw [hbit, List.append_nil]
    refine ⟨_, .done h' hds, fun _ => ?_⟩
    cases late <;> simp

namespace Phase

variable {f : TxFrame} {c : ℕ} {s : EconetTxBuffered} {bits : List Bool} {rank : ℕ}

theorem rank_le (h : Phase f c s bits rank) : rank ≤ 16 * f.length + 80 := by
  cases h <;> omega

theorem of_rank_eq_zero (h : Phase f c s bits rank) (h0 : rank = 0) :
    s.Idle ∧ ∃ ds bad, bits = flag ++ stuffLazy c ds ++ flag ∧ Sent f c ds bad := by
  cases h with
  | waiting h => omega
  | @starting late h => have := late.toNat_le; omega
  | opening hj h => omega
  | @sending ds z bad h => have := z.toNat_le; omega
  | closing hj h hds => omega
  | @done ds bad late h hds =>
    obtain rfl : late = true := by cases late <;> simp_all
    exact ⟨h.idle, ds, bad, rfl, hds⟩

theorem of_idle (h : Phase f c s bits rank) (hidle : s.Idle) :
    bits = [] ∨ ∃ ds bad, bits = flag ++ stuffLazy c ds ++ flag ∧ Sent f c ds bad := by
  have hphy := hidle.transmitter
  cases h with
  | waiting h => exact Or.inl rfl
  | starting h => exact Or.inl rfl
  | opening hj h => exact absurd (h.phyState.symm.trans hphy) (by decide)
  | sending h => exact absurd (h.phyState.symm.trans hphy) (by decide)
  | closing hj h hds => exact absurd (h.phyState.symm.trans hphy) (by decide)
  | done h hds => exact Or.inr ⟨_, _, rfl, hds⟩

end Phase

section

variable {f : TxFrame} {c : ℕ} {s : EconetTxBuffered} (r : ℕ → Bool)

theorem phase_after (hc : c ≤ 5) (h : Waiting f c s) (t : ℕ) :
    ∃ rank, Phase f c (s.after r t) (s.driven r t) rank := by
  induction t with
  | zero => exact ⟨_, .waiting h⟩
  | succ t ih =>
    obtain ⟨rank, hp⟩ := ih
    obtain ⟨rank', hp', -⟩ := hp.period hc (r t)
    exact ⟨rank', hp'⟩

/-- Once the request does not wait any more, a clean frame comes to its end. -/
theorem phase_terminates (hc : c ≤ 5) (hclean : f.Clean c) : ∀ (n t rank : ℕ), rank ≤ n →
    rank < 16 * f.length + 80 → Phase f c (s.after r t) (s.driven r t) rank →
    ∃ t', Phase f c (s.after r t') (s.driven r t') 0 := by
  intro n
  induction n with
  | zero =>
    intro t rank hn _ hp
    obtain rfl : rank = 0 := by omega
    exact ⟨t, hp⟩
  | succ n ih =>
    intro t rank hn hlt hp
    obtain ⟨rank', hp', hrank⟩ := hp.period hc (r t)
    rcases hrank hclean with h | ⟨h, -⟩ | ⟨h, -⟩
    · exact ih (t + 1) rank' (by omega) (by omega) hp'
    · exact ⟨t, h ▸ hp⟩
    · omega

/-- **A clean frame is sent**, as soon as the line has become ready. -/
theorem sends_of_clean (hc : c ≤ 5) (h : Waiting f c s) (hclean : f.Clean c)
    (hready : ∃ t, (s.after r t).lineReady (r t) = true) :
    ∃ t, (s.after r t).Idle ∧ s.driven r t = flag ++ stuffLazy c f.bits ++ flag := by
  obtain ⟨t, hready⟩ := hready
  obtain ⟨rank, hp⟩ := phase_after r hc h t
  obtain ⟨rank', hp', hrank⟩ := hp.period hc (r t)
  have hlt : rank' < 16 * f.length + 80 := by
    have := hp.rank_le
    rcases hrank hclean with h | ⟨-, h⟩ | ⟨-, h⟩
    · omega
    · omega
    · rw [hready] at h; exact absurd h (by decide)
  obtain ⟨t', h0⟩ := phase_terminates r hc hclean rank' (t + 1) rank' le_rfl hlt hp'
  obtain ⟨hidle, ds, bad, hbits, hds⟩ := h0.of_rank_eq_zero rfl
  refine ⟨t', hidle, ?_⟩
  rw [hbits, (hds.bits (hds.clean hclean)).1]

end

/-- The stuffed bits may end with the `0` of a run of five `1`s, or leave it out. -/
def TxFrame.Body (f : TxFrame) (body : List Bool) : Prop :=
  body = stuff 0 f.bits ∨ body = stuffLazy 0 f.bits

/-- The 1s counted before the frame do not make a stuffed 0 of their own. -/
def TxFrame.Fresh (f : TxFrame) (c : ℕ) : Prop := c = 0 ∨ c + leadingOnes f.bits < 5

namespace TxFrame

variable {f : TxFrame} {c : ℕ}

theorem Body.exists_append {body : List Bool} (h : f.Body body) :
    ∃ zs, body = stuffLazy 0 f.bits ++ zs ∧ (zs = [] ∨ zs = [false] ∧ ones 0 f.bits = 5) := by
  rcases h with rfl | rfl
  · have h := stuff_eq_stuffLazy 0 f.bits
    rw [if_neg (by decide), List.nil_append] at h
    refine ⟨_, h, ?_⟩
    split_ifs with h5
    · exact Or.inr ⟨rfl, h5⟩
    · exact Or.inl rfl
  · exact ⟨[], (List.append_nil _).symm, Or.inl rfl⟩

theorem Fresh.stuffLazy_eq (h : f.Fresh c) : stuffLazy c f.bits = stuffLazy 0 f.bits := by
  rcases h with rfl | h
  · rfl
  · exact stuffLazy_of_leadingOnes h (by omega)

theorem Fresh.clean_iff (h : f.Fresh c) : f.Clean c ↔ f.Clean 0 := by
  rcases h with rfl | h
  · rfl
  · have heq : ∀ k, ones c (f.bits.take (8 * k + 7)) = ones 0 (f.bits.take (8 * k + 7)) := fun k =>
      ones_take_of_leadingOnes h (by omega) (by omega) (by rw [f.length_bits]; omega)
    simp only [Clean, heq]

/-- When the 1s counted before the frame matter, no frame of the right length looks right. -/
theorem fresh_of_framed {ds body : List Bool} {bad : ℕ} (hc : c ≤ 5) (hds : Sent f c ds bad)
    (hbody : f.Body body) (h : stuffLazy c ds = body) : f.Fresh c := by
  by_contra hfresh
  have h0 : c ≠ 0 := fun h0 => hfresh (Or.inl h0)
  have hlead : ¬c + leadingOnes f.bits < 5 := fun hl => hfresh (Or.inr hl)
  obtain ⟨zs, rfl, hzs⟩ := hbody.exists_append
  obtain ⟨p, as, bs, rfl, hbits, h'⟩ := split_of_stuffLazy_early (d := 0) (by omega) hc (by omega)
    (by rw [f.length_bits]; omega) h
  obtain ⟨ys, rfl, hys⟩ := exists_append_of_stuffLazy h'
  -- one bit is left over, since the first 0 of the frame went out as a stuffed one
  have hlen := hds.length
  have hlen' := congrArg List.length hbits
  rw [f.length_bits] at hlen'
  simp only [List.length_append, List.length_cons] at hlen hlen'
  obtain ⟨y, rfl⟩ : ∃ y, ys = [y] := List.length_eq_one_iff.mp (by omega)
  rw [stuffLazy, stuffLazy_nil] at hys
  rcases hzs with rfl | ⟨rfl, h5⟩
  · simp at hys
  · have h5' : ones 0 bs = 5 := by
      rw [hbits, ones_append, ones_cons] at h5
      exact h5
    rw [if_pos h5'] at hys
    simp at hys

/-- **What was sent is the frame** only if it is clean. -/
theorem clean_of_framed {ds body : List Bool} {bad : ℕ} (hc : c ≤ 5) (hds : Sent f c ds bad)
    (hbody : f.Body body) (h : stuffLazy c ds = body) : f.Fresh c ∧ f.Clean 0 := by
  have hfresh := fresh_of_framed hc hds hbody h
  refine ⟨hfresh, hfresh.clean_iff.mp ?_⟩
  obtain ⟨zs, rfl, -⟩ := hbody.exists_append
  rw [← hfresh.stuffLazy_eq] at h
  obtain ⟨ys, rfl, -⟩ := exists_append_of_stuffLazy h
  have hlen := hds.length
  rw [List.length_append, f.length_bits] at hlen
  exact (hds.bits (by omega)).2

end TxFrame

/-! ### From every reachable state -/

/-- What holds of the transmitter at any time after a reset. -/
structure TxInv (s : EconetTxBuffered) : Prop where
  onecount : s.transmitter.onecount.toNat ≤ 5
  startFrame : s.startFrame = true → s.state = .tx
  txFcs : s.state = .idle → s.txFcs = Fcs.fcsInit

namespace TxInv

variable {s : EconetTxBuffered}

theorem onecount_step {p : TxPhy} (h : p.onecount.toNat ≤ 5) (b : BitVec 8) (start fin : Bool) :
    (p.step b start fin).onecount.toNat ≤ 5 := by
  cases hs : p.state with
  | idle => simpa [TxPhy.step, hs, TxPhy.stepIdle] using h
  | startSync => simpa [TxPhy.step, hs, TxPhy.stepFlag] using h
  | endSync => simpa [TxPhy.step, hs, TxPhy.stepFlag] using h
  | transmit =>
    by_cases h5 : p.onecount = 5#3
    · rw [TxPhy.step_stuffed b start fin hs h5]; exact Nat.zero_le _
    · rw [TxPhy.step_bit b start fin hs h5]
      have hne : p.onecount.toNat ≠ 5 := fun h => h5 (BitVec.eq_of_toNat_eq h)
      dsimp only
      split
      · rw [BitVec.toNat_add]
        exact le_trans (Nat.mod_le _ _) (by simpa using by omega)
      · decide

theorem period (h : TxInv s) (r : Bool) : TxInv (s.period r) := by
  refine ⟨onecount_step h.onecount s.txByte s.startFrame s.endFrame, ?_, ?_⟩
  · have hs : (s.period r).startFrame = (s.stepState r).startFrame := rfl
    have hst : (s.period r).state = (s.stepState r).state := rfl
    rw [hs, hst, EconetTxBuffered.stepState]
    have := h.startFrame
    split <;> simp_all
  · intro hidle
    rw [period_txFcs_eq, hidle]
    rfl

theorem reset (s : EconetTxBuffered) : TxInv s.reset :=
  ⟨Nat.zero_le _, fun h => Bool.noConfusion h, fun _ => rfl⟩

theorem step (h : TxInv s) (i : Input) : TxInv (s.step i) := by
  cases i with
  | period r => exact h.period r
  | reset => exact TxInv.reset s
  | _ => exact ⟨h.onecount, h.startFrame, h.txFcs⟩

theorem of_reachable (h : s.Reachable) : TxInv s := by
  obtain ⟨s₀, is, rfl⟩ := h
  exact Machine.run_invariant_of_step (fun _ i h => h.step i) is (TxInv.reset s₀)

end TxInv

/-- The frame that a request hands over. -/
def EconetTxBuffered.frame (s : EconetTxBuffered) : TxFrame :=
  ⟨s.econetBuf, s.bufferStart, s.bufferEnd⟩

/-- Exactly the frame goes out on the line, and the transmitter is idle again. -/
def EconetTxBuffered.Sends (s : EconetTxBuffered) (receiving : ℕ → Bool) (f : TxFrame) : Prop :=
  ∃ t body, f.Body body ∧ (s.after receiving t).Idle ∧ s.driven receiving t = flag ++ body ++ flag

theorem TxInv.sends_iff {s : EconetTxBuffered} (h : TxInv s) (hidle : s.Idle)
    (hreq : s.txRequested = true) {r : ℕ → Bool}
    (hready : ∃ t, (s.after r t).lineReady (r t) = true) :
    s.Sends r s.frame ↔
      s.frame.Fresh s.transmitter.onecount.toNat ∧ s.frame.Clean 0 := by
  have hc := h.onecount
  have hstart : s.startFrame = false := by
    cases hs : s.startFrame with
    | false => rfl
    | true => exact absurd (hidle.state.symm.trans (h.startFrame hs)) (by decide)
  have hwait : Waiting s.frame s.transmitter.onecount.toNat s :=
    ⟨⟨rfl, rfl, rfl⟩, hstart, hidle.transmitter, (by simp), h.txFcs hidle.state,
      Or.inl ⟨hidle.state, hreq⟩⟩
  constructor
  · -- when the transmitter is idle again, nothing or a whole frame has been sent
    rintro ⟨t, body, hbody, hidle', hdriven⟩
    obtain ⟨rank, hp⟩ := phase_after r hc hwait t
    rcases hp.of_idle hidle' with hnil | ⟨ds, bad, hbits, hds⟩
    · rw [hnil] at hdriven
      exact absurd hdriven (by simp [flag])
    · rw [hdriven, List.append_left_inj, List.append_right_inj] at hbits
      exact TxFrame.clean_of_framed hc hds hbody hbits.symm
  · rintro ⟨hfresh, hclean⟩
    obtain ⟨t, hidle', hdriven⟩ := sends_of_clean r hc hwait (hfresh.clean_iff.mpr hclean) hready
    exact ⟨t, _, Or.inr rfl, hidle', by rw [hdriven, hfresh.stuffLazy_eq]⟩

/-- **Framing.** From every idle state that a reset and any inputs after it (complete frames
included) lead to, a request for any contents of the buffer puts, once the line is ready, exactly
the flag, the stuffed bits of the data and its check sequence, and the flag on the line, if and only
if

* `onecount`, which is not cleared between two frames, was left at 0, or at a value that the leading
  1s of the frame do not take to 5, and
* no 0 is stuffed before the last bit of a byte (the last byte apart): `request_byte` is high on two
  clocks there, and a byte is lost. -/
theorem transmission_framed_iff (s : EconetTxBuffered) (hreach : s.Reachable) (hidle : s.Idle)
    (hreq : s.txRequested = true) (receiving : ℕ → Bool)
    (hready : ∃ t, (s.after receiving t).lineReady (receiving t) = true) :
    s.Sends receiving s.frame ↔
      s.frame.Fresh s.transmitter.onecount.toNat ∧ s.frame.Clean 0 :=
  (TxInv.of_reachable hreach).sends_iff hidle hreq hready

/-- The transmitter after a reset and the stores of a reply of four bytes. -/
def replyRequest (word : BitVec 32) : EconetTxBuffered :=
  Machine.run EconetTxBuffered.step
    (EconetTxBuffered.reset ⟨fun _ => 0#32, 0#32, 0#4, false, 0#11, 0#11, 0#11, .idle, false, false,
      false, ⟨.idle, 0#8, 0#3, 0#3, true, false⟩, 0#16⟩)
    [.writeBuf 0#10 15#4 word, .writeStart 0#32, .writeControl 1#32, .writeEnd 3#32]

/-- The acknowledgement of station 1 to station `0x42` is sent as it should be. -/
theorem reply_0x42_framed :
    (replyRequest 0x00010042#32).Sends (fun _ => false) (replyRequest 0x00010042#32).frame :=
  (transmission_framed_iff (replyRequest 0x00010042#32) ⟨_, _, rfl⟩ ⟨rfl, rfl, rfl⟩ rfl
    (fun _ => false) ⟨0, by decide +kernel⟩).mpr ⟨Or.inl rfl, by
      unfold TxFrame.Clean; decide +kernel⟩

/-- The acknowledgement to station `0x7C` is not: a 0 is stuffed after five 1s, before the last bit
of its first byte. -/
theorem reply_0x7C_not_framed :
    (replyRequest 0x0001007C#32).Reachable ∧ (replyRequest 0x0001007C#32).Idle ∧
      (replyRequest 0x0001007C#32).txRequested = true ∧
      (replyRequest 0x0001007C#32).lineReady false = true ∧
      ¬(replyRequest 0x0001007C#32).Sends (fun _ => false) (replyRequest 0x0001007C#32).frame := by
  have hreach : (replyRequest 0x0001007C#32).Reachable := ⟨_, _, rfl⟩
  have hidle : (replyRequest 0x0001007C#32).Idle := ⟨rfl, rfl, rfl⟩
  refine ⟨hreach, hidle, rfl, by decide +kernel, ?_⟩
  rw [(TxInv.of_reachable hreach).sends_iff hidle rfl ⟨0, by decide +kernel⟩]
  rintro ⟨-, hclean⟩
  exact hclean 0 (by omega) (by decide +kernel)

end Filestick
