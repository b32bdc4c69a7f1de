import Filestick.Lib.Ring
import Filestick.System.Equiv.EconetFrames
import Filestick.Rtl.Equiv.EconetTx
import Mathlib.Tactic.IntervalCases

/-!
# The frames of a write

`econet_write` lays its scout frame out at the start of the transmit buffer, and its data frame from
offset 8 on.  The buffer has 2048 bytes and a payload up to 2040: the data frame of the longest ones
ends behind the buffer, and their last bytes are stored at its start.

* `bufByte_writeChunk`, `masked_copyTx`: `memcpy` to the transmit buffer stores byte after byte.
* `isrTrap_selects`: the data frame is what the handler hands to the transmitter.
* `sendScout_laid_iff`: for which payloads both frames are as they should be.
-/

namespace Filestick.RawEconet

open Driver EconetTxBuffered

/-! ### Stores to the transmit buffer -/

theorem byteLane_lanes (l : BitVec 2 → BitVec 8) (i : BitVec 2) :
    byteLane (l 3 ++ l 2 ++ l 1 ++ l 0) i = l i := by
  have hi : i = 0#2 ∨ i = 1#2 ∨ i = 2#2 ∨ i = 3#2 := by
    revert i
    decide
  apply BitVec.eq_of_getLsbD_eq
  intro j hj
  rw [byteLane, BitVec.getLsbD_extractLsb', BitVec.getLsbD_append, BitVec.getLsbD_append,
    BitVec.getLsbD_append, decide_eq_true hj, Bool.true_and]
  rcases hi with rfl | rfl | rfl | rfl
  · show (if 0 + j < 8 then _ else _) = _
    rw [if_pos (by omega)]
    exact congrArg (l 0).getLsbD (show 0 + j = j by omega)
  · show (if 8 + j < 8 then _ else if 8 + j - 8 < 8 then _ else _) = _
    rw [if_neg (by omega), if_pos (by omega)]
    exact congrArg (l 1).getLsbD (show 8 + j - 8 = j by omega)
  · show (if 16 + j < 8 then _ else if 16 + j - 8 < 8 then _ else if 16 + j - 8 - 8 < 8 then _
      else _) = _
    rw [if_neg (by omega), if_neg (by omega), if_pos (by omega)]
    exact congrArg (l 2).getLsbD (show 16 + j - 8 - 8 = j by omega)
  · show (if 24 + j < 8 then _ else if 24 + j - 8 < 8 then _ else if 24 + j - 8 - 8 < 8 then _
      else _) = _
    rw [if_neg (by omega), if_neg (by omega), if_neg (by omega)]
    exact congrArg (l 3).getLsbD (show 24 + j - 8 - 8 - 8 = j by omega)

/-- The bytes of the buffer after a store. -/
theorem bufByte_writeBuf (s : EconetTxBuffered) (wa : BitVec 10) (we : BitVec 4)
    (wdata : BitVec 32) (a : BitVec 11) :
    bufByte (s.writeBuf wa we wdata).econetBuf a =
      if a.extractLsb' 2 9 = wa.setWidth 9 ∧ we.getLsbD (a.extractLsb' 0 2).toNat = true
      then byteLane wdata (a.extractLsb' 0 2) else bufByte s.econetBuf a := by
  by_cases hw : a.extractLsb' 2 9 = wa.setWidth 9
  · show byteLane (Function.update s.econetBuf (wa.setWidth 9) _ (a.extractLsb' 2 9)) _ = _
    rw [← hw, Function.update_self, byteLane_lanes fun i : BitVec 2 =>
      if we.getLsbD i.toNat then byteLane wdata i else byteLane (s.econetBuf (a.extractLsb' 2 9)) i]
    simp only [true_and]
    rfl
  · rw [if_neg fun h => hw h.1]
    show byteLane (Function.update s.econetBuf (wa.setWidth 9) _ (a.extractLsb' 2 9)) _ = _
    rw [Function.update_of_ne hw]
    rfl

/-- The bytes of the word that `memcpy` makes of them. -/
theorem extractLsb'_foldr (bytes : List (BitVec 8)) {k : ℕ} (hk : k < 4) :
    (bytes.foldr (fun b (acc : BitVec 32) => acc <<< 8 ||| b.setWidth 32) 0#32).extractLsb'
      (8 * k) 8 = bytes.getD k 0#8 := by
  induction bytes generalizing k with
  | nil => simp
  | cons b bytes ih =>
    rw [List.foldr_cons]
    apply BitVec.eq_of_getLsbD_eq
    intro j hj
    rw [BitVec.getLsbD_extractLsb', BitVec.getLsbD_or, BitVec.getLsbD_shiftLeft,
      BitVec.getLsbD_setWidth, decide_eq_true hj, Bool.true_and]
    cases k with
    | zero =>
      rw [show 8 * 0 + j = j by omega, decide_eq_true (show j < 32 by omega), decide_eq_true hj]
      simp
    | succ k =>
      have hb : b.getLsbD (8 * (k + 1) + j) = false := BitVec.getLsbD_of_ge b _ (by omega)
      have := congrArg (BitVec.getLsbD · j) (ih (k := k) (by omega))
      simp only [BitVec.getLsbD_extractLsb', decide_eq_true hj, Bool.true_and] at this
      rw [hb, show 8 * (k + 1) + j - 8 = 8 * k + j by omega, this,
        decide_eq_true (show 8 * (k + 1) + j < 32 by omega),
        decide_eq_false (show ¬8 * (k + 1) + j < 8 by omega)]
      simp

/-- A word that is shifted to a lane. -/
theorem byteLane_shiftLeft (word : BitVec 32) {i : BitVec 2} {l : ℕ} (hl : l ≤ i.toNat) :
    byteLane (word <<< (8 * l)) i = word.extractLsb' (8 * (i.toNat - l)) 8 := by
  have hi := i.isLt
  apply BitVec.eq_of_getLsbD_eq
  intro j hj
  rw [byteLane, BitVec.getLsbD_extractLsb', BitVec.getLsbD_shiftLeft, BitVec.getLsbD_extractLsb',
    decide_eq_true (show 8 * i.toNat + j < 32 by omega),
    decide_eq_false (show ¬8 * i.toNat + j < 8 * l by omega),
    show 8 * i.toNat + j - 8 * l = 8 * (i.toNat - l) + j by omega]
  simp

/-- **An access of `memcpy`** stores its bytes one after the other. -/
theorem bufByte_writeChunk (s : EconetTxBuffered) {offset : ℕ} {bytes : List (BitVec 8)}
    (h : offset % 4 + bytes.length ≤ 4) :
    bufByte (writeChunk offset bytes s).econetBuf =
      Ring.writeAll (bufByte s.econetBuf) (BitVec.ofNat 11 offset) bytes := by
  funext a
  have ha := a.isLt
  have hlane : (a.extractLsb' 0 2).toNat = a.toNat % 4 := by simp [BitVec.extractLsb'_toNat]
  -- the offset of the cell from the first that is stored
  have hsub : (a - BitVec.ofNat 11 offset).toNat = (2048 - offset % 2048 + a.toNat) % 2048 := by
    rw [BitVec.toNat_sub, BitVec.toNat_ofNat]
  have hword : a.extractLsb' 2 9 = (BitVec.ofNat 10 (offset / 4)).setWidth 9 ↔
      a.toNat / 4 = offset / 4 % 512 := by
    rw [← BitVec.toNat_inj]
    simp only [BitVec.extractLsb'_toNat, BitVec.toNat_setWidth, BitVec.toNat_ofNat,
      Nat.shiftRight_eq_div_pow]
    omega
  have hmask : (BitVec.ofNat 4 ((2 ^ bytes.length - 1) * 2 ^ (offset % 4))).getLsbD
      (a.extractLsb' 0 2).toNat = true ↔
      offset % 4 ≤ a.toNat % 4 ∧ a.toNat % 4 < offset % 4 + bytes.length := by
    rw [hlane, BitVec.getLsbD_ofNat, Nat.testBit_mul_two_pow, Nat.testBit_two_pow_sub_one]
    simp only [Bool.and_eq_true, decide_eq_true_eq]
    omega
  rw [writeChunk, bufByte_writeBuf, Ring.writeAll_apply _ _ _ (by omega), hsub]
  by_cases hin : a.toNat / 4 = offset / 4 % 512 ∧ offset % 4 ≤ a.toNat % 4 ∧
      a.toNat % 4 < offset % 4 + bytes.length
  · obtain ⟨hw, hlo, hhi⟩ := hin
    have hk : (2048 - offset % 2048 + a.toNat) % 2048 = a.toNat % 4 - offset % 4 := by omega
    rw [if_pos ⟨hword.mpr hw, hmask.mpr ⟨hlo, hhi⟩⟩, byteLane_shiftLeft _ (by omega),
      extractLsb'_foldr _ (by omega), hlane, hk, List.getD_eq_getElem?_getD,
      List.getElem?_eq_getElem (by omega)]
    rfl
  · rw [if_neg fun hno => hin ⟨hword.mp hno.1, hmask.mp hno.2⟩, List.getElem?_eq_none (by omega)]
    rfl

/-- The four bytes of a word, the low one first. -/
def wordBytes (word : BitVec 32) : List (BitVec 8) :=
  [byteLane word 0, byteLane word 1, byteLane word 2, byteLane word 3]

theorem foldr_wordBytes (word : BitVec 32) :
    (wordBytes word).foldr (fun b (acc : BitVec 32) => acc <<< 8 ||| b.setWidth 32) 0#32 =
      word := by
  apply BitVec.eq_of_getLsbD_eq
  intro i hi
  have hlane : (wordBytes word).getD (i / 8) 0#8 = word.extractLsb' (8 * (i / 8)) 8 := by
    have hk : i / 8 < 4 := by omega
    interval_cases i / 8 <;> rfl
  have hbit := congrArg (BitVec.getLsbD · (i % 8))
    ((extractLsb'_foldr (wordBytes word) (show i / 8 < 4 by omega)).trans hlane)
  simpa only [BitVec.getLsbD_extractLsb', decide_eq_true (show i % 8 < 8 by omega), Bool.true_and,
    show 8 * (i / 8) + i % 8 = i by omega] using hbit

/-- The store of a word. -/
theorem writeBuf_eq_writeChunk (s : EconetTxBuffered) (k : ℕ) (word : BitVec 32) :
    s.writeBuf (BitVec.ofNat 10 k) 0b1111#4 word = writeChunk (4 * k) (wordBytes word) s := by
  rw [writeChunk, foldr_wordBytes, Nat.mul_div_cancel_left _ (by decide), Nat.mul_mod_right]
  simp [wordBytes]

/-! ### The frames -/

/-- The four bytes that a frame starts with: destination station and net, own station and net. -/
def addressBytes (dest : EconetAddr) (address : BitVec 16) : List (BitVec 8) :=
  [dest.station, dest.net, address.extractLsb' 0 8, address.extractLsb' 8 8]

/-- The bytes of a scout frame. -/
def scoutFrame (dest : EconetAddr) (address : BitVec 16) : List (BitVec 8) :=
  addressBytes dest address ++ [0x80#8, dest.port]

/-- The frame between `econet_tx_start` and `econet_tx_end`, which are stored to registers of eleven
bits. -/
def Driver.dataFrame (d : Driver) : TxFrame :=
  ⟨d.tx.econetBuf, d.vars.txStart.setWidth 11, d.vars.txEnd.setWidth 11⟩

theorem wordBytes_address (dest : EconetAddr) (address : BitVec 16) :
    wordBytes (address ++ dest.net ++ dest.station) = addressBytes dest address := by
  have hbit (i : BitVec 2) (n : ℕ) (hn : 8 * i.toNat = n) {j : ℕ} (hj : j < 8) :
      (byteLane (address ++ dest.net ++ dest.station) i).getLsbD j =
        if n + j < 8 then dest.station.getLsbD (n + j)
        else if n + j - 8 < 8 then dest.net.getLsbD (n + j - 8)
        else address.getLsbD (n + j - 8 - 8) := by
    rw [byteLane, hn, BitVec.getLsbD_extractLsb', BitVec.getLsbD_append, BitVec.getLsbD_append,
      decide_eq_true hj, Bool.true_and]
  have h0 : byteLane (address ++ dest.net ++ dest.station) 0 = dest.station := by
    apply BitVec.eq_of_getLsbD_eq
    intro j hj
    rw [hbit 0 0 rfl hj, if_pos (show 0 + j < 8 by omega)]
    exact congrArg _ (show 0 + j = j by omega)
  have h1 : byteLane (address ++ dest.net ++ dest.station) 1 = dest.net := by
    apply BitVec.eq_of_getLsbD_eq
    intro j hj
    rw [hbit 1 8 rfl hj, if_neg (show ¬8 + j < 8 by omega), if_pos (show 8 + j - 8 < 8 by omega)]
    exact congrArg _ (show 8 + j - 8 = j by omega)
  have h2 : byteLane (address ++ dest.net ++ dest.station) 2 = address.extractLsb' 0 8 := by
    apply BitVec.eq_of_getLsbD_eq
    intro j hj
    rw [hbit 2 16 rfl hj, if_neg (show ¬16 + j < 8 by omega),
      if_neg (show ¬16 + j - 8 < 8 by omega),
      BitVec.getLsbD_extractLsb', decide_eq_true hj, Bool.true_and]
    exact congrArg _ (show 16 + j - 8 - 8 = 0 + j by omega)
  have h3 : byteLane (address ++ dest.net ++ dest.station) 3 = address.extractLsb' 8 8 := by
    apply BitVec.eq_of_getLsbD_eq
    intro j hj
    rw [hbit 3 24 rfl hj, if_neg (show ¬24 + j < 8 by omega),
      if_neg (show ¬24 + j - 8 < 8 by omega),
      BitVec.getLsbD_extractLsb', decide_eq_true hj, Bool.true_and]
    exact congrArg _ (show 24 + j - 8 - 8 = 8 + j by omega)
  rw [wordBytes, h0, h1, h2, h3, addressBytes]

/-! ### What the others do between two accesses -/

/-- What `econet_write` relies on: nobody changes the address, and with interrupts disabled nobody
touches the transmit buffer, the registers that select a frame or the two offsets. -/
structure WriteRely (d d' : Driver) : Prop where
  mstatus : d'.vars.mstatus = d.vars.mstatus
  address : d'.vars.econetAddress = d.vars.econetAddress
  frame : d.vars.mstatus = false → d'.tx.frame = d.tx.frame
  dataFrame : d.vars.mstatus = false → d'.dataFrame = d.dataFrame

/-- The contract of `econet_write`. -/
def writer : Contract Driver where
  inv _ := True
  rely := WriteRely
  refl _ := ⟨rfl, rfl, fun _ => rfl, fun _ => rfl⟩
  trans h h' := ⟨h'.mstatus.trans h.mstatus, h'.address.trans h.address,
    fun hm => (h'.frame (h.mstatus.trans hm)).trans (h.frame hm),
    fun hm => (h'.dataFrame (h.mstatus.trans hm)).trans (h.dataFrame hm)⟩

/-- The hardware keeps to it, and does not select another frame. -/
theorem hw_frame (d : Driver) (i : Hw) :
    (d.hw i).tx.frame = d.tx.frame ∧ (d.hw i).vars = d.vars := by
  refine ⟨?_, (hw_vars d i).1⟩
  obtain ⟨c, hc⟩ := hw_eq d i
  rw [hc]
  cases i with
  | fall =>
    show TxFrame.mk (d.tx.stepState d.receiving).econetBuf (d.tx.stepState d.receiving).bufferStart
      (d.tx.stepState d.receiving).bufferEnd = d.tx.frame
    unfold EconetTxBuffered.stepState
    split <;> rfl
  | line level => rfl
  | rise => rfl
  | tick => rfl

theorem hw_writeRely (d : Driver) (i : Hw) : WriteRely d (d.hw i) := by
  obtain ⟨hframe, hvars⟩ := hw_frame d i
  refine ⟨congrArg Vars.mstatus hvars, congrArg Vars.econetAddress hvars, fun _ => hframe, ?_⟩
  intro _
  rw [dataFrame, dataFrame, hvars, show (d.hw i).tx.econetBuf = d.tx.econetBuf from
    congrArg TxFrame.buf hframe]

/-- The handler, which only starts with interrupts enabled, keeps to it. -/
theorem isr_writeRely {d d' : Driver} (hm : d.vars.mstatus = true)
    (h : besideHandler d' = besideHandler d) : WriteRely d d' := by
  have hsame := congrArg Prod.fst h
  have hno : d.vars.mstatus ≠ false := by
    rw [hm]
    decide
  exact ⟨congrArg Prod.fst hsame, congrArg Prod.snd hsame, fun h => absurd h hno,
    fun h => absurd h hno⟩

/-! ### Laying out -/

section Layout

variable {α : Type} {d : Driver} {P N : TxFrame → TxFrame → Prop} {Q : α → Driver → Prop}

/-- Interrupts are disabled, and the two frames satisfy `P`. -/
structure Masked (P : TxFrame → TxFrame → Prop) (d : Driver) : Prop where
  mstatus : d.vars.mstatus = false
  frames : P d.tx.frame d.dataFrame

/-- What is shown of a piece of `econet_write`, for all that the others do in between. -/
abbrev WriteSafe (Q : α → Driver → Prop) (p : Code α) (d : Driver) : Prop :=
  Safe writer (fun _ _ => True) (fun _ _ => True) Q p d

theorem stable_masked : Stable writer (Masked P) := by
  rintro d d' hr - ⟨hm, hf⟩
  refine ⟨hr.mstatus.trans hm, ?_⟩
  rw [hr.frame hm, hr.dataFrame hm]
  exact hf

theorem masked_modify {l : Access} {f : Driver → Driver} {g : Unit → Code α} (hd : Masked P d)
    (hf : ∀ d, (f d).vars.mstatus = d.vars.mstatus ∧
      (P d.tx.frame d.dataFrame → N (f d).tx.frame (f d).dataFrame))
    (h : ∀ d', Masked N d' → WriteSafe Q (g ()) d') : WriteSafe Q (Prog.modify l f >>= g) d := by
  refine safe_modify_stable stable_masked hd (fun d' _ _ hd' => ⟨trivial, trivial, ?_⟩)
    fun d' _ hd' => h d' hd'
  exact ⟨(hf d').1.trans hd'.mstatus, (hf d').2 hd'.frames⟩

/-- The bytes of the buffer are `m`. -/
abbrev Bytes (m : BitVec 11 → BitVec 8) (x _ : TxFrame) : Prop := bufByte x.buf = m

/-- A store of bytes of one word. -/
theorem masked_writeChunk {m : BitVec 11 → BitVec 8} {offset : ℕ} {bytes : List (BitVec 8)}
    (hfit : offset % 4 + bytes.length ≤ 4) {g : Unit → Code α} (hd : Masked (Bytes m) d)
    (h : ∀ d', Masked (Bytes (Ring.writeAll m (BitVec.ofNat 11 offset) bytes)) d' →
      WriteSafe Q (g ()) d') :
    WriteSafe Q (storeTx (writeChunk offset bytes) >>= g) d := by
  refine masked_modify hd (fun d => ⟨rfl, fun hm => ?_⟩) h
  show bufByte (writeChunk offset bytes d.tx).econetBuf = _
  rw [bufByte_writeChunk d.tx hfit]
  exact congrArg (Ring.writeAll · _ _) hm

/-- A store of a word. -/
theorem masked_writeBuf {m : BitVec 11 → BitVec 8} (k : ℕ) (word : BitVec 32) {g : Unit → Code α}
    (hd : Masked (Bytes m) d)
    (h : ∀ d', Masked (Bytes (Ring.writeAll m (BitVec.ofNat 11 (4 * k)) (wordBytes word))) d' →
      WriteSafe Q (g ()) d') :
    WriteSafe Q (storeTx (·.writeBuf (BitVec.ofNat 10 k) 0b1111#4 word) >>= g) d := by
  rw [show (fun tx : EconetTxBuffered => tx.writeBuf (BitVec.ofNat 10 k) 0b1111#4 word) =
    writeChunk (4 * k) (wordBytes word) from funext fun tx => writeBuf_eq_writeChunk tx k word]
  exact masked_writeChunk (by simp [wordBytes]) hd h

/-- The accesses of `memcpy` to `n` bytes from an offset on, each in one word. -/
def ChunksFit : List ℕ → ℕ → ℕ → Prop
  | [], _, n => n = 0
  | c :: cs, offset, n => offset % 4 + c ≤ 4 ∧ c ≤ n ∧ ChunksFit cs (offset + c) (n - c)

theorem chunksFit_bytes (offset n : ℕ) : ChunksFit (List.replicate n 1) offset n := by
  induction n generalizing offset with
  | zero => rfl
  | succ n ih =>
    rw [List.replicate_succ]
    exact ⟨by omega, by omega, ih (offset + 1)⟩

theorem chunksFit_words {cs : List ℕ} {offset n : ℕ} (k : ℕ) (hoff : offset % 4 = 0)
    (h : ∀ o, o % 4 = 0 → ChunksFit cs o n) :
    ChunksFit (List.replicate k 4 ++ cs) offset (k * 4 + n) := by
  induction k generalizing offset with
  | zero => simpa using h offset hoff
  | succ k ih =>
    rw [List.replicate_succ, List.cons_append]
    refine ⟨by omega, by omega, ?_⟩
    rw [show (k + 1) * 4 + n - 4 = k * 4 + n by omega]
    exact ih (by omega)

theorem chunksFit_memcpyChunks (dest src : BitVec 32) (n : ℕ) {offset : ℕ} (hoff : offset % 4 = 0) :
    ChunksFit (memcpyChunks dest src n) offset n := by
  unfold memcpyChunks
  split
  · have h := chunksFit_words (n / 4) hoff (fun o _ => chunksFit_bytes o (n % 4))
    rwa [show n / 4 * 4 + n % 4 = n by omega] at h
  · exact chunksFit_bytes offset n

/-- **`memcpy`** stores the payload one byte after the other. -/
theorem masked_copyTx {m : BitVec 11 → BitVec 8} {cs : List ℕ} {offset : ℕ}
    {bytes : List (BitVec 8)} (hcs : ChunksFit cs offset bytes.length) {g : Unit → Code α}
    (hd : Masked (Bytes m) d)
    (h : ∀ d', Masked (Bytes (Ring.writeAll m (BitVec.ofNat 11 offset) bytes)) d' →
      WriteSafe Q (g ()) d') :
    WriteSafe Q (copyTx cs offset bytes >>= g) d := by
  induction cs generalizing m offset bytes d with
  | nil =>
    obtain rfl : bytes = [] := List.eq_nil_of_length_eq_zero hcs
    exact h d hd
  | cons c cs ih =>
    obtain ⟨hword, hlen, hrest⟩ := hcs
    have htake : (bytes.take c).length = c := List.length_take_of_le hlen
    show WriteSafe Q (storeTx (writeChunk offset (bytes.take c)) >>= fun _ =>
      copyTx cs (offset + c) (bytes.drop c) >>= g) d
    refine masked_writeChunk (by rw [htake]; exact hword) hd fun d' hd' => ?_
    refine ih (by rw [List.length_drop]; exact hrest) hd' ?_
    rw [BitVec.ofNat_add]
    have happend := Ring.writeAll_append m (BitVec.ofNat 11 offset) (bytes.take c) (bytes.drop c)
    rw [List.take_append_drop, htake] at happend
    rwa [← happend]

end Layout

/-! ### The data frame -/

/-- What the handler relies on: the hardware leaves the variables, and selects no other frame. -/
structure FrameRely (d d' : Driver) : Prop where
  vars : d'.vars = d.vars
  frame : d'.tx.frame = d.tx.frame

/-- The contract of the handler. -/
def frameHandler : Contract Driver where
  inv _ := True
  rely := FrameRely
  refl _ := ⟨rfl, rfl⟩
  trans h h' := ⟨h'.vars.trans h.vars, h'.frame.trans h.frame⟩

theorem hw_frameRely (d : Driver) (i : Hw) : FrameRely d (d.hw i) :=
  ⟨(hw_frame d i).2, (hw_frame d i).1⟩

section Handler

variable {α : Type} {d : Driver} {P N : BitVec 32 → TxFrame → TxFrame → Prop}

/-- The state of the handshake, the frame that is selected and the data frame satisfy `P`. -/
def Selected (P : BitVec 32 → TxFrame → TxFrame → Prop) (d : Driver) : Prop :=
  P d.vars.handshakeState d.tx.frame d.dataFrame

/-- What is shown of a piece of the handler. -/
abbrev HandlerSelects (P : BitVec 32 → TxFrame → TxFrame → Prop) (p : Code Unit) (d : Driver) :
    Prop :=
  Safe frameHandler (fun _ _ => True) (fun _ _ => True) (fun _ d' => Selected P d') p d

theorem stable_selected : Stable frameHandler (Selected P) := by
  rintro d d' ⟨hvars, hframe⟩ - h
  have hbuf : d'.tx.econetBuf = d.tx.econetBuf := congrArg TxFrame.buf hframe
  rwa [Selected, dataFrame, hvars, hframe, hbuf]

theorem selected_load {f : Driver → α} {g : α → Code Unit}
    {R : BitVec 32 → TxFrame → TxFrame → Prop} (hd : Selected P d)
    (h : ∀ d', Selected P d' → HandlerSelects R (g (f d')) d') :
    HandlerSelects R (load f >>= g) d :=
  safe_read_stable stable_selected hd (fun _ _ _ => trivial) fun d' _ _ hd' => h d' hd'

theorem selected_modify {l : Access} {f : Driver → Driver} {g : Unit → Code Unit}
    {R : BitVec 32 → TxFrame → TxFrame → Prop} (hd : Selected P d)
    (hf : ∀ d, Selected P d → Selected N (f d))
    (h : ∀ d', Selected N d' → HandlerSelects R (g ()) d') :
    HandlerSelects R (Prog.modify l f >>= g) d :=
  safe_modify_stable stable_selected hd (fun d' _ _ hd' => ⟨trivial, trivial, hf d' hd'⟩)
    fun d' _ hd' => h d' hd'

theorem selected_ret (hd : Selected P d) : HandlerSelects P (pure ()) d :=
  safe_ret_stable stable_selected hd fun _ _ h => h

theorem selected_last {l : Access} {f : Driver → Driver} (hd : Selected P d)
    (hf : ∀ d, Selected P d → Selected N (f d)) : HandlerSelects N (Prog.modify l f) d :=
  selected_modify (g := pure) hd hf fun _ hd' => selected_ret hd'

/-- What the handler does in the state `STATE_TXSCOUT` to the frames: it keeps the data frame, and
when it goes on to `STATE_TXDATA` it has handed it to the transmitter. -/
def HandsOver (D : TxFrame) (s : BitVec 32) (x y : TxFrame) : Prop :=
  y = D ∧ (s = 3#32 → x = D)

/-- Code that touches neither the transmitter nor the offsets, and does not go on. -/
theorem selected_leaves {D : TxFrame} {p : Code Unit}
    (hp : Leaves (fun d => (d.tx, d.vars.txStart, d.vars.txEnd, d.vars.handshakeState)) p)
    (hd : Selected (fun s _ y => y = D ∧ s ≠ 3#32) d) : HandlerSelects (HandsOver D) p d := by
  have hsame : ∀ {f : Driver → Driver} {d : Driver},
      Preserves (fun d => (d.tx, d.vars.txStart, d.vars.txEnd, d.vars.handshakeState)) f →
      Selected (fun s _ y => y = D ∧ s ≠ 3#32) d →
      Selected (fun s _ y => y = D ∧ s ≠ 3#32) (f d) := by
    intro f d hf h
    obtain ⟨h1, h2⟩ := Prod.mk.inj (hf d)
    obtain ⟨h3, h4⟩ := Prod.mk.inj h2
    obtain ⟨h5, h6⟩ := Prod.mk.inj h4
    rw [Selected, dataFrame, h1, h3, h5, h6]
    exact h
  refine (safe_of_acts stable_selected
    (hp.mono fun _ f hf d' _ _ hd' => ⟨trivial, trivial, hsame hf hd'⟩) hd).mono ?_
  rintro - d' - ⟨h1, h2⟩
  exact ⟨h1, fun h3 => absurd h3 h2⟩

theorem txError_selects {D : TxFrame} (hd : Selected (fun s _ y => y = D ∧ s ≠ 3#32) d) :
    HandlerSelects (HandsOver D) txError d := by
  refine selected_modify (N := HandsOver D) hd (fun d h => ⟨h.1, fun h3 => ?_⟩) fun d hd => ?_
  · exact absurd h3 (show ¬(0#32 : BitVec 32) = 3#32 by decide)
  · exact selected_last hd fun _ h => h

/-- **`.rx_scout_ack`** hands the data frame to the transmitter. -/
theorem rxScoutAck_selects {D : TxFrame} (hd : Selected (fun s _ y => y = D ∧ s ≠ 3#32) d) :
    HandlerSelects (HandsOver D) rxScoutAck d := by
  refine selected_load hd fun d hd => ?_
  split
  · refine selected_modify (N := fun s _ y => y = D ∧ s ≠ 3#32) hd (fun _ h => h) fun d hd => ?_
    refine selected_modify (N := fun _ _ y => y = D) hd (fun _ h => h.1) fun d hd => ?_
    refine selected_load hd fun d₁ hd₁ => ?_
    have hstart : d₁.vars.txStart.setWidth 11 = D.first := congrArg TxFrame.first hd₁
    refine selected_modify (N := fun _ x y => y = D ∧ x.first = D.first) hd₁
      (fun _ h => ⟨h, hstart⟩) fun d hd => ?_
    refine selected_load hd fun d₂ hd₂ => ?_
    have hend : d₂.vars.txEnd.setWidth 11 = D.last := congrArg TxFrame.last hd₂.1
    refine selected_modify (N := fun _ x y => y = D ∧ x = D) hd₂ (fun d h => ⟨h.1, ?_⟩)
      fun d hd => ?_
    · have hbuf : d.tx.econetBuf = D.buf := congrArg TxFrame.buf h.1
      have hfirst : d.tx.bufferStart = D.first := h.2
      show TxFrame.mk d.tx.econetBuf d.tx.bufferStart (d₂.vars.txEnd.setWidth 11) = D
      rw [hbuf, hfirst, hend]
    refine selected_modify (N := HandsOver D) hd (fun _ h => ⟨h.1, fun _ => h.2⟩) fun d hd => ?_
    exact selected_last hd fun _ h => h
  · exact txError_selects hd

/-- **From the request of the scout frame on** the handler keeps the data frame, and hands it to the
transmitter when it goes on to `STATE_TXDATA`. -/
theorem isrTrap_selects (hstate : d.vars.handshakeState = 2#32) :
    HandlerSelects (HandsOver d.dataFrame) isrTrap d := by
  generalize hD : d.dataFrame = D
  have hd : Selected (fun s _ y => y = D ∧ s = 2#32) d := ⟨hD, hstate⟩
  have hweak : ∀ {d : Driver}, Selected (fun s _ y => y = D ∧ s = 2#32) d →
      Selected (fun s _ y => y = D ∧ s ≠ 3#32) d := by
    rintro d ⟨h1, h2⟩
    refine ⟨h1, ?_⟩
    rw [h2]
    decide
  refine selected_load hd fun d hd => ?_
  split
  · refine selected_modify (N := fun s _ y => y = D ∧ s = 2#32) hd (fun _ h => h) fun d hd => ?_
    refine selected_modify (N := fun s _ y => y = D ∧ s = 2#32) hd (fun _ h => h) fun d hd => ?_
    refine selected_load hd fun d hd => ?_
    split
    · refine selected_leaves ?_ (hweak hd)
      refine Prog.acts_bind (leaves_read _ _) fun frames =>
        Prog.acts_bind (leaves_modify fun _ => rfl) fun _ => ?_
      refine Prog.acts_bind (leaves_load _) fun start =>
        Prog.acts_bind (leaves_modify fun _ => rfl) fun _ => ?_
      exact Prog.acts_bind (leaves_load _) fun len => leaves_modify fun _ => rfl
    refine selected_load hd fun d hd => ?_
    have h2 : d.vars.handshakeState = 2#32 := hd.2
    rw [h2, if_neg (by decide), if_neg (by decide), if_pos rfl]
    exact rxScoutAck_selects (hweak hd)
  refine selected_load hd fun d hd => ?_
  split
  · refine selected_modify (N := fun s _ y => y = D ∧ s = 2#32) hd (fun _ h => h) fun d hd => ?_
    refine selected_load hd fun d hd => ?_
    refine selected_modify (N := fun s _ y => y = D ∧ s = 2#32) hd (fun _ h => h) fun d hd => ?_
    refine selected_last hd fun d h => ⟨h.1, fun h3 => ?_⟩
    exact absurd h3 (show ¬(0#32 : BitVec 32) = 3#32 by decide)
  · exact (selected_ret (hweak hd)).mono fun _ _ _ h => ⟨h.1, fun h3 => absurd h3 h.2⟩

end Handler

/-! ### The frames of a write -/

/-- `econet_write` from `DISABLE_INTERRUPTS` to the store that requests the scout frame. -/
def sendScout (dest : EconetAddr) (ptr : BitVec 32) (bytes : List (BitVec 8)) : Code Unit := do
  setUpFrames dest ptr bytes
  Prog.modify .txStore fun d =>
    { d with tx := d.tx.writeEnd 5#32, deliv := { d.deliv with writing := false } }

/-- What `econet_write` does, in these terms. -/
theorem econetWrite_eq (fd : Fd) (ptr : BitVec 32) (bytes : List (BitVec 8)) :
    econetWrite fd ptr bytes =
      if 2040 < bytes.length then pure (.error .emsgsize)
      else (do
        store ({ · with txStatus := 0#32 })
        store ({ · with timeoutState := 0#32 })
        storeTxStatus 0#32
        let dest ← load (·.vars.fdTxDestmap fd)
        if dest.station = 0#8 then return .error .edestaddrreq
        else
          Prog.wait [(.lineStatus, fun d => d.receiving || d.frameValid)]
            (.lineIdle, fun d => 0#32 < d.vars.handshakeState) Driver.beginWrite
          sendScout dest ptr bytes
          awaitHandshake (BitVec.ofNat 32 bytes.length)) := by
  simp only [econetWrite, sendScout, Prog.bind_assoc]

/-- The transmitter is handed the scout frame, and the data frame is the address and the payload. -/
structure FramesLaid (dest : EconetAddr) (address : BitVec 16) (bytes : List (BitVec 8))
    (d : Driver) : Prop where
  scout : d.tx.frame.data = scoutFrame dest address
  data : d.dataFrame.data = addressBytes dest address ++ bytes

/-- The transmit buffer once both frames are laid out in it. -/
def laidOut (m : BitVec 11 → BitVec 8) (dest : EconetAddr) (address : BitVec 16)
    (bytes : List (BitVec 8)) : BitVec 11 → BitVec 8 :=
  let m := Ring.writeAll m 0#11 (addressBytes dest address)
  let m := Ring.writeAll m 4#11 [0x80#8]
  let m := Ring.writeAll m 5#11 [dest.port]
  let m := Ring.writeAll m 8#11 (addressBytes dest address)
  Ring.writeAll m 12#11 bytes

/-- What `econet_write` has set up when it requests the scout frame. -/
structure SetUp (m : BitVec 11 → BitVec 8) (n : ℕ) (x y : TxFrame) : Prop where
  buf : bufByte x.buf = m
  same : y.buf = x.buf
  scoutFirst : x.first = 0#11
  scoutLast : x.last = 5#11
  first : y.first = 8#11
  last : y.last = BitVec.ofNat 11 (11 + n)

/-- The part of it that is set up before the registers of the scout frame. -/
structure OffsetsSet (m : BitVec 11 → BitVec 8) (n : ℕ) (x y : TxFrame) : Prop where
  buf : bufByte x.buf = m
  same : y.buf = x.buf
  first : y.first = 8#11
  last : y.last = BitVec.ofNat 11 (11 + n)

theorem setWidth_txEnd (n : ℕ) :
    (11#32 + BitVec.ofNat 32 n).setWidth 11 = BitVec.ofNat 11 (11 + n) := by
  apply BitVec.eq_of_toNat_eq
  simp only [BitVec.toNat_setWidth, BitVec.toNat_add, BitVec.toNat_ofNat]
  omega

theorem sendScout_safe (d : Driver) (dest : EconetAddr) (ptr : BitVec 32)
    (bytes : List (BitVec 8)) :
    WriteSafe (fun _ d' => ∃ m, Masked (SetUp (laidOut m dest d.vars.econetAddress bytes)
      bytes.length) d') (sendScout dest ptr bytes) d := by
  refine safe_bind ?_
  refine safe_modify fun d₁ hr₁ _ _ => ⟨trivial, trivial, ?_⟩
  refine safe_read fun d₂ hr₂ _ _ => ⟨trivial, ?_⟩
  have haddr : d₂.vars.econetAddress = d.vars.econetAddress := hr₂.address.trans hr₁.address
  rw [haddr]
  generalize d.vars.econetAddress = address
  have hword := wordBytes_address dest address
  generalize hm : bufByte d₂.tx.econetBuf = m
  have hd : Masked (Bytes m) d₂ := ⟨hr₂.mstatus, hm⟩
  refine masked_writeBuf 0 _ hd fun d hd => ?_
  refine masked_writeChunk (show 4 % 4 + 1 ≤ 4 by decide) hd fun d hd => ?_
  refine masked_writeChunk (show 5 % 4 + 1 ≤ 4 by decide) hd fun d hd => ?_
  refine masked_writeBuf 2 _ hd fun d hd => ?_
  rw [hword] at hd
  refine masked_copyTx (chunksFit_memcpyChunks _ ptr _ (by decide)) hd fun d hd => ?_
  have hd : Masked (Bytes (laidOut m dest address bytes)) d := hd
  generalize hm' : laidOut m dest address bytes = m' at hd ⊢
  -- the offsets of the data frame, and then the registers of the scout frame
  refine masked_modify (N := fun x y => bufByte x.buf = m' ∧ y.buf = x.buf ∧ y.first = 8#11) hd
    (fun d => ⟨rfl, fun h => ⟨h, rfl, rfl⟩⟩) fun d hd => ?_
  refine masked_modify (N := OffsetsSet m' bytes.length) hd
    (fun d => ⟨rfl, fun ⟨h1, h2, h3⟩ => ⟨h1, h2, h3, setWidth_txEnd bytes.length⟩⟩) fun d hd => ?_
  refine masked_modify (N := OffsetsSet m' bytes.length) hd (fun _ => ⟨rfl, id⟩) fun d hd => ?_
  refine masked_modify (N := OffsetsSet m' bytes.length) hd (fun _ => ⟨rfl, id⟩) fun d hd => ?_
  refine masked_modify (N := OffsetsSet m' bytes.length) hd (fun _ => ⟨rfl, id⟩) fun d hd => ?_
  show WriteSafe _ (storeTx (·.writeStart 0#32) >>= pure) d
  refine masked_modify (N := fun x y => OffsetsSet m' bytes.length x y ∧ x.first = 0#11) hd
    (fun d => ⟨rfl, fun ⟨h1, h2, h3, h4⟩ => ⟨⟨h1, h2, h3, h4⟩, rfl⟩⟩) fun d hd => ?_
  refine safe_ret_stable stable_masked hd fun d _ hd => ?_
  show WriteSafe _ (Prog.modify _ _ >>= pure) d
  refine masked_modify (N := SetUp m' bytes.length) hd
    (fun d => ⟨rfl, fun ⟨⟨h1, h2, h3, h4⟩, h5⟩ => ⟨h1, h2, h5, rfl, h3, h4⟩⟩) fun d hd => ?_
  exact safe_ret_stable stable_masked hd fun d _ hd => ⟨m, hm' ▸ hd⟩

section Laid

variable (m : BitVec 11 → BitVec 8) (dest : EconetAddr) (address : BitVec 16)
  (bytes : List (BitVec 8))

/-- The data frame is stored last. -/
theorem filled_laidOut : Ring.Filled (laidOut m dest address bytes) 8#11
    (addressBytes dest address ++ bytes) (12#11 + BitVec.ofNat 11 bytes.length) :=
  ((Ring.filled_nil _ 8#11).append (addressBytes dest address)).append bytes

/-- The scout frame stays until the payload has come round to it. -/
theorem tracked_laidOut : Ring.Tracked (laidOut m dest address bytes) 0#11
    (scoutFrame dest address) (12 + bytes.length) (12#11 + BitVec.ofNat 11 bytes.length) := by
  have hscout := (((Ring.filled_nil m 0#11).append (addressBytes dest address)).append
    [0x80#8]).append [dest.port]
  have htracked := (hscout.holds (by simp [addressBytes])).tracked hscout.ptr le_rfl
  -- two bytes of the buffer are left out between the frames
  exact ((htracked.skip 2).append (addressBytes dest address)).append bytes

theorem length_data : (addressBytes dest address ++ bytes).length = 4 + bytes.length := by
  simp [addressBytes]
  omega

variable {bytes}

/-- The data frame is in the buffer. -/
theorem slice_laidOut (hlen : bytes.length ≤ 2040) :
    Ring.slice (laidOut m dest address bytes) 8#11 (4 + bytes.length) =
      addressBytes dest address ++ bytes := by
  have hdata := length_data dest address bytes
  rw [← hdata]
  exact ((filled_laidOut m dest address bytes).holds (by omega)).slice_eq

/-- The payload that is stored at the start of the buffer. -/
theorem laidOut_wrapped (hlen : bytes.length ≤ 2040) {k : ℕ} (hk : 2036 + k < bytes.length) :
    laidOut m dest address bytes (BitVec.ofNat 11 k) = bytes[2036 + k] := by
  have hdata := length_data dest address bytes
  have hcell := (filled_laidOut m dest address bytes).holds (by omega) (2040 + k) (by omega)
  rw [List.getElem_append_right (by simp [addressBytes]; omega)] at hcell
  have hround : 8#11 + BitVec.ofNat 11 (2040 + k) = BitVec.ofNat 11 k := by
    apply BitVec.eq_of_toNat_eq
    simp only [BitVec.toNat_add, BitVec.toNat_ofNat]
    omega
  rw [hround] at hcell
  rw [hcell]
  congr 1
  simp [addressBytes]
  omega

/-- The bytes of the scout frame that the payload has not come round to. -/
theorem laidOut_scout {k : ℕ} (hk : k < (scoutFrame dest address).length)
    (hlen : bytes.length ≤ 2036 + k) :
    laidOut m dest address bytes (BitVec.ofNat 11 k) = (scoutFrame dest address)[k] := by
  have hcell := (tracked_laidOut m dest address bytes).cell k hk (by omega)
  rwa [BitVec.zero_add] at hcell

/-- **The scout frame is in the buffer** exactly when what the payload has from byte 2036 on is how
the scout frame starts. -/
theorem slice_scout_iff (hlen : bytes.length ≤ 2040) :
    Ring.slice (laidOut m dest address bytes) 0#11 6 = scoutFrame dest address ↔
      bytes.drop 2036 <+: addressBytes dest address := by
  have hscout : (scoutFrame dest address).length = 6 := rfl
  have haddr : (addressBytes dest address).length = 4 := rfl
  have hsame {k : ℕ} (hk : k < (addressBytes dest address).length)
      (hk' : k < (scoutFrame dest address).length) :
      (scoutFrame dest address)[k] = (addressBytes dest address)[k] :=
    List.getElem_append_left hk
  have hslice {k : ℕ} (hk : k < (Ring.slice (laidOut m dest address bytes) 0#11 6).length) :
      (Ring.slice (laidOut m dest address bytes) 0#11 6)[k] =
        laidOut m dest address bytes (BitVec.ofNat 11 k) := by
    simp [Ring.slice]
  constructor
  · intro h
    rw [List.prefix_iff_eq_take]
    apply List.ext_getElem
    · simp
      omega
    · intro k hk _
      rw [List.length_drop] at hk
      have hk4 : k < (addressBytes dest address).length := by omega
      have hk6 : k < (scoutFrame dest address).length := by omega
      have hk6' : k < (Ring.slice (laidOut m dest address bytes) 0#11 6).length := by
        rw [Ring.length_slice]
        omega
      rw [List.getElem_drop, List.getElem_take, ← laidOut_wrapped m dest address hlen (by omega),
        ← hslice hk6', ← hsame hk4 hk6]
      exact List.getElem_of_eq h _
  · intro h
    apply List.ext_getElem (by rw [Ring.length_slice, hscout])
    intro k hk hk6
    rw [hslice hk]
    rcases Nat.lt_or_ge (2036 + k) bytes.length with hlt | hge
    · have hk4 : k < (addressBytes dest address).length := by omega
      have hdrop : k < (bytes.drop 2036).length := by
        rw [List.length_drop]
        omega
      rw [laidOut_wrapped m dest address hlen hlt, hsame hk4 hk6, ← h.getElem hdrop,
        List.getElem_drop]
    · exact laidOut_scout m dest address hk6 hge

end Laid

/-- What is handed to the transmitter, in terms of the buffer. -/
theorem SetUp.framesLaid_iff {m : BitVec 11 → BitVec 8} {dest : EconetAddr} {address : BitVec 16}
    {bytes : List (BitVec 8)} {d : Driver} (hlen : bytes.length ≤ 2040)
    (h : SetUp (laidOut m dest address bytes) bytes.length d.tx.frame d.dataFrame) :
    FramesLaid dest address bytes d ↔ bytes.drop 2036 <+: addressBytes dest address := by
  have hscout : d.tx.frame.data = Ring.slice (laidOut m dest address bytes) 0#11 6 := by
    rw [TxFrame.data, TxFrame.length, h.scoutFirst, h.scoutLast]
    exact congrArg (Ring.slice · _ _) h.buf
  have hdata : d.dataFrame.data = addressBytes dest address ++ bytes := by
    have hlength : (BitVec.ofNat 11 (11 + bytes.length) - 8#11).toNat + 1 = 4 + bytes.length := by
      simp only [BitVec.toNat_sub, BitVec.toNat_ofNat]
      omega
    rw [TxFrame.data, TxFrame.length, h.first, h.last, hlength, h.same,
      ← slice_laidOut m dest address hlen]
    exact congrArg (Ring.slice · _ _) h.buf
  constructor
  · rintro ⟨hs, -⟩
    rwa [hscout, slice_scout_iff m dest address hlen] at hs
  · intro hpre
    exact ⟨hscout.trans ((slice_scout_iff m dest address hlen).mpr hpre), hdata⟩

theorem ends_copyTx (cs : List ℕ) (offset : ℕ) (bytes : List (BitVec 8)) :
    (copyTx cs offset bytes).Ends := by
  induction cs generalizing offset bytes with
  | nil => exact Prog.ends_pure ()
  | cons c cs ih => exact Prog.ends_bind (Prog.ends_modify _ _) fun _ => ih _ _

theorem ends_sendScout (dest : EconetAddr) (ptr : BitVec 32) (bytes : List (BitVec 8)) :
    (sendScout dest ptr bytes).Ends := by
  apply Prog.ends_bind
  · apply Prog.ends_bind (Prog.ends_modify _ _)
    intro _
    apply Prog.ends_bind (Prog.ends_read _ _)
    intro address
    apply Prog.ends_bind (Prog.ends_modify _ _)
    intro _
    apply Prog.ends_bind (Prog.ends_modify _ _)
    intro _
    apply Prog.ends_bind (Prog.ends_modify _ _)
    intro _
    apply Prog.ends_bind (Prog.ends_modify _ _)
    intro _
    apply Prog.ends_bind (ends_copyTx _ _ _)
    intro _
    apply Prog.ends_bind (Prog.ends_modify _ _)
    intro _
    apply Prog.ends_bind (Prog.ends_modify _ _)
    intro _
    apply Prog.ends_bind (Prog.ends_modify _ _)
    intro _
    apply Prog.ends_bind (Prog.ends_modify _ _)
    intro _
    exact Prog.ends_bind (Prog.ends_modify _ _) fun _ => Prog.ends_modify _ _
  · intro _
    exact Prog.ends_modify _ _

theorem prefix_of_laid {d : Driver} {dest : EconetAddr} {ptr : BitVec 32} {bytes : List (BitVec 8)}
    (hlen : bytes.length ≤ 2040)
    (h : WriteSafe (fun _ d' => FramesLaid dest d.vars.econetAddress bytes d')
      (sendScout dest ptr bytes) d) :
    bytes.drop 2036 <+: addressBytes dest d.vars.econetAddress := by
  obtain ⟨⟨_, d'⟩, ha⟩ := ends_sendScout dest ptr bytes d
  obtain ⟨m, hd'⟩ := (sendScout_safe d dest ptr bytes).alone (fun _ _ => trivial) trivial ha
  exact (SetUp.framesLaid_iff hlen hd'.frames).mp (h.alone (fun _ _ => trivial) trivial ha)

/-- **The frames of a write.**  Whatever the others do meanwhile, for every payload that is not too
long the transmitter is handed the scout frame, and the data frame from `econet_tx_start` to
`econet_tx_end` is the address and the payload, if and only if what the payload has from byte 2036
on is how the address starts: it is stored over the start of the scout frame. -/
theorem sendScout_laid_iff (d : Driver) (dest : EconetAddr) (ptr : BitVec 32)
    (bytes : List (BitVec 8)) (hlen : bytes.length ≤ 2040) :
    WriteSafe (fun _ d' => FramesLaid dest d.vars.econetAddress bytes d')
        (sendScout dest ptr bytes) d ↔
      bytes.drop 2036 <+: addressBytes dest d.vars.econetAddress := by
  constructor
  · exact prefix_of_laid hlen
  · intro hpre
    apply (sendScout_safe d dest ptr bytes).mono
    rintro - d' - ⟨m, hd'⟩
    exact (SetUp.framesLaid_iff hlen hd'.frames).mpr hpre

/-- A payload of the greatest length leaves the frames as they should be: byte 2036 is the
station of the destination, and the three after it the rest of the address. -/
theorem station_laid :
    WriteSafe (fun _ d' => FramesLaid ⟨0x99#8, 0#8, 1#8⟩ station.shared.vars.econetAddress
        (List.replicate 2036 0#8 ++ [1#8, 0#8, 0x42#8, 0#8]) d')
      (sendScout ⟨0x99#8, 0#8, 1#8⟩ 0x4000#32
        (List.replicate 2036 0#8 ++ [1#8, 0#8, 0x42#8, 0#8])) station.shared := by
  refine (sendScout_laid_iff station.shared ⟨0x99#8, 0#8, 1#8⟩ 0x4000#32 _ ?_).mpr ?_
  · rw [List.length_append, List.length_replicate]
    decide
  · rw [List.drop_append_of_le_length (by rw [List.length_replicate]), List.drop_replicate]
    decide

/-- A payload of 2037 zeros to station 1 leaves a scout frame to station 0. -/
theorem station_not_laid : (List.replicate 2037 0#8).length ≤ 2040 ∧
    ¬WriteSafe (fun _ d' => FramesLaid ⟨0x99#8, 0#8, 1#8⟩ station.shared.vars.econetAddress
        (List.replicate 2037 0#8) d')
      (sendScout ⟨0x99#8, 0#8, 1#8⟩ 0x4000#32 (List.replicate 2037 0#8)) station.shared := by
  have hlen : (List.replicate 2037 0#8).length ≤ 2040 := by
    rw [List.length_replicate]
    decide
  refine ⟨hlen, fun h => ?_⟩
  have hpre := prefix_of_laid hlen h
  rw [List.drop_replicate] at hpre
  exact absurd hpre (by decide)

end Filestick.RawEconet
