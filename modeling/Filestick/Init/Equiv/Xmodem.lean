import Filestick.Init.Xmodem
import Filestick.Lib.Machine
import Filestick.System.Equiv.File

/-!
# What an XMODEM transfer leaves in the file

* `IsPacket`, `InStream`: packets, and a stream that has them one after another.
* `Heard`: the bytes that a state of the receiver has seen; `heard_rxByte` is its step.
* `process_spec`: what the receiver does when it looks at the clock.
* `acked_inStream`: the acknowledged packets are in the stream, in order and numbered in a row.
* `packet_received`: a new packet that arrives in time is acknowledged.
* `receive_lossless_iff`: the file has their payloads if every write has stored all of its bytes,
  and only then.
-/

namespace Filestick.Xmodem

open FileIo (OpenFile Has oCreat fileioWrite)
open Machine
open XmodemServer

/-! ### Packets -/

/-- A byte that a packet starts with. -/
def IsHeader (byte : BitVec 8) : Prop := byte = xmodemSoh ∨ byte = xmodemStx

/-- The bytes of a packet with the number `n`. -/
structure IsPacket (n : BitVec 8) (payload bytes : List (BitVec 8)) : Prop where
  size : payload.length = 128 ∨ payload.length = 1024
  bytes : ∃ header high low : BitVec 8, IsHeader header ∧
    bytes = header :: n :: ~~~n :: (payload ++ [high, low]) ∧
    payload.foldl crcByte 0#16 = high.setWidth 16 <<< 8 ||| low.setWidth 16

/-- The stream has packets with these payloads, one after another and numbered from 1 on. -/
inductive InStream : List (List (BitVec 8)) → List (BitVec 8) → Prop
  | nil (stream : List (BitVec 8)) : InStream [] stream
  | snoc {payloads : List (List (BitVec 8))} {before payload bytes : List (BitVec 8)}
      (after : List (BitVec 8)) : InStream payloads before →
      IsPacket (BitVec.ofNat 8 (payloads.length + 1)) payload bytes →
      InStream (payloads ++ [payload]) (before ++ bytes ++ after)

theorem InStream.append {payloads : List (List (BitVec 8))} {stream : List (BitVec 8)}
    (h : InStream payloads stream) (more : List (BitVec 8)) :
    InStream payloads (stream ++ more) := by
  cases h with
  | nil => exact InStream.nil _
  | snoc after hbefore hpacket =>
    rw [List.append_assoc]
    exact InStream.snoc (after ++ more) hbefore hpacket

/-! ### What the receiver has seen -/

/-- A packet has begun, and `rest` is what came in after its first byte. -/
def Began (xdm : XmodemServer) (received : List (BitVec 8)) (acked : List (List (BitVec 8)))
    (rest : List (BitVec 8)) : Prop :=
  (xdm.packetSize = 128 ∨ xdm.packetSize = 1024) ∧
    ∃ before header, received = before ++ header :: rest ∧ IsHeader header ∧ InStream acked before

/-- The number of the packet, and its complement. -/
def numbered (xdm : XmodemServer) : List (BitVec 8) :=
  [xdm.expected xdm.repeating, ~~~(xdm.expected xdm.repeating)]

/-- What the receiver has seen of a packet. -/
def Heard (xdm : XmodemServer) (received : List (BitVec 8)) (acked : List (List (BitVec 8))) :
    Prop :=
  match xdm.state with
  | .blockNum => Began xdm received acked []
  | .blockNeg => Began xdm received acked [xdm.expected xdm.repeating]
  | .data => xdm.packetPos < xdm.packetSize ∧
      Began xdm received acked (numbered xdm ++ Overlay.slice xdm.packetData 0 xdm.packetPos)
  | .crc0 => Began xdm received acked (numbered xdm ++ xdm.packet)
  | .crc1 => ∃ high : BitVec 8, xdm.crc = high.setWidth 16 <<< 8 ∧
      Began xdm received acked (numbered xdm ++ (xdm.packet ++ [high]))
  | .processPacket => ∃ high low : BitVec 8, xdm.repeating = false ∧
      xdm.packet.foldl crcByte 0#16 = high.setWidth 16 <<< 8 ||| low.setWidth 16 ∧
      Began xdm received acked (numbered xdm ++ (xdm.packet ++ [high, low]))
  | .start | .soh | .successful | .failure => True

variable {xdm : XmodemServer} {received : List (BitVec 8)} {acked : List (List (BitVec 8))}

/-- One more byte of the packet. -/
theorem Began.more {rest : List (BitVec 8)} (h : Began xdm received acked rest) (byte : BitVec 8) :
    Began xdm (received ++ [byte]) acked (rest ++ [byte]) := by
  obtain ⟨hsize, before, header, rfl, hheader, hbefore⟩ := h
  refine ⟨hsize, before, header, ?_, hheader, hbefore⟩
  rw [List.append_assoc, List.cons_append]

/-- Only the size of the packet is looked at. -/
theorem Began.congr {xdm' : XmodemServer} {rest : List (BitVec 8)}
    (h : Began xdm received acked rest) (hsize : xdm'.packetSize = xdm.packetSize) :
    Began xdm' received acked rest := by
  obtain ⟨hsize', hrest⟩ := h
  rw [← hsize] at hsize'
  exact ⟨hsize', hrest⟩

theorem heard_rxSoh (hstream : InStream acked received)
    (hstate : xdm.state = .start ∨ xdm.state = .soh) (byte : BitVec 8) :
    Heard (xdm.rxSoh byte) (received ++ [byte]) acked := by
  unfold rxSoh
  split_ifs with hsoh hstx heot
  · exact ⟨Or.inl rfl, received, byte, rfl, Or.inl hsoh, hstream⟩
  · exact ⟨Or.inr rfl, received, byte, rfl, Or.inr hstx, hstream⟩
  · trivial
  · obtain hstart | hsoh := hstate
    · unfold Heard
      rw [hstart]
      trivial
    · unfold Heard
      rw [hsoh]
      trivial

theorem heard_resync (hstream : InStream acked received)
    (hsize : xdm.packetSize = 128 ∨ xdm.packetSize = 1024) (byte : BitVec 8) :
    Heard (xdm.resync byte) (received ++ [byte]) acked := by
  unfold resync
  split_ifs with hheader
  · exact ⟨hsize, received, byte, rfl, hheader, hstream⟩
  · trivial

theorem slice_update (data : ℕ → BitVec 8) (pos : ℕ) (byte : BitVec 8) :
    Overlay.slice (Function.update data pos byte) 0 (pos + 1) =
      Overlay.slice data 0 pos ++ [byte] := by
  unfold Overlay.slice
  rw [List.range_succ, List.map_append]
  congr 1
  · apply List.map_congr_left
    intro k hk
    have hne : 0 + k ≠ pos := by
      have hlt := List.mem_range.mp hk
      omega
    exact Function.update_of_ne hne _ _
  · simp

theorem heard_rxData (h : Heard xdm received acked) (hstate : xdm.state = .data)
    (byte : BitVec 8) : Heard (xdm.rxData byte) (received ++ [byte]) acked := by
  unfold Heard at h
  rw [hstate] at h
  obtain ⟨hlt, hbegan⟩ := h
  have hmore := hbegan.more byte
  rw [List.append_assoc, ← slice_update] at hmore
  unfold rxData
  dsimp only
  split_ifs with hfull
  · have hall : xdm.packetPos + 1 = xdm.packetSize := by omega
    rw [hall] at hmore
    exact hmore.congr rfl
  · unfold Heard
    dsimp only
    rw [hstate]
    exact ⟨by omega, hmore.congr rfl⟩

theorem heard_rxCrc1 (h : Heard xdm received acked) (hstate : xdm.state = .crc1)
    (byte : BitVec 8) : Heard (xdm.rxCrc1 byte) (received ++ [byte]) acked := by
  unfold Heard at h
  rw [hstate] at h
  obtain ⟨high, hcrc, hbegan⟩ := h
  have hmore := hbegan.more byte
  rw [List.append_assoc, List.append_assoc] at hmore
  unfold rxCrc1
  dsimp only
  split_ifs with hbad hrepeat
  · trivial
  · trivial
  · rw [not_not, hcrc] at hbad
    exact ⟨high, byte, Bool.eq_false_of_not_eq_true hrepeat, hbad, hmore.congr rfl⟩

/-- **One byte.** -/
theorem heard_rxByte (hstream : InStream acked received) (h : Heard xdm received acked)
    (byte : BitVec 8) (hidle : xdm.state ≠ .processPacket) :
    Heard (xdm.rxByte byte) (received ++ [byte]) acked := by
  have hheard := h
  unfold Heard at h
  unfold rxByte
  cases hstate : xdm.state with
  | start => exact heard_rxSoh hstream (Or.inl hstate) byte
  | soh => exact heard_rxSoh hstream (Or.inr hstate) byte
  | blockNum =>
    rw [hstate] at h
    dsimp only
    unfold rxBlockNum
    split_ifs with hnew hold
    · have hmore := h.more byte
      rw [List.nil_append, hnew] at hmore
      rw [hnew]
      exact hmore.congr rfl
    · have hmore := h.more byte
      rw [List.nil_append, hold] at hmore
      rw [hold]
      exact hmore.congr rfl
    · exact heard_resync hstream h.1 byte
  | blockNeg =>
    rw [hstate] at h
    dsimp only
    unfold rxBlockNeg
    split_ifs with hneg
    · have hmore := h.more byte
      rw [hneg] at hmore ⊢
      have hpos : 0 < xdm.packetSize := by
        obtain hsize | hsize := h.1 <;> omega
      exact ⟨hpos, hmore.congr rfl⟩
    · exact heard_resync hstream h.1 byte
  | data => exact heard_rxData hheard hstate byte
  | crc0 =>
    rw [hstate] at h
    have hmore := h.more byte
    rw [List.append_assoc] at hmore
    exact ⟨byte, rfl, hmore.congr rfl⟩
  | crc1 => exact heard_rxCrc1 hheard hstate byte
  | processPacket => exact absurd hstate hidle
  | successful =>
    unfold Heard
    dsimp only
    rw [hstate]
    trivial
  | failure =>
    unfold Heard
    dsimp only
    rw [hstate]
    trivial

/-! ### The clock -/

/-- Between two looks at the clock only the state changes of what the receiver has of a packet, and
only to where a packet starts. -/
structure Ticked (xdm xdm' : XmodemServer) : Prop where
  packetData : xdm'.packetData = xdm.packetData
  packetPos : xdm'.packetPos = xdm.packetPos
  crc : xdm'.crc = xdm.crc
  packetSize : xdm'.packetSize = xdm.packetSize
  repeating : xdm'.repeating = xdm.repeating
  blockNum : xdm'.blockNum = xdm.blockNum
  state : xdm'.state = xdm.state ∨ xdm'.state = .soh ∨ xdm'.state = .failure

theorem Ticked.trans {xdm xdm' xdm'' : XmodemServer} (h : Ticked xdm xdm')
    (h' : Ticked xdm' xdm'') : Ticked xdm xdm'' where
  packetData := h'.packetData.trans h.packetData
  packetPos := h'.packetPos.trans h.packetPos
  crc := h'.crc.trans h.crc
  packetSize := h'.packetSize.trans h.packetSize
  repeating := h'.repeating.trans h.repeating
  blockNum := h'.blockNum.trans h.blockNum
  state := by
    obtain hsame | hreset := h'.state
    · rw [hsame]
      exact h.state
    · exact Or.inr hreset

theorem ticked_refl (xdm : XmodemServer) : Ticked xdm xdm :=
  ⟨rfl, rfl, rfl, rfl, rfl, rfl, Or.inl rfl⟩

theorem tick_ticked (xdm : XmodemServer) (msTime : ℤ) : Ticked xdm (xdm.tick msTime) := by
  have hstarted : Ticked xdm (if xdm.lastEventTime = 0 then
      { xdm with lastEventTime := msTime } else xdm) := by
    split_ifs
    · exact ⟨rfl, rfl, rfl, rfl, rfl, rfl, Or.inl rfl⟩
    · exact ticked_refl xdm
  refine hstarted.trans ?_
  unfold tick
  dsimp only
  generalize (if xdm.lastEventTime = 0 then { xdm with lastEventTime := msTime } else xdm) = y
  have hasked : Ticked y (if y.state = .start ∧ 500 < msTime - y.lastEventTime then
      { y.txByte charC with lastEventTime := msTime } else y) := by
    split_ifs
    · exact ⟨rfl, rfl, rfl, rfl, rfl, rfl, Or.inl rfl⟩
    · exact ticked_refl y
  refine hasked.trans ?_
  generalize (if y.state = .start ∧ 500 < msTime - y.lastEventTime then
    { y.txByte charC with lastEventTime := msTime } else y) = z
  have hlate : Ticked z (if 1000 < msTime - z.lastEventTime then
      { z.txByte xmodemNack with
        errorCount := z.errorCount + 1#32
        state := .soh
        lastEventTime := msTime } else z) := by
    split_ifs
    · exact ⟨rfl, rfl, rfl, rfl, rfl, rfl, Or.inr (Or.inl rfl)⟩
    · exact ticked_refl z
  refine hlate.trans ?_
  split_ifs
  · exact ⟨rfl, rfl, rfl, rfl, rfl, rfl, Or.inr (Or.inr rfl)⟩
  · exact ticked_refl _
  · exact ⟨rfl, rfl, rfl, rfl, rfl, rfl, Or.inr (Or.inr rfl)⟩
  · exact ticked_refl _

/-- What is seen of a packet does not depend on the clock. -/
theorem Ticked.heard {xdm xdm' : XmodemServer} (h : Ticked xdm xdm')
    (hheard : Heard xdm received acked) : Heard xdm' received acked := by
  obtain hsame | hreset | hreset := h.state
  · have hexpected : ∀ repeating, xdm'.expected repeating = xdm.expected repeating := by
      intro repeating
      unfold expected
      rw [h.blockNum]
    have hnumbered : numbered xdm' = numbered xdm := by
      unfold numbered
      rw [hexpected, h.repeating]
    have hpacket : xdm'.packet = xdm.packet := by
      unfold packet
      rw [h.packetData, h.packetSize]
    have hbegan : ∀ rest, Began xdm received acked rest → Began xdm' received acked rest :=
      fun rest hrest => hrest.congr h.packetSize
    unfold Heard at hheard ⊢
    rw [hsame, hexpected, hnumbered, hpacket, h.packetData, h.packetPos, h.packetSize, h.crc,
      h.repeating]
    cases hstate : xdm.state <;> rw [hstate] at hheard
    case start => trivial
    case soh => trivial
    case successful => trivial
    case failure => trivial
    case data => exact ⟨hheard.1, hbegan _ hheard.2⟩
    case crc1 =>
      obtain ⟨high, hcrc, hrest⟩ := hheard
      exact ⟨high, hcrc, hbegan _ hrest⟩
    case processPacket =>
      obtain ⟨high, low, hrepeat, hcrc, hrest⟩ := hheard
      exact ⟨high, low, hrepeat, hcrc, hbegan _ hrest⟩
    all_goals exact hbegan _ hheard
  · unfold Heard
    rw [hreset]
    trivial
  · unfold Heard
    rw [hreset]
    trivial

/-- **A look at the clock**: no packet is handed out and none is left, or the one that has come in
is handed out. -/
theorem process_spec (xdm : XmodemServer) (msTime : ℤ) :
    (xdm.process msTime).2 = none ∧ Ticked xdm (xdm.process msTime).1 ∧
        (xdm.process msTime).1.state ≠ .processPacket ∨
      xdm.state = .processPacket ∧ (xdm.process msTime).2 = some (xdm.packet, xdm.blockNum) ∧
        (xdm.process msTime).1.state = .soh ∧
        (xdm.process msTime).1.blockNum = xdm.blockNum + 1#32 := by
  unfold process
  by_cases hdone : xdm.isDone = true
  · rw [if_pos hdone]
    refine Or.inl ⟨rfl, ticked_refl xdm, ?_⟩
    intro hstate
    unfold isDone at hdone
    rw [hstate] at hdone
    exact absurd hdone (by decide)
  rw [if_neg hdone]
  dsimp only
  generalize (if msTime = 0 then 1 else msTime) = t
  have h := tick_ticked xdm t
  by_cases hstate : (xdm.tick t).state = .processPacket
  · rw [if_neg (not_not.mpr hstate)]
    have hsame : xdm.state = .processPacket := by
      obtain hsame | hreset | hreset := h.state
      · exact hsame.symm.trans hstate
      · exact nomatch hreset.symm.trans hstate
      · exact nomatch hreset.symm.trans hstate
    refine Or.inr ⟨hsame, ?_, rfl, ?_⟩
    · unfold packet
      rw [h.packetData, h.packetSize, h.blockNum]
    · exact congrArg (· + 1#32) h.blockNum
  · rw [if_pos hstate]
    exact Or.inl ⟨rfl, h, hstate⟩

/-! ### The loop -/

theorem rxByte_blockNum (xdm : XmodemServer) (byte : BitVec 8) :
    (xdm.rxByte byte).blockNum = xdm.blockNum := by
  unfold rxByte
  cases xdm.state <;> dsimp only
  case start | soh => unfold rxSoh; split_ifs <;> rfl
  case blockNum => unfold rxBlockNum resync; split_ifs <;> rfl
  case blockNeg => unfold rxBlockNeg resync; split_ifs <;> rfl
  case data => unfold rxData; dsimp only; split_ifs <;> rfl
  case crc1 => unfold rxCrc1; dsimp only; split_ifs <;> rfl

/-- The receiver and the record agree. -/
structure Agrees (r : Receive) : Prop where
  stream : InStream r.acked r.received
  heard : Heard r.xdm r.received r.acked
  blockNum : r.xdm.blockNum = BitVec.ofNat 32 r.acked.length

/-- The receiver and the record agree, and no packet waits to be handed out. -/
structure Sound (r : Receive) : Prop extends Agrees r where
  idle : r.xdm.state ≠ .processPacket

theorem Sound.listen {r : Receive} (h : Sound r) (rx : Option (BitVec 8)) :
    Agrees (r.listen rx) := by
  cases rx with
  | none => exact h.toAgrees
  | some byte =>
    exact ⟨h.stream.append [byte], heard_rxByte h.stream h.heard byte h.idle,
      (rxByte_blockNum r.xdm byte).trans h.blockNum⟩

theorem payload_eq (before packet : List (BitVec 8)) (high low : BitVec 8) :
    Receive.payload (before ++ (packet ++ [high, low])) packet.length = packet := by
  have hdrop : (before ++ (packet ++ [high, low])).rdrop 2 = before ++ packet := by
    rw [← List.append_assoc]
    exact List.rdrop_append_length
  unfold Receive.payload
  rw [hdrop, List.rtake, List.length_append, Nat.add_sub_cancel]
  exact List.drop_left

/-- A packet that is handed out is the last one of the stream. -/
theorem Agrees.packet {r : Receive} (h : Agrees r) (hstate : r.xdm.state = .processPacket) :
    Receive.payload r.received r.xdm.packet.length = r.xdm.packet ∧
      0 < r.xdm.packet.length ∧ InStream (r.acked ++ [r.xdm.packet]) r.received := by
  have hheard := h.heard
  unfold Heard at hheard
  rw [hstate] at hheard
  obtain ⟨high, low, hrepeat, hcrc, hsize, before, header, hreceived, hheader, hbefore⟩ := hheard
  have hlen : r.xdm.packet.length = r.xdm.packetSize := Overlay.length_slice _ _ _
  have hnumber : r.xdm.expected false = BitVec.ofNat 8 (r.acked.length + 1) := by
    unfold expected
    rw [if_neg Bool.false_ne_true, h.blockNum]
    apply BitVec.eq_of_toNat_eq
    simp
  have hpacket : IsPacket (BitVec.ofNat 8 (r.acked.length + 1)) r.xdm.packet
      (header :: (numbered r.xdm ++ (r.xdm.packet ++ [high, low]))) := by
    constructor
    · rw [hlen]
      exact hsize
    · refine ⟨header, high, low, hheader, ?_, hcrc⟩
      unfold numbered
      rw [hrepeat, hnumber]
      rfl
  refine ⟨?_, ?_, ?_⟩
  · have hsplit : r.received =
        before ++ header :: numbered r.xdm ++ (r.xdm.packet ++ [high, low]) := by
      rw [hreceived, List.append_assoc, List.cons_append]
    rw [hsplit]
    exact payload_eq _ _ _ _
  · obtain hsize | hsize := hsize <;> omega
  · have hstream := InStream.snoc [] hbefore hpacket
    rwa [List.append_nil, ← hreceived] at hstream

/-- What an iteration does to the record and the file. -/
theorem step_spec {r : Receive} (h : Sound r) (i : Input) :
    Sound (r.step i) ∧
      (((r.step i).acked = r.acked ∧ (r.step i).file = r.file ∧
          (r.xdm.isDone = false → (r.listen i.rx).poll.2 = none)) ∨
        ∃ packet n, r.xdm.isDone = false ∧ (r.listen i.rx).poll.2 = some (packet, n) ∧
          (r.step i).acked = r.acked ++ [packet] ∧
          (r.step i).file = (fileioWrite r.file packet i.disc).1) := by
  unfold Receive.step
  by_cases hdone : r.xdm.isDone = true
  · rw [if_pos hdone]
    exact ⟨h, Or.inl ⟨rfl, rfl, fun hnot => absurd (hnot.symm.trans hdone) (by decide)⟩⟩
  rw [if_neg hdone]
  have hnot := Bool.eq_false_of_not_eq_true hdone
  have hagrees := h.listen i.rx
  have hfile : (r.listen i.rx).file = r.file := by
    cases i.rx <;> rfl
  have hacked : (r.listen i.rx).acked = r.acked := by
    cases i.rx <;> rfl
  dsimp only
  rw [← hfile, ← hacked]
  generalize r.listen i.rx = r' at hagrees
  obtain ⟨hnone, hticked, hidle⟩ | ⟨hstate, hsome, hsoh, hnum⟩ :=
    process_spec r'.xdm (r'.faketime >>> 2).toNat
  · have hpoll : r'.poll.2 = none := hnone
    rw [hpoll]
    refine ⟨⟨⟨hagrees.stream, hticked.heard hagrees.heard, ?_⟩, hidle⟩, Or.inl ⟨rfl, rfl, ?_⟩⟩
    · exact hticked.blockNum.trans hagrees.blockNum
    · exact fun _ => rfl
  · have hpoll : r'.poll.2 = some (r'.xdm.packet, r'.xdm.blockNum) := hsome
    obtain ⟨hpayload, hpos, hstream⟩ := hagrees.packet hstate
    rw [hpoll]
    dsimp only
    rw [if_pos hpos, hpayload]
    refine ⟨⟨⟨hstream, ?_, ?_⟩, ?_⟩, Or.inr ⟨_, _, hnot, rfl, rfl, rfl⟩⟩
    · have hsoh' : r'.poll.1.state = .soh := hsoh
      unfold Heard
      dsimp only
      rw [hsoh']
      trivial
    · have hnum' : r'.poll.1.blockNum = r'.xdm.blockNum + 1#32 := hnum
      dsimp only
      rw [hnum', hagrees.blockNum, List.length_append]
      exact (BitVec.ofNat_add _ _).symm
    · have hsoh' : r'.poll.1.state = .soh := hsoh
      dsimp only
      rw [hsoh']
      exact fun h => nomatch h

theorem sound_start (file : OpenFile) : Sound (Receive.start file) where
  stream := InStream.nil _
  heard := trivial
  blockNum := rfl
  idle := fun h => nomatch h

/-- **The acknowledged packets are in the stream**, one after another and numbered in a row. -/
theorem acked_inStream (file : OpenFile) (is : List Input) :
    InStream (run Receive.step (Receive.start file) is).acked
      (run Receive.step (Receive.start file) is).received := by
  have hsound : Sound (run Receive.step (Receive.start file) is) :=
    run_invariant_of_step (I := Sound) (fun _ i h => (step_spec h i).1) is (sound_start file)
  exact hsound.stream

/-! ### A packet that arrives in time -/

/-- The time as the receiver takes it. -/
def clockTime (msTime : ℤ) : ℤ := if msTime = 0 then 1 else msTime

/-- The time of an iteration. -/
def pollTime (faketime : BitVec 32) : ℤ := clockTime (faketime >>> 2).toNat

/-- The timer has been started, and does not run out in the next `n` iterations. -/
structure Quiet (n : ℕ) (r : Receive) : Prop where
  timer : r.xdm.lastEventTime ≠ 0
  errors : r.xdm.errorCount.toNat < 100
  inTime : ∀ k < n, pollTime (r.faketime + BitVec.ofNat 32 k) - r.xdm.lastEventTime ≤ 500

theorem tick_quiet {xdm : XmodemServer} {t : ℤ} (htimer : xdm.lastEventTime ≠ 0)
    (htime : t - xdm.lastEventTime ≤ 500) (herrors : xdm.errorCount.toNat < 100) :
    xdm.tick t = xdm := by
  have hfirst : ¬(xdm.state = .start ∧ 500 < t - xdm.lastEventTime) := by
    rintro ⟨-, hlate⟩
    omega
  unfold tick
  dsimp only
  rw [if_neg htimer, if_neg hfirst, if_neg (show ¬1000 < t - xdm.lastEventTime by omega),
    if_neg (Nat.not_le.mpr herrors)]

/-- A look at the clock when nothing is late. -/
theorem process_quiet {xdm : XmodemServer} {msTime : ℤ} (hdone : xdm.isDone = false)
    (htick : xdm.tick (clockTime msTime) = xdm) :
    xdm.process msTime =
      if xdm.state ≠ .processPacket then (xdm, none)
      else
        ({ xdm.txByte xmodemAck with
            lastEventTime := clockTime msTime
            blockNum := xdm.blockNum + 1#32
            state := .soh },
          some (xdm.packet, xdm.blockNum)) := by
  have hnot : ¬xdm.isDone = true := by
    rw [hdone]
    exact Bool.false_ne_true
  unfold clockTime at htick ⊢
  unfold process
  rw [if_neg hnot]
  dsimp only
  rw [htick]

/-- The receiver after a byte, when nothing is late. -/
theorem tick_pollTime {r : Receive} {n : ℕ} (h : Quiet (n + 1) r) {xdm : XmodemServer}
    (htimer : xdm.lastEventTime = r.xdm.lastEventTime)
    (herrors : xdm.errorCount = r.xdm.errorCount) : xdm.tick (pollTime r.faketime) = xdm := by
  have hzero := h.inTime 0 (Nat.succ_pos n)
  rw [show r.faketime + BitVec.ofNat 32 0 = r.faketime from BitVec.add_zero _] at hzero
  apply tick_quiet
  · rw [htimer]
    exact h.timer
  · rwa [htimer]
  · rw [herrors]
    exact h.errors

/-- A byte that does not end a packet. -/
theorem step_quiet {r : Receive} {n : ℕ} (h : Quiet (n + 1) r) {byte : BitVec 8}
    {xdm : XmodemServer} (hrx : r.xdm.rxByte byte = xdm) (hrun : r.xdm.isDone = false)
    (hdone : xdm.isDone = false) (hstate : xdm.state ≠ .processPacket)
    (htimer : xdm.lastEventTime = r.xdm.lastEventTime)
    (herrors : xdm.errorCount = r.xdm.errorCount) (disc : FileIo.Transfer) :
    r.step ⟨some byte, disc⟩ = { r with
        xdm := xdm
        faketime := r.faketime + 1#32
        received := r.received ++ [byte] } ∧
      Quiet n (r.step ⟨some byte, disc⟩) := by
  have hpoll : (r.listen (some byte)).poll = (xdm, none) := by
    show (r.xdm.rxByte byte).process (r.faketime >>> 2).toNat = _
    rw [hrx, process_quiet hdone (tick_pollTime h htimer herrors), if_pos hstate]
  have hstep : r.step ⟨some byte, disc⟩ = { r with
      xdm := xdm
      faketime := r.faketime + 1#32
      received := r.received ++ [byte] } := by
    unfold Receive.step
    rw [if_neg (by rw [hrun]; exact Bool.false_ne_true)]
    dsimp only
    rw [hpoll]
    rfl
  refine ⟨hstep, ?_⟩
  rw [hstep]
  refine ⟨?_, ?_, ?_⟩
  · rw [htimer]
    exact h.timer
  · rw [herrors]
    exact h.errors
  · intro k hk
    have hnext := h.inTime (k + 1) (Nat.succ_lt_succ hk)
    rw [htimer]
    rwa [Nat.add_comm, BitVec.ofNat_add, ← BitVec.add_assoc] at hnext

/-- One iteration for each of these bytes. -/
def inputs (bytes : List (BitVec 8)) (disc : FileIo.Transfer) : List Input :=
  bytes.map fun byte => ⟨some byte, disc⟩

/-- The last byte of a payload. -/
theorem rxByte_last {xdm : XmodemServer} (hstate : xdm.state = .data)
    (hlast : xdm.packetPos + 1 = xdm.packetSize) (byte : BitVec 8) :
    xdm.rxByte byte = { xdm with
      packetData := Function.update xdm.packetData xdm.packetPos byte
      packetPos := xdm.packetSize
      state := .crc0 } := by
  unfold rxByte
  rw [hstate]
  unfold rxData
  dsimp only
  rw [if_pos hlast.ge, ← hlast]

/-- Another byte of a payload. -/
theorem rxByte_more {xdm : XmodemServer} (hstate : xdm.state = .data)
    (hmore : xdm.packetPos + 1 < xdm.packetSize) (byte : BitVec 8) :
    xdm.rxByte byte = { xdm with
      packetData := Function.update xdm.packetData xdm.packetPos byte
      packetPos := xdm.packetPos + 1 } := by
  unfold rxByte
  rw [hstate]
  unfold rxData
  dsimp only
  rw [if_neg (not_le.mpr hmore), hstate]

/-- The payload of a packet. -/
theorem run_data (disc : FileIo.Transfer) (bytes : List (BitVec 8)) (hbytes : bytes ≠ []) :
    ∀ {n : ℕ} {r : Receive}, Quiet (bytes.length + n) r → r.xdm.state = .data →
      r.xdm.packetPos + bytes.length = r.xdm.packetSize →
      ∃ data, run Receive.step r (inputs bytes disc) = { r with
          xdm := { r.xdm with
            packetData := data, packetPos := r.xdm.packetSize, state := .crc0 }
          faketime := r.faketime + BitVec.ofNat 32 bytes.length
          received := r.received ++ bytes } ∧
        Quiet n (run Receive.step r (inputs bytes disc)) ∧
        Overlay.slice data 0 r.xdm.packetSize =
          Overlay.slice r.xdm.packetData 0 r.xdm.packetPos ++ bytes := by
  induction bytes with
  | nil => exact absurd rfl hbytes
  | cons byte bytes ih =>
    intro n r hquiet hstate hsize
    rw [List.length_cons] at hquiet hsize
    have hrun : r.xdm.isDone = false := by
      unfold isDone
      rw [hstate]
      rfl
    rw [show bytes.length + 1 + n = bytes.length + n + 1 by omega] at hquiet
    by_cases hlast : bytes = []
    · subst hlast
      obtain ⟨hstep, hquiet'⟩ := step_quiet hquiet (rxByte_last hstate hsize byte) hrun rfl
        (fun h => nomatch h) rfl rfl disc
      refine ⟨Function.update r.xdm.packetData r.xdm.packetPos byte, hstep, ?_, ?_⟩
      · rw [List.length_nil, Nat.zero_add] at hquiet'
        exact hquiet'
      · rw [← hsize]
        exact slice_update _ _ _
    · have hpos := List.length_pos_iff.mpr hlast
      have hmore : r.xdm.packetPos + 1 < r.xdm.packetSize := by omega
      obtain ⟨hstep, hquiet'⟩ := step_quiet hquiet (rxByte_more hstate hmore byte) hrun hrun
        (fun h => nomatch h.symm.trans hstate) rfl rfl disc
      obtain ⟨data, hrest, hquiet'', hslice⟩ := ih hlast hquiet' (by rw [hstep]; exact hstate)
        (by rw [hstep]; dsimp only; omega)
      refine ⟨data, ?_, hquiet'', ?_⟩
      · show run Receive.step (r.step ⟨some byte, disc⟩) (inputs bytes disc) = _
        rw [hrest, hstep]
        dsimp only
        rw [List.append_assoc, List.length_cons, Nat.add_comm bytes.length 1, BitVec.ofNat_add,
          BitVec.add_assoc]
        rfl
      · rw [hstep] at hslice
        dsimp only at hslice
        rw [hslice, slice_update, List.append_assoc]
        rfl

/-- The bytes up to the payload of a packet. -/
theorem run_header (disc : FileIo.Transfer) {r : Receive} {n size : ℕ} {header : BitVec 8}
    (hquiet : Quiet (n + 3) r) (hstate : r.xdm.state = .start ∨ r.xdm.state = .soh)
    (hheader : header = xmodemSoh ∧ size = 128 ∨ header = xmodemStx ∧ size = 1024) :
    run Receive.step r
        (inputs [header, r.xdm.expected false, ~~~(r.xdm.expected false)] disc) = { r with
        xdm := { r.xdm with state := .data, packetSize := size, repeating := false, packetPos := 0 }
        faketime := r.faketime + 1#32 + 1#32 + 1#32
        received :=
          r.received ++ [header] ++ [r.xdm.expected false] ++ [~~~(r.xdm.expected false)] } ∧
      Quiet n (run Receive.step r
        (inputs [header, r.xdm.expected false, ~~~(r.xdm.expected false)] disc)) := by
  have hrun : r.xdm.isDone = false := by
    unfold isDone
    obtain h | h := hstate <;> rw [h] <;> rfl
  have hsoh : r.xdm.rxByte header = { r.xdm with state := .blockNum, packetSize := size } := by
    have hrx : r.xdm.rxByte header = r.xdm.rxSoh header := by
      unfold rxByte
      obtain h | h := hstate <;> rw [h]
    rw [hrx, rxSoh]
    obtain ⟨rfl, rfl⟩ | ⟨rfl, rfl⟩ := hheader
    · exact if_pos rfl
    · rw [if_neg (by decide), if_pos rfl]
  obtain ⟨hfirst, hquiet₁⟩ := step_quiet hquiet hsoh hrun rfl (fun h => nomatch h) rfl rfl disc
  have hnum : (r.step ⟨some header, disc⟩).xdm.rxByte (r.xdm.expected false) =
      { r.xdm with state := .blockNeg, packetSize := size, repeating := false } := by
    rw [hfirst]
    exact if_pos rfl
  obtain ⟨hsecond, hquiet₂⟩ := step_quiet hquiet₁ hnum (by rw [hfirst]; rfl) rfl
    (fun h => nomatch h) (by rw [hfirst]) (by rw [hfirst]) disc
  have hneg : ((r.step ⟨some header, disc⟩).step ⟨some (r.xdm.expected false), disc⟩).xdm.rxByte
      (~~~(r.xdm.expected false)) =
      { r.xdm with state := .data, packetSize := size, repeating := false, packetPos := 0 } := by
    rw [hsecond]
    exact if_pos rfl
  obtain ⟨hthird, hquiet₃⟩ := step_quiet hquiet₂ hneg (by rw [hsecond]; rfl) rfl
    (fun h => nomatch h) (by rw [hsecond, hfirst]) (by rw [hsecond, hfirst]) disc
  refine ⟨?_, hquiet₃⟩
  show ((r.step ⟨some header, disc⟩).step ⟨some (r.xdm.expected false), disc⟩).step
    ⟨some (~~~(r.xdm.expected false)), disc⟩ = _
  rw [hthird, hsecond, hfirst]

/-- The last byte of a packet. -/
theorem step_packet (disc : FileIo.Transfer) {r : Receive} {low : BitVec 8}
    (hquiet : Quiet 1 r) (hstate : r.xdm.state = .crc1) (hnew : r.xdm.repeating = false)
    (hcrc : r.xdm.packet.foldl crcByte 0#16 = r.xdm.crc ||| low.setWidth 16)
    (hpos : 0 < r.xdm.packet.length) :
    (r.step ⟨some low, disc⟩).xdm.state = .soh ∧
      (r.step ⟨some low, disc⟩).xdm.tx = r.xdm.tx ++ [xmodemAck] ∧
      (r.step ⟨some low, disc⟩).acked =
        r.acked ++ [Receive.payload (r.received ++ [low]) r.xdm.packet.length] ∧
      (r.step ⟨some low, disc⟩).file = (fileioWrite r.file r.xdm.packet disc).1 := by
  have hrun : ¬r.xdm.isDone = true := by
    unfold isDone
    rw [hstate]
    decide
  have hrx : r.xdm.rxByte low =
      { r.xdm with crc := r.xdm.crc ||| low.setWidth 16, state := .processPacket } := by
    have hrx' : r.xdm.rxByte low = r.xdm.rxCrc1 low := by
      unfold rxByte
      rw [hstate]
    rw [hrx', rxCrc1]
    refine (if_neg (not_not.mpr hcrc)).trans ?_
    have hnot : ¬r.xdm.repeating = true := by
      rw [hnew]
      exact Bool.false_ne_true
    exact if_neg hnot
  have hpoll : (r.listen (some low)).poll =
      ({ r.xdm with
          crc := r.xdm.crc ||| low.setWidth 16
          state := .soh
          tx := r.xdm.tx ++ [xmodemAck]
          lastEventTime := pollTime r.faketime
          blockNum := r.xdm.blockNum + 1#32 }, some (r.xdm.packet, r.xdm.blockNum)) := by
    show (r.xdm.rxByte low).process (r.faketime >>> 2).toNat = _
    have hdue := @process_quiet
      { r.xdm with crc := r.xdm.crc ||| low.setWidth 16, state := .processPacket }
      (r.faketime >>> 2).toNat rfl (tick_pollTime hquiet rfl rfl)
    rw [hrx]
    exact hdue.trans (if_neg (not_not.mpr rfl))
  unfold Receive.step
  rw [if_neg hrun]
  dsimp only
  rw [hpoll]
  dsimp only
  rw [if_pos hpos]
  exact ⟨rfl, rfl, rfl, rfl⟩

theorem inputs_append (bytes bytes' : List (BitVec 8)) (disc : FileIo.Transfer) :
    inputs (bytes ++ bytes') disc = inputs bytes disc ++ inputs bytes' disc := List.map_append

/-- **A new packet that arrives in time is acknowledged**, and written to the file. -/
theorem packet_received (disc : FileIo.Transfer) {r : Receive} {header high low : BitVec 8}
    {payload : List (BitVec 8)} (hquiet : Quiet (payload.length + 5) r)
    (hstate : r.xdm.state = .start ∨ r.xdm.state = .soh)
    (hheader : header = xmodemSoh ∧ payload.length = 128 ∨
      header = xmodemStx ∧ payload.length = 1024)
    (hcrc : payload.foldl crcByte 0#16 = high.setWidth 16 <<< 8 ||| low.setWidth 16)
    {r' : Receive} (hr' : r' = run Receive.step r (inputs ([header, r.xdm.expected false,
      ~~~(r.xdm.expected false)] ++ (payload ++ ([high] ++ [low]))) disc)) :
    r'.xdm.state = .soh ∧ r'.xdm.tx = r.xdm.tx ++ [xmodemAck] ∧
      r'.acked = r.acked ++ [payload] ∧ r'.file = (fileioWrite r.file payload disc).1 := by
  have hpos : 0 < payload.length := by omega
  rw [inputs_append, inputs_append, inputs_append, run_append, run_append, run_append] at hr'
  obtain ⟨hbegun, hquiet₁⟩ := run_header (n := payload.length + 2) disc hquiet hstate hheader
  generalize run Receive.step r (inputs [header, r.xdm.expected false,
    ~~~(r.xdm.expected false)] disc) = r₁ at hr' hbegun hquiet₁
  obtain ⟨data, hpayload, hquiet₂, hslice⟩ := run_data disc payload (List.ne_nil_of_length_pos hpos)
    hquiet₁ (by rw [hbegun]) (by rw [hbegun]; exact Nat.zero_add _)
  generalize run Receive.step r₁ (inputs payload disc) = r₂ at hr' hpayload hquiet₂
  have hhigh : r₂.xdm.rxByte high = { r₂.xdm with
      crc := high.setWidth 16 <<< 8, state := .crc1 } := by
    rw [hpayload]
    rfl
  obtain ⟨hstep, hquiet₃⟩ := step_quiet hquiet₂ hhigh (by rw [hpayload]; rfl) rfl
    (fun h => nomatch h) rfl rfl disc
  replace hr' : r' = (r₂.step ⟨some high, disc⟩).step ⟨some low, disc⟩ := hr'
  generalize r₂.step ⟨some high, disc⟩ = r₃ at hr' hstep hquiet₃
  have hpacket : r₃.xdm.packet = payload := by
    rw [hstep, hpayload]
    show Overlay.slice data 0 r₁.xdm.packetSize = payload
    rw [hslice, hbegun]
    rfl
  have hreceived : r₃.received ++ [low] =
      (r.received ++ [header] ++ [r.xdm.expected false] ++ [~~~(r.xdm.expected false)]) ++
        (payload ++ [high, low]) := by
    rw [hstep, hpayload, hbegun]
    simp
  obtain ⟨hsoh, htx, hacked, hfile⟩ := step_packet disc hquiet₃ (by rw [hstep])
    (by rw [hstep, hpayload, hbegun]) (by rw [hpacket, hcrc, hstep]) (by rw [hpacket]; exact hpos)
  rw [← hr'] at hsoh htx hacked hfile
  rw [hpacket, hreceived, payload_eq] at hacked
  refine ⟨hsoh, htx.trans ?_, hacked.trans ?_, hfile.trans ?_⟩
  · rw [hstep, hpayload, hbegun]
  · rw [hstep, hpayload, hbegun]
  · rw [hpacket, hstep, hpayload, hbegun]

/-- The end of a transfer. -/
theorem step_eot {r : Receive} (hstate : r.xdm.state = .soh) (disc : FileIo.Transfer) :
    (r.step ⟨some xmodemEot, disc⟩).xdm.state = .successful ∧
      (r.step ⟨some xmodemEot, disc⟩).acked = r.acked ∧
      (r.step ⟨some xmodemEot, disc⟩).file = r.file := by
  have hrun : ¬r.xdm.isDone = true := by
    unfold isDone
    rw [hstate]
    decide
  have hrx : r.xdm.rxByte xmodemEot = { r.xdm with state := .successful }.txByte xmodemAck := by
    unfold rxByte
    rw [hstate]
    rfl
  have hpoll : (r.listen (some xmodemEot)).poll =
      ({ r.xdm with state := .successful }.txByte xmodemAck, none) := by
    show (r.xdm.rxByte xmodemEot).process (r.faketime >>> 2).toNat = _
    rw [hrx]
    rfl
  unfold Receive.step
  rw [if_neg hrun]
  dsimp only
  rw [hpoll]
  exact ⟨rfl, rfl, rfl⟩

/-! ### The file -/

/-- If the iteration writes a packet, all bytes of it are stored. -/
def Stored (r : Receive) (i : Input) : Prop :=
  r.xdm.isDone = false → ∀ packet n, (r.listen i.rx).poll.2 = some (packet, n) →
    r.file.stored packet i.disc = packet.length

/-- The file has the acknowledged payloads, and its pointer is at its end. -/
structure Complete (r : Receive) : Prop where
  content : r.file.content = r.acked.flatten
  fptr : r.file.fptr = r.file.content.length

/-- The file is shorter than the acknowledged payloads. -/
def Lossy (r : Receive) : Prop := r.file.content.length < r.acked.flatten.length

theorem complete_step {r : Receive} (h : Sound r) (hcomplete : Complete r) {i : Input}
    (hstored : Stored r i) : Complete (r.step i) := by
  obtain ⟨-, ⟨hacked, hfile, -⟩ | ⟨packet, n, hnot, hpoll, hacked, hfile⟩⟩ := step_spec h i
  · constructor
    · rw [hfile, hacked]
      exact hcomplete.content
    · rw [hfile]
      exact hcomplete.fptr
  · constructor
    · rw [hfile, hacked, FileIo.fileioWrite_content, hcomplete.fptr, Splice.splice_length,
        hstored hnot packet n hpoll, List.take_length, hcomplete.content, List.flatten_append]
      simp
    · rw [hfile]
      exact FileIo.fileioWrite_end hcomplete.fptr packet i.disc

theorem length_write_le (o : OpenFile) (buf : List (BitVec 8)) (disc : FileIo.Transfer) :
    (fileioWrite o buf disc).1.content.length ≤ o.content.length + o.stored buf disc := by
  rw [FileIo.fileioWrite_content, Splice.length_splice o.le,
    List.length_take_of_le (o.stored_le buf disc)]
  have hle := o.le
  omega

theorem lossy_of_not_stored {r : Receive} (h : Sound r) (hcomplete : Complete r) {i : Input}
    (hstored : ¬Stored r i) : Lossy (r.step i) := by
  obtain ⟨-, ⟨hacked, hfile, hnone⟩ | ⟨packet, n, hnot, hpoll, hacked, hfile⟩⟩ := step_spec h i
  · refine absurd ?_ hstored
    intro hnot packet n hpoll
    exact nomatch (hnone hnot).symm.trans hpoll
  · have hshort : r.file.stored packet i.disc ≠ packet.length := by
      intro hall
      apply hstored
      intro _ packet' n' hpoll'
      obtain ⟨rfl, rfl⟩ := Prod.mk.inj (Option.some.inj (hpoll.symm.trans hpoll'))
      exact hall
    have hle := length_write_le r.file packet i.disc
    have hbound := r.file.stored_le packet i.disc
    unfold Lossy
    rw [hfile, hacked, List.flatten_append, List.length_append, ← hcomplete.content]
    simp only [List.flatten_cons, List.flatten_nil, List.append_nil]
    omega

theorem lossy_step {r : Receive} (h : Sound r) (hlossy : Lossy r) (i : Input) :
    Lossy (r.step i) := by
  obtain ⟨-, ⟨hacked, hfile, -⟩ | ⟨packet, n, hnot, hpoll, hacked, hfile⟩⟩ := step_spec h i
  · unfold Lossy
    rw [hfile, hacked]
    exact hlossy
  · have hle := length_write_le r.file packet i.disc
    have hbound := r.file.stored_le packet i.disc
    unfold Lossy at hlossy ⊢
    rw [hfile, hacked, List.flatten_append, List.length_append]
    simp only [List.flatten_cons, List.flatten_nil, List.append_nil]
    omega

/-- What is lost stays lost. -/
theorem lossy_run {r : Receive} (h : Sound r) (hlossy : Lossy r) (is : List Input) :
    Lossy (run Receive.step r is) :=
  (run_invariant_of_step (I := fun r => Sound r ∧ Lossy r)
    (fun _ i hr => ⟨(step_spec hr.1 i).1, lossy_step hr.1 hr.2 i⟩) is ⟨h, hlossy⟩).2

theorem run_content_iff {r : Receive} (h : Sound r) (hcomplete : Complete r) (is : List Input) :
    (run Receive.step r is).file.content = (run Receive.step r is).acked.flatten ↔
      StepsMeet Receive.step Stored r is := by
  induction is generalizing r with
  | nil => exact ⟨fun _ => trivial, fun _ => hcomplete.content⟩
  | cons i is ih =>
    have hsound := (step_spec h i).1
    rw [run_cons]
    by_cases hstored : Stored r i
    · rw [ih hsound (complete_step h hcomplete hstored)]
      exact ⟨fun hrest => ⟨hstored, hrest⟩, fun hall => hall.2⟩
    · have hlossy := lossy_run hsound (lossy_of_not_stored h hcomplete hstored) is
      constructor
      · intro hsame
        unfold Lossy at hlossy
        rw [hsame] at hlossy
        exact absurd hlossy (lt_irrefl _)
      · exact fun hall => absurd hall.1 hstored

theorem complete_start {file : OpenFile} (h : file.content = []) :
    Complete (Receive.start file) := by
  have hle := file.le
  rw [h] at hle
  constructor
  · exact h
  · show file.fptr = file.content.length
    rw [h]
    exact Nat.le_zero.mp hle

/-- A transfer that ends well has left the acknowledged payloads in the file, in order and each
once. -/
def Lossless (r : Receive) : Prop :=
  r.xdm.state = .successful → r.file.content = r.acked.flatten

/-- **A transfer that ends well is lossless** if every write has stored all bytes of its packet, and
only then. -/
theorem receive_lossless_iff {s : FdTable.Sys} {path : List Char}
    {found : Except FdTable.FResult FileIo.Entry} {disc : FileIo.OpenDisc} {file : OpenFile}
    (hopen : (FileIo.fileioOpen s path rxFlags found disc).file = some file) {is : List Input}
    (hdone : (run Receive.step (Receive.start file) is).xdm.state = .successful) :
    Lossless (run Receive.step (Receive.start file) is) ↔
      StepsMeet Receive.step Stored (Receive.start file) is := by
  have hempty : file.content = [] := FileIo.fileioOpen_creat (by decide) hopen
  rw [← run_content_iff (sound_start file) (complete_start hempty) is]
  exact ⟨fun h => h hdone, fun h _ => h⟩

/-- A packet of zeros. -/
def zeros : List (BitVec 8) := List.replicate 128 0#8

theorem crc_zeros (n : ℕ) : (List.replicate n 0#8).foldl crcByte 0#16 = 0#16 := by
  induction n with
  | zero => rfl
  | succ n ih =>
    rw [List.replicate_succ, List.foldl_cons, show crcByte 0#16 0#8 = 0#16 by decide]
    exact ih

/-- A transfer of this packet, where a write stores `stored` bytes. -/
def zerosInputs (stored : ℕ) : List Input :=
  ⟨none, ⟨stored, .FR_OK⟩⟩ :: (inputs ([xmodemSoh, 1#8, 0xfe#8] ++ (zeros ++ ([0#8] ++ [0#8])))
    ⟨stored, .FR_OK⟩ ++ [⟨some xmodemEot, ⟨stored, .FR_OK⟩⟩])

/-- The first iteration starts the timer. -/
theorem step_start (file : OpenFile) (disc : FileIo.Transfer) :
    (Receive.start file).step ⟨none, disc⟩ = { Receive.start file with
      xdm := { XmodemServer.init with lastEventTime := 1 }
      faketime := 1#32 } := by
  have htick : XmodemServer.init.tick 1 = { XmodemServer.init with lastEventTime := 1 } := by
    simp [tick, XmodemServer.init]
  have hpoll : ((Receive.start file).listen none).poll =
      ({ XmodemServer.init with lastEventTime := 1 }, none) := by
    show XmodemServer.init.process ((0#32 >>> 2).toNat : ℕ) = _
    rw [show (((0#32 >>> 2).toNat : ℕ) : ℤ) = 0 by decide, process, if_neg (by decide)]
    dsimp only
    rw [if_pos rfl, htick]
    rfl
  unfold Receive.step
  rw [if_neg (by exact fun h => nomatch h)]
  dsimp only
  rw [hpoll]
  rfl

theorem run_zeros (file : OpenFile) (stored : ℕ) {r : Receive}
    (hr : r = run Receive.step (Receive.start file) (zerosInputs stored)) :
    r.xdm.state = .successful ∧ r.acked = [zeros] ∧
      r.file = (fileioWrite file zeros ⟨stored, .FR_OK⟩).1 := by
  rw [zerosInputs, run_cons, run_append, step_start, run_cons, run_nil] at hr
  have hcrc : zeros.foldl crcByte 0#16 = (0#8).setWidth 16 <<< 8 ||| (0#8).setWidth 16 :=
    (crc_zeros 128).trans (by decide)
  have hlen : zeros.length = 128 := List.length_replicate
  obtain ⟨r₁, hr₁⟩ : ∃ r₁, r₁ = { Receive.start file with
      xdm := { XmodemServer.init with lastEventTime := 1 }, faketime := 1#32 } := ⟨_, rfl⟩
  have hnum : [xmodemSoh, 1#8, 0xfe#8] =
      [xmodemSoh, r₁.xdm.expected false, ~~~(r₁.xdm.expected false)] := by
    have hone : r₁.xdm.expected false = XmodemServer.init.expected false := by
      rw [hr₁]
      rfl
    rw [hone]
    decide
  have hquiet : Quiet (zeros.length + 5) r₁ := by
    rw [hlen, hr₁]
    refine ⟨Int.one_ne_zero, Nat.zero_lt_succ 99, ?_⟩
    show ∀ k < 133, pollTime (1#32 + BitVec.ofNat 32 k) - 1 ≤ 500
    decide +kernel
  rw [← hr₁, hnum] at hr
  obtain ⟨hsoh, -, hacked, hfile⟩ := packet_received ⟨stored, .FR_OK⟩ hquiet
    (Or.inl (by rw [hr₁]; rfl)) (Or.inl ⟨rfl, hlen⟩) hcrc rfl
  obtain ⟨hdone, hacked', hfile'⟩ := step_eot hsoh ⟨stored, .FR_OK⟩
  rw [hr]
  refine ⟨hdone, ?_, ?_⟩
  · rw [hacked', hacked, hr₁]
    rfl
  · rw [hfile', hfile, hr₁]
    rfl

/-- An empty file that is open for writing. -/
def emptyOpen : OpenFile := ⟨0x4a#8, .FR_OK, 0, [], le_rfl⟩

/-- `open` of a file that does not exist. -/
theorem open_emptyOpen : (FileIo.fileioOpen (FdTable.boot fun _ => 0xff#8) "a".toList rxFlags
    (.error .FR_NO_FILE) ⟨.FR_OK, .FR_OK, .FR_OK⟩).file = some emptyOpen := by
  decide +kernel

theorem zeros_lossless_iff :
    Lossless (run Receive.step (Receive.start emptyOpen) (zerosInputs 128)) ↔
      StepsMeet Receive.step Stored (Receive.start emptyOpen) (zerosInputs 128) :=
  receive_lossless_iff open_emptyOpen (run_zeros emptyOpen 128 rfl).1

/-- A packet of which a write stores 100 bytes is acknowledged. -/
theorem short_write_lost :
    ¬Lossless (run Receive.step (Receive.start emptyOpen) (zerosInputs 100)) := by
  obtain ⟨hdone, hacked, hfile⟩ := run_zeros emptyOpen 100 rfl
  intro hlossless
  have hlen := congrArg List.length (hlossless hdone)
  have hle := length_write_le emptyOpen zeros ⟨100, .FR_OK⟩
  rw [hacked, hfile] at hlen
  rw [hlen] at hle
  revert hle
  decide +kernel

end Filestick.Xmodem
