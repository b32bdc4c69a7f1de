import Filestick.System.Equiv.EconetDelivery
import Filestick.System.Equiv.EconetFrames
import Filestick.System.Message

/-!
# The messages of the file server

A frame comes to the file server through the registers of the receiver, `.data_ack`, `econet_read`
and `econet_msgloop`.

* `handles_data_iff`: what a turn of the loop makes of the bytes that a read returns.
* `counted_run`: the registers count the bytes of a frame modulo 2048.
* `msgloop_handles_iff`: which frames the message loop does right by; frames on a clean line are
  among them if their length is right (`deliverable_of_clean`).
-/

namespace Filestick.FileServer

open RawEconet Driver

/-! ### A turn of the loop -/

/-- A turn does right by a frame: it stores inside the buffer only, and its message has the bytes
behind the header of seven as its payload; a frame without such a header makes no message. -/
structure Turn.Handles (t : Turn) (frame : List (BitVec 8)) : Prop where
  inside : ∀ i ∈ t.stores, i < bufSize
  message : match t.msg with
    | none => (RawEconet.payload frame).length < 7
    | some msg =>
      7 ≤ (RawEconet.payload frame).length ∧ t.payload msg = (RawEconet.payload frame).drop 7

theorem readInto_of_lt {mem : ℕ → BitVec 8} {bytes : List (BitVec 8)} {i : ℕ}
    (hi : i < bytes.length) : readInto mem bytes i = bytes[i] := by
  rw [readInto, if_pos hi, List.getD_eq_getElem?_getD, List.getElem?_eq_getElem hi]
  rfl

section Turn

variable (mem : ℕ → BitVec 8) (port : BitVec 8) {bytes : List (BitVec 8)}

theorem slt_seven {n : ℕ} (hn : n ≤ 2048) : (BitVec.ofNat 32 n).slt 7#32 = decide (n < 7) := by
  have hint : (BitVec.ofNat 32 n).toInt = n := by
    rw [BitVec.toInt_eq_toNat_of_lt, BitVec.toNat_ofNat, Nat.mod_eq_of_lt (by omega)]
    rw [BitVec.toNat_ofNat, Nat.mod_eq_of_lt (by omega)]
    omega
  rw [BitVec.slt, hint, decide_eq_decide]
  show (n : Int) < 7 ↔ n < 7
  omega

theorem econetMsgloop_short (h : bytes.length < 7) :
    econetMsgloop mem (.data port bytes) =
      ⟨readInto mem bytes, List.range bytes.length, none⟩ := by
  have hslt : (BitVec.ofNat 32 bytes.length).slt 7#32 = true := by
    rw [slt_seven (by omega)]
    exact decide_eq_true h
  simp only [econetMsgloop, rxbytes, copied, hslt, if_true]

/-- The message of a turn, when the read returns its header. -/
theorem econetMsgloop_message (h : 7 ≤ bytes.length) (hle : bytes.length ≤ 2048) :
    ∃ msg, econetMsgloop mem (.data port bytes) =
        ⟨Function.update (readInto mem bytes) bytes.length 0#8,
          List.range bytes.length ++ [bytes.length], some msg⟩ ∧
      msg.functionCode = bytes[3].setWidth 32 ∧ msg.paysize.toNat = bytes.length - 7 ∧
      msg.payload = 7 := by
  have hslt : (BitVec.ofNat 32 bytes.length).slt 7#32 = false := by
    rw [slt_seven hle]
    exact decide_eq_false (by omega)
  have hlen : (BitVec.ofNat 32 bytes.length).toNat = bytes.length := by
    rw [BitVec.toNat_ofNat]
    omega
  have hsize : ((BitVec.ofNat 32 bytes.length - 7#32).setWidth 16).toNat = bytes.length - 7 := by
    rw [BitVec.toNat_setWidth, BitVec.toNat_sub, hlen]
    show (2 ^ 32 - 7 + bytes.length) % 2 ^ 32 % 2 ^ 16 = bytes.length - 7
    omega
  simp only [econetMsgloop, rxbytes, copied, hslt, Bool.false_eq_true, if_false, hlen]
  refine ⟨_, rfl, ?_, hsize, rfl⟩
  show (readInto mem bytes 3).setWidth 32 = bytes[3].setWidth 32
  rw [readInto_of_lt (by omega)]

theorem econetMsgloop_long (h : 7 ≤ bytes.length) (hle : bytes.length ≤ 2048) :
    ∃ msg, (econetMsgloop mem (.data port bytes)).msg = some msg ∧
      (econetMsgloop mem (.data port bytes)).stores =
        List.range bytes.length ++ [bytes.length] ∧
      (econetMsgloop mem (.data port bytes)).payload msg = bytes.drop 7 := by
  obtain ⟨msg, hturn, -, hsize, hpayload⟩ := econetMsgloop_message mem port h hle
  rw [hturn]
  refine ⟨msg, rfl, rfl, ?_⟩
  rw [Turn.payload, hsize, hpayload]
  apply List.ext_getElem
  · simp
  · intro i hi hi'
    rw [List.length_map, List.length_range] at hi
    rw [List.getElem_map, List.getElem_range, List.getElem_drop]
    show Function.update (readInto mem bytes) bytes.length 0#8 (7 + i) = _
    rw [Function.update_of_ne (by omega), readInto_of_lt (by omega)]

/-- **A turn does right by a frame** when the read leaves room for the 0 behind the bytes, and
returns what is behind the header of the frame, if the frame has one. -/
theorem handles_data_iff (hle : bytes.length ≤ 2048) (frame : List (BitVec 8)) :
    (econetMsgloop mem (.data port bytes)).Handles frame ↔
      bytes.length < 2048 ∧
        (bytes.length < 7 ∧ (RawEconet.payload frame).length < 7 ∨
          7 ≤ bytes.length ∧ 7 ≤ (RawEconet.payload frame).length ∧
            bytes.drop 7 = (RawEconet.payload frame).drop 7) := by
  rcases Nat.lt_or_ge bytes.length 7 with hlt | hge
  · rw [econetMsgloop_short mem port hlt]
    constructor
    · rintro ⟨-, hmsg⟩
      exact ⟨by omega, Or.inl ⟨hlt, hmsg⟩⟩
    · rintro ⟨-, ⟨-, hshort⟩ | ⟨hge, -⟩⟩
      · refine ⟨fun i hi => ?_, hshort⟩
        have : i < bytes.length := List.mem_range.mp hi
        show i < 2048
        omega
      · omega
  · obtain ⟨msg, hmsg, hstores, hpayload⟩ := econetMsgloop_long mem port hge hle
    constructor
    · rintro ⟨hinside, hm⟩
      rw [hmsg] at hm
      rw [hstores] at hinside
      refine ⟨hinside bytes.length (by simp), Or.inr ⟨hge, hm.1, ?_⟩⟩
      rw [← hpayload]
      exact hm.2
    · rintro ⟨hroom, ⟨hlt, -⟩ | ⟨-, hframe, hdrop⟩⟩
      · omega
      · constructor
        · rw [hstores]
          intro i hi
          show i < 2048
          rcases List.mem_append.mp hi with hi | hi
          · have : i < bytes.length := List.mem_range.mp hi
            omega
          · rw [List.mem_singleton.mp hi]
            exact hroom
        · rw [hmsg]
          refine ⟨hframe, ?_⟩
          rw [hpayload]
          exact hdrop

end Turn

/-! ### The count of the receiver -/

/-- The receiver is as its record says, and counts the bytes of a frame that waits modulo 2048. -/
structure Counted (d : Driver) : Prop where
  inv : RxInv d.rx d.log.frame
  count : d.frameValid = true → d.rx.regs.validCnt = BitVec.ofNat 11 d.log.accepted.length

theorem frameEnd_of_accepts {d : Driver} (h : d.accepts = true) :
    d.rx.econet.receiver.frameEnd = true := by
  simp only [accepts, RxRegs.ourFrame, RxRegs.monitorFrame, Econet.signals, Bool.or_eq_true,
    Bool.and_eq_true] at h
  rcases h with h | h
  · exact h.1.1.1
  · exact h.1

theorem Counted.hw {d : Driver} (h : Counted d) (i : Hw) : Counted (d.hw i) := by
  refine ⟨rxInv_hw h.inv i, fun hv => ?_⟩
  by_cases hi : i = .rise
  · subst hi
    cases hacc : d.accepts with
    | true =>
      have hend := frameEnd_of_accepts hacc
      have hfs := h.inv.frameStart_of_frameEnd hend
      have hopened : d.log.frame.opened = true := by
        simpa [hfs] using h.inv.opened (Or.inr (Or.inr hend))
      rw [rise_accepted hacc, (hw_rise d).1,
        (step_clk_latchValid d.rx d.econetRx d.transmitting hacc).2.2.1]
      exact h.inv.econetCtr hfs hopened
    | false =>
      obtain ⟨-, hcnt, haccepted, -⟩ := rise_regs hacc
      rw [hw_frameValid, hacc, Bool.and_false, Bool.or_false] at hv
      rw [hcnt, haccepted]
      exact h.count hv
  · obtain ⟨hrx, hlog⟩ := hw_rx d hi
    rw [frameValid, hrx] at hv
    rw [hrx, hlog]
    exact h.count hv

theorem Counted.act {d : Driver} (h : Counted d) {f : Driver → Driver} (hf : RegistersOnly f) :
    Counted (f d) := by
  obtain ⟨⟨hframe, haccepted⟩, hrx⟩ := hf d
  have hlower := hf.lowers d
  rcases hrx with hrx | ⟨a, wr, v, hrx⟩
  · refine ⟨by rw [hrx, hframe]; exact h.inv, fun hv => ?_⟩
    rw [hrx, haccepted]
    exact h.count (hlower hv)
  · refine ⟨by rw [hrx, hframe]; exact h.inv.sysWrite a wr v, fun hv => ?_⟩
    rw [hrx, haccepted]
    exact h.count (hlower hv)

/-- The accesses that are left write to registers of the receiver at most. -/
abbrev Registers (y : System) : Prop :=
  y.ActsBy (fun _ f => RegistersOnly f) fun _ f => RegistersOnly f

theorem Counted.step {y : System} (h : Counted y.shared) (hy : Registers y) (e : NetEvent) :
    Counted (Interrupted.step netKernel y e).shared := by
  rcases hy.shared (K := netKernel) e with hs | ⟨i, hs⟩ | ⟨a, hs⟩ | ⟨_, f, -, -, hf, hs⟩ |
    ⟨_, f, -, -, hf, hs⟩
  · rw [hs]
    exact h
  · rw [hs]
    exact h.hw i
  · rw [hs]
    cases a <;> exact ⟨h.inv, h.count⟩
  · rw [hs]
    exact h.act hf
  · rw [hs]
    exact h.act hf

/-- In every state that is reached. -/
theorem counted_run {y : System} (hy : Init y) (es : List NetEvent) :
    Counted (Machine.run (Interrupted.step netKernel) y es).shared := by
  have hinit : Counted y.shared := by
    constructor
    · rw [hy.frame]
      exact .afterReset hy.reset
    · intro hv
      exact absurd (hy.frameValid.symm.trans hv) Bool.false_ne_true
  have hacts : Registers y := by
    constructor
    · rw [hy.thread]
      exact fun _ h => (nomatch h)
    · rw [hy.isr]
      exact fun _ h => (nomatch h)
  have hstep : ∀ (y : System) (e : NetEvent), Counted y.shared ∧ Registers y →
      Counted (Interrupted.step netKernel y e).shared ∧
        Registers (Interrupted.step netKernel y e) :=
    fun _ e h => ⟨h.1.step h.2 e, h.2.step registersOnly_code registersOnly_isrTrap e⟩
  exact (Machine.run_invariant_of_step hstep es ⟨hinit, hacts⟩).1

/-! ### From the receiver to the message -/

/-- The frame is neither too short nor too long, and what it has behind its header, if it has one,
is where the buffer `buf` should have it. -/
def Deliverable (d : Driver) (buf : BitVec 11 → BitVec 8) : Prop :=
  (4 ≤ d.log.accepted.length ∧ d.log.accepted.length < 2048) ∧
    (d.log.accepted.length ≤ 10 ∨
      Ring.slice buf (d.rx.regs.validStart + 9#11) (d.log.accepted.length - 11)
        = (RawEconet.payload d.log.accepted).drop 7)

instance (d : Driver) (buf : BitVec 11 → BitVec 8) : Decidable (Deliverable d buf) :=
  inferInstanceAs (Decidable ((_ ∧ _) ∧ (_ ∨ _)))

/-- The length that `.data_ack` computes, for a frame of `n` bytes. -/
theorem bufLen_toNat (n : ℕ) : ((BitVec.ofNat 11 n).setWidth 32 - 4#32).toNat =
    if n % 2048 < 4 then 2 ^ 32 - 4 + n % 2048 else n % 2048 - 4 := by
  rw [BitVec.toNat_sub, BitVec.toNat_setWidth, BitVec.toNat_ofNat]
  show (2 ^ 32 - 4 + n % 2048 % 2 ^ 32) % 2 ^ 32 = _
  split <;> omega

theorem length_payload (frame : List (BitVec 8)) :
    (RawEconet.payload frame).length = frame.length - 4 := by
  rw [RawEconet.payload, List.length_take, List.length_drop]
  omega

/-- **A frame that is counted modulo 2048**, and the turn that reads it. -/
theorem handles_slice_iff (mem : ℕ → BitVec 8) (port : BitVec 8) {d : Driver}
    (hcount : d.rx.regs.validCnt = BitVec.ofNat 11 d.log.accepted.length)
    (buf : BitVec 11 → BitVec 8) :
    (econetMsgloop mem (.data port (Ring.slice buf (d.rx.regs.validStart + 2#11)
      (min 2048 (rxLen d - 4#32).toNat)))).Handles d.log.accepted ↔ Deliverable d buf := by
  have hlen := bufLen_toNat d.log.accepted.length
  rw [← hcount, ← rxLen] at hlen
  have hpay := length_payload d.log.accepted
  rw [handles_data_iff mem port (by rw [Ring.length_slice]; omega), Ring.length_slice, hpay,
    Deliverable]
  generalize (rxLen d - 4#32).toNat = n at hlen
  by_cases hshort : d.log.accepted.length % 2048 < 4
  · rw [if_pos hshort] at hlen
    constructor
    · rintro ⟨hlt, -⟩
      omega
    · rintro ⟨⟨h4, h2048⟩, -⟩
      omega
  · rw [if_neg hshort] at hlen
    have hn : min 2048 n = d.log.accepted.length % 2048 - 4 := by omega
    rw [hn]
    constructor
    · rintro ⟨-, ⟨hlt, hframe⟩ | ⟨hge, hframe, hdrop⟩⟩
      · exact ⟨by omega, Or.inl (by omega)⟩
      · -- the two payloads have the same length
        have heq := congrArg List.length hdrop
        rw [List.length_drop, List.length_drop, Ring.length_slice, hpay] at heq
        refine ⟨by omega, Or.inr ?_⟩
        rw [Ring.drop_slice buf _ hge, BitVec.add_assoc] at hdrop
        rw [← hdrop]
        congr 1
        omega
    · rintro ⟨⟨h4, h2048⟩, hmem⟩
      refine ⟨by omega, ?_⟩
      rcases Nat.lt_or_ge 10 d.log.accepted.length with hlong | hle
      · right
        refine ⟨by omega, by omega, ?_⟩
        rw [Ring.drop_slice buf _ (by omega), BitVec.add_assoc, ← hmem.resolve_left (by omega)]
        congr 1
        omega
      · exact Or.inl ⟨by omega, by omega⟩

/-- A data frame for the port of a descriptor waits for the handler. -/
structure DataWaits (fd : Fd) (d : Driver) : Prop where
  frameValid : d.frameValid = true
  monitorMode : d.rx.regs.monitorMode = false
  state : d.vars.handshakeState = 1#32
  port : d.vars.fdRxPortmap fd = d.vars.pendingPort.setWidth 8
  bound : d.vars.fdRxPortmap fd ≠ 0#8

instance (fd : Fd) (d : Driver) : Decidable (DataWaits fd d) :=
  decidable_of_iff (d.frameValid = true ∧ d.rx.regs.monitorMode = false ∧
      d.vars.handshakeState = 1#32 ∧ d.vars.fdRxPortmap fd = d.vars.pendingPort.setWidth 8 ∧
      d.vars.fdRxPortmap fd ≠ 0#8)
    ⟨fun ⟨h1, h2, h3, h4, h5⟩ => ⟨h1, h2, h3, h4, h5⟩,
      fun h => ⟨h.frameValid, h.monitorMode, h.state, h.port, h.bound⟩⟩

/-- `.data_ack` has marked the port of a descriptor as ready, with this start and length. -/
structure DataReady (fd : Fd) (start len : BitVec 32) (d : Driver) : Prop where
  monitorMode : d.rx.regs.monitorMode = false
  bufStart : d.vars.bufStart = start
  bufLen : d.vars.bufLen = len
  bound : d.vars.fdRxPortmap fd ≠ 0#8
  flag : d.flag (d.vars.fdRxPortmap fd) = true

/-- The handler has taken a frame. -/
def takeFrame (d : Driver) : Driver :=
  { d with rx := d.rx.step (.sysWrite 7#4 1#4 1#32), timer := d.timer.writeStatus 1#32 }

/-- The handler goes to `.data_ack`. -/
theorem isrTrap_taken {d : Driver} (hv : d.frameValid = true) (hm : d.rx.regs.monitorMode = false)
    (hs : d.vars.handshakeState = 1#32) : isrTrap.alone d = dataAck.alone (takeFrame d) := by
  have hmode : (d.rx.step (.sysWrite 7#4 1#4 1#32)).regs.monitorMode = false := hm
  rw [isrTrap, load, Prog.alone_read, if_pos hv, RawEconet.econetRx, Prog.alone_modify,
    storeTimer, Prog.alone_modify, load, Prog.alone_read]
  simp only [hmode, Bool.false_eq_true, if_false, load, Prog.alone_read, hs]
  rw [if_neg (by decide), if_pos trivial]
  rfl

/-- What the handler makes of a data frame. -/
theorem isrTrap_data {fd : Fd} {d : Driver} (h : DataWaits fd d) :
    ∃ d', isrTrap.alone d = some ((), d') ∧
      DataReady fd (d.rx.regs.validStart.setWidth 32 + 2#32) (rxLen d - 4#32) d' ∧
      d'.rx.regs.econetBuf = d.rx.regs.econetBuf := by
  have hflag : (Function.update d.vars.portList (d.vars.pendingPort.setWidth 8)
      (d.vars.portList (d.vars.pendingPort.setWidth 8) ||| 0x80#8)
      (d.vars.fdRxPortmap fd)).getLsbD 7 = true := by
    rw [h.port, Function.update_self, BitVec.getLsbD_or]
    simp
  rw [isrTrap_taken h.frameValid h.monitorMode h.state]
  exact ⟨_, rfl, ⟨h.monitorMode, rfl, rfl, h.bound, hflag⟩, rfl⟩

/-- The hardware leaves the variables and the mode. -/
theorem DataReady.hw {fd : Fd} {start len : BitVec 32} {d : Driver}
    (h : DataReady fd start len d) (i : Hw) : DataReady fd start len (d.hw i) := by
  have hvars := (hw_vars d i).1
  refine ⟨(hw_monitorMode d i).trans h.monitorMode, ?_, ?_, ?_, ?_⟩
  · rw [hvars]; exact h.bufStart
  · rw [hvars]; exact h.bufLen
  · rw [hvars]; exact h.bound
  · show ((d.hw i).vars.portList ((d.hw i).vars.fdRxPortmap fd)).getLsbD 7 = true
    rw [hvars]
    exact h.flag

theorem DataReady.run_hw {fd : Fd} {start len : BitVec 32} {d : Driver}
    (h : DataReady fd start len d) (is : List Hw) :
    DataReady fd start len (Machine.run Driver.hw d is) := by
  apply Machine.run_invariant_of_step _ is h
  exact fun _ i h => h.hw i

/-- What `econet_read` returns to the message loop. -/
theorem econetRead_ready (fd : Fd) (ptr : BitVec 32) {start : BitVec 11} {len : BitVec 32}
    {d : Driver} (h : DataReady fd (start.setWidth 32 + 2#32) len d) :
    ∃ d', (econetRead fd ptr 2048#32).alone d = some (.data (d.vars.fdRxPortmap fd)
      (Ring.slice d.rx.regs.econetBuf (start + 2#11) (min 2048 len.toNat)), d') := by
  obtain ⟨d', halone, -⟩ := econetRead_alone fd ptr 2048#32 h.monitorMode h.bound h.flag
  have hstart : d.vars.bufStart.setWidth 11 = start + 2#11 := by
    rw [h.bufStart]
    bv_omega
  refine ⟨d', ?_⟩
  rw [halone, buffered, if_pos h.flag, Ring.take_slice, hstart, h.bufLen]
  rfl

/-- **What the message loop makes of a data frame**, in every state that is reached: the handler
runs, the hardware makes these moves, and the loop reads.  The loop does right by the frame if and
only if the frame is `Deliverable`, from the buffer when it is read. -/
theorem msgloop_handles_iff (y : System) (hy : Init y) (es : List NetEvent) (fd : Fd)
    (hd : DataWaits fd (Machine.run (Interrupted.step netKernel) y es).shared) (is : List Hw)
    (ptr : BitVec 32) (mem : ℕ → BitVec 8) :
    ∃ d₁ d₂ reply,
      isrTrap.alone (Machine.run (Interrupted.step netKernel) y es).shared = some ((), d₁) ∧
      (econetRead fd ptr 2048#32).alone (Machine.run Driver.hw d₁ is) = some (reply, d₂) ∧
      ((econetMsgloop mem reply).Handles
          (Machine.run (Interrupted.step netKernel) y es).shared.log.accepted ↔
        Deliverable (Machine.run (Interrupted.step netKernel) y es).shared
          (Machine.run Driver.hw d₁ is).rx.regs.econetBuf) := by
  have hcounted := counted_run hy es
  generalize (Machine.run (Interrupted.step netKernel) y es).shared = d at hd hcounted
  obtain ⟨d₁, hisr, hready, -⟩ := isrTrap_data hd
  obtain ⟨d₂, hread⟩ := econetRead_ready fd ptr (hready.run_hw is)
  refine ⟨d₁, d₂, _, hisr, hread, ?_⟩
  exact handles_slice_iff mem _ (hcounted.count hd.frameValid) _

/-- A frame of a right length that is in the buffer is deliverable. -/
theorem deliverable_of_pending {d : Driver} (h : Pending d) (hsince : d.log.since ≤ 2048)
    (hlen : d.log.accepted.length < 2048) : Deliverable d d.rx.regs.econetBuf := by
  refine ⟨⟨h.le, hlen⟩, ?_⟩
  rcases Nat.lt_or_ge 10 d.log.accepted.length with hlong | hle
  · right
    have hslice := h.tracked.slice_eq hsince
      (show 9 + (d.log.accepted.length - 11) ≤ d.log.accepted.length by omega)
    rw [RawEconet.payload, List.drop_take, List.drop_drop]
    convert hslice using 2
    omega
  · exact Or.inl hle

/-- A frame on a clean line is deliverable when it is accepted, if its length is right. -/
theorem deliverable_of_clean {d : Driver} (h : RxShared d) (hacc : d.accepts = true)
    (hclean : d.log.frame.clean = true) (h4 : 4 ≤ d.log.frame.bytes.length)
    (hlen : d.log.frame.bytes.length < 2048) :
    Deliverable (d.hw .rise) (d.hw .rise).rx.regs.econetBuf := by
  apply deliverable_of_pending (rise_accepts h hacc hclean h4 hlen)
  · have hsince : (d.hw .rise).log.since = d.log.frame.bytes.length + stored d := by
      rw [(hw_rise d).2]
      simp only [RxLog.rise, hacc, FrameLog.content, hclean, if_true, List.nil_append]
      rfl
    rw [hsince, stored]
    split <;> omega
  · rw [rise_accepted hacc]
    exact hlen

/-- Station 1 sends a scout for the port of the file server, and then these bytes as data. -/
def dataFromPeer (bytes : List (BitVec 8)) : List NetEvent :=
  (fromPeer [0x80#8, 0x99#8] ++ handled ++ fromPeer bytes).map Event.net

/-- A command of two letters, for the function 0 and with the reply port `0x90`. -/
def command : List (BitVec 8) := [0x90#8, 0#8, 0#8, 0#8, 0#8, 0x49#8, 0x0D#8]

/-- The command waits for the handler. -/
theorem command_waits : Machine.RunsTo (Interrupted.step netKernel)
    (fun y _ => y.shared.rx.regs.monitorMode = false)
    (fun y => DataWaits 3 y.shared ∧
      y.shared.log.accepted = checked ([0x42#8, 0#8, 1#8, 0#8] ++ command) ∧
      Deliverable y.shared y.shared.rx.regs.econetBuf)
    station (dataFromPeer command) := by
  decide +kernel

/-- The message loop does right by the command. -/
theorem command_handled :
    ∃ d₁ d₂ reply,
      isrTrap.alone (Machine.run (Interrupted.step netKernel) station
        (dataFromPeer command)).shared = some ((), d₁) ∧
      (econetRead 3 0#32 2048#32).alone d₁ = some (reply, d₂) ∧
      (econetMsgloop (fun _ => 0#8) reply).Handles
        (checked ([0x42#8, 0#8, 1#8, 0#8] ++ command)) := by
  obtain ⟨hwaits, haccepted, hdeliverable⟩ := command_waits.run
  obtain ⟨d₁, d₂, reply, hisr, hread, hiff⟩ := msgloop_handles_iff station init_station
    (dataFromPeer command) 3 hwaits [] 0#32 fun _ => 0#8
  refine ⟨d₁, d₂, reply, hisr, hread, ?_⟩
  obtain ⟨d', hisr', -, hbuf⟩ := isrTrap_data hwaits
  obtain rfl : d₁ = d' := by simpa using hisr.symm.trans hisr'
  rw [← haccepted]
  apply hiff.mpr
  rw [Machine.run_nil, hbuf]
  exact hdeliverable

/-- Station `0x6E`, with descriptor 3 bound to the port of the file server. -/
def station6E : System :=
  { station with shared :=
    { station.shared with
      rx := .powerUp 0x006E#16
      vars := { station.shared.vars with econetAddress := 0x006E#16 } } }

theorem init_station6E : Init station6E where
  thread := rfl
  isr := rfl
  reset := BufferedEconet.afterReset_powerUp _
  frameValid := rfl
  tx := ⟨_, rfl⟩
  handshakeState := rfl
  pendingPort := rfl
  flag := by decide
  frame := rfl
  deliv := rfl

/-- A frame of three bytes that passes the check. -/
def shortFrame : List (BitVec 8) := [0x6E#8, 0x00#8, 0x7A#8]

/-- Station 1 sends a scout for the port of the file server, and then the short frame. -/
def shortRun : List NetEvent :=
  (onLine (frameOnLine (checked [0x6E#8, 0#8, 1#8, 0#8, 0x80#8, 0x99#8]) ++ [true, true]) ++
    handled ++ onLine (frameOnLine shortFrame ++ [true, true])).map Event.net

/-- The short frame waits for the handler. -/
theorem shortFrame_waits : Machine.RunsTo (Interrupted.step netKernel)
    (fun y _ => y.shared.rx.regs.monitorMode = false)
    (fun y => DataWaits 3 y.shared ∧ y.shared.rx.regs.validCnt = 3#11 ∧
      y.shared.log.accepted = shortFrame) station6E shortRun := by
  decide +kernel

/-- The read of the short frame fills the whole buffer, and the 0 is stored behind it. -/
theorem shortFrame_overruns :
    Init station6E ∧
      ∃ d₁ d₂ reply,
        isrTrap.alone (Machine.run (Interrupted.step netKernel) station6E shortRun).shared
          = some ((), d₁) ∧
        (econetRead 3 0#32 2048#32).alone d₁ = some (reply, d₂) ∧
        2048 ∈ (econetMsgloop (fun _ => 0#8) reply).stores ∧
        ¬(econetMsgloop (fun _ => 0#8) reply).Handles shortFrame := by
  obtain ⟨hwaits, hcnt, -⟩ := shortFrame_waits.run
  generalize (Machine.run (Interrupted.step netKernel) station6E shortRun).shared = d
    at hwaits hcnt
  obtain ⟨d₁, hisr, hready, -⟩ := isrTrap_data hwaits
  obtain ⟨d₂, hread⟩ := econetRead_ready 3 0#32 hready
  have hlen : min 2048 (rxLen d - 4#32).toNat = 2048 := by
    rw [rxLen, hcnt]
    decide
  rw [hlen] at hread
  have hslice := Ring.length_slice d₁.rx.regs.econetBuf (d.rx.regs.validStart + 2#11) 2048
  obtain ⟨-, -, hstores, -⟩ := econetMsgloop_long (fun _ => 0#8) (d₁.vars.fdRxPortmap 3)
    (le_of_le_of_eq (by decide) hslice.symm) hslice.le
  rw [hslice] at hstores
  have hmem : 2048 ∈ (econetMsgloop (fun _ => 0#8) (.data (d₁.vars.fdRxPortmap 3)
      (Ring.slice d₁.rx.regs.econetBuf (d.rx.regs.validStart + 2#11) 2048))).stores := by
    rw [hstores]
    exact List.mem_append_right _ (List.mem_singleton_self _)
  refine ⟨init_station6E, d₁, d₂, _, hisr, hread, hmem, fun h => ?_⟩
  exact absurd (h.inside 2048 hmem) (by decide)

end Filestick.FileServer
