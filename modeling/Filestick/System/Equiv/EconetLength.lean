import Filestick.Lib.Finishes
import Filestick.System.Equiv.Message

/-!
# The length of a data frame

`.data_ack` computes the length of the payload from the byte counter of the receiver, which has
eleven bits, without a check.

* `isrTrap_length`: what the handler stores, whatever the clocks and the line do meanwhile.
* `bufLen_iff`: the length is right for the frames of 4 to 2047 bytes, and for no others.
-/

namespace Filestick.RawEconet

open Driver

/-- The hardware makes moves that accept no frame. -/
def NoFrame (d d' : Driver) : Prop :=
  ∃ is, Machine.StepsMeet Driver.hw (fun d i => i = .rise → d.accepts = false) d is ∧
    d' = Machine.run Driver.hw d is

theorem noFrame_refl (d : Driver) : NoFrame d d := ⟨[], trivial, rfl⟩

/-- What the handler reads when it looks at a data frame. -/
def dataPart (d : Driver) : Vars × BitVec 11 × Bool × Bool :=
  (d.vars, d.rx.regs.validCnt, d.rx.regs.monitorMode, d.frameValid)

theorem dataPart_hw {d : Driver} {i : Hw} (hi : i = .rise → d.accepts = false) :
    dataPart (d.hw i) = dataPart d := by
  have hcnt : (d.hw i).rx.regs.validCnt = d.rx.regs.validCnt := by
    by_cases hrise : i = .rise
    · rw [hrise]
      exact (rise_regs (hi hrise)).2.1
    · rw [(hw_rx d hrise).1]
  have hvalid : (d.hw i).frameValid = d.frameValid := by
    rw [hw_frameValid]
    by_cases hrise : i = .rise
    · rw [hi hrise, Bool.and_false, Bool.or_false]
    · simp [hrise]
  rw [dataPart, dataPart, (hw_vars d i).1, hcnt, hw_monitorMode, hvalid]

theorem NoFrame.dataPart_eq {d d' : Driver} (h : NoFrame d d') : dataPart d' = dataPart d := by
  obtain ⟨is, his, rfl⟩ := h
  exact Machine.run_invariant (I := fun d' => dataPart d' = dataPart d)
    (fun _ _ hd hi => (dataPart_hw hi).trans hd) is d rfl his

/-- The handler relies on the variables, and on the registers of the last frame. -/
def lengthHandler : Contract Driver where
  inv _ := True
  rely d d' := dataPart d' = dataPart d
  refl _ := rfl
  trans h h' := h'.trans h

/-- A fact of what the handler reads. -/
theorem stable_dataPart (P : Vars × BitVec 11 × Bool × Bool → Prop) :
    Stable lengthHandler fun d => P (dataPart d) := by
  intro d d' hr _ h
  have heq : dataPart d' = dataPart d := hr
  show P (dataPart d')
  rw [heq]
  exact h

/-- A data frame of some length waits, which the handler has taken or not. -/
structure Awaits (cnt : BitVec 11) (v : Vars × BitVec 11 × Bool × Bool) : Prop where
  state : v.1.handshakeState = 1#32
  count : v.2.1 = cnt
  monitorMode : v.2.2.1 = false

section Handler

variable {cnt : BitVec 11} {d : Driver}

/-- What is shown of a piece of the handler. -/
abbrev StoresLength (cnt : BitVec 11) (p : Code Unit) (d : Driver) : Prop :=
  Safe lengthHandler anyAccess anyAccess
    (fun _ d' => d'.vars.bufLen = cnt.setWidth 32 - 4#32) p d

/-- An access that keeps a fact, and the code behind it. -/
theorem length_then {A B : Vars × BitVec 11 × Bool × Bool → Prop} (hd : A (dataPart d)) {l : Access}
    {f : Driver → Driver} (hf : ∀ d, A (dataPart d) → B (dataPart (f d))) {q : Unit → Code Unit}
    (h : ∀ d, B (dataPart d) → StoresLength cnt (q ()) d) :
    StoresLength cnt (Prog.modify l f >>= q) d :=
  safe_modify_stable (B := fun d => B (dataPart d)) (stable_dataPart A) hd
    (fun d _ _ hd => ⟨trivial, trivial, hf d hd⟩) fun d _ hd => h d hd

theorem length_load {α : Type} {A : Vars × BitVec 11 × Bool × Bool → Prop} (hd : A (dataPart d))
    {l : Access} {f : Driver → α} {q : α → Code Unit}
    (h : ∀ d, A (dataPart d) → StoresLength cnt (q (f d)) d) :
    StoresLength cnt (Prog.read l f >>= q) d :=
  safe_read_stable (stable_dataPart A) hd (fun _ _ _ => trivial) fun d _ _ hd => h d hd

/-- `.data_ack`. -/
theorem dataAck_length (hd : Awaits cnt (dataPart d)) : StoresLength cnt dataAck d := by
  have hkeep : ∀ {d d' : Driver}, Awaits cnt (dataPart d) → d'.vars.handshakeState =
      d.vars.handshakeState → d'.rx.regs.validCnt = d.rx.regs.validCnt →
      d'.rx.regs.monitorMode = d.rx.regs.monitorMode → Awaits cnt (dataPart d') :=
    fun h h1 h2 h3 => ⟨h1.trans h.state, h2.trans h.count, h3.trans h.monitorMode⟩
  refine length_load (A := Awaits cnt) hd fun d hd => ?_
  refine length_load (A := Awaits cnt) hd fun d hd => ?_
  refine length_then (A := Awaits cnt) (B := Awaits cnt) hd ?_ fun d hd => ?_
  · exact fun d hd => hkeep hd rfl rfl rfl
  -- from here on the state of the handshake is another one, and only the counter matters
  refine length_then (A := Awaits cnt) (B := fun v => v.2.1 = cnt) hd ?_ fun d hd => ?_
  · exact fun d hd => hd.count
  refine length_load (A := fun v => v.2.1 = cnt) hd fun d hd => ?_
  refine length_then (A := fun v => v.2.1 = cnt) (B := fun v => v.2.1 = cnt) hd ?_ fun d hd => ?_
  · exact fun d hd => hd
  refine length_load (A := fun v => v.2.1 = cnt) hd fun d hd => ?_
  have hlen : rxLen d = cnt.setWidth 32 := congrArg (BitVec.setWidth 32) hd
  rw [hlen]
  refine length_then (A := fun v => v.2.1 = cnt)
    (B := fun v => v.1.bufLen = cnt.setWidth 32 - 4#32) hd ?_ fun d hd => ?_
  · exact fun _ _ => rfl
  refine safe_of_acts (A := fun d => d.vars.bufLen = cnt.setWidth 32 - 4#32)
    (stable_dataPart fun v => v.1.bufLen = cnt.setWidth 32 - 4#32)
    (frame_econetAck.mono fun l f hf d _ _ hd => ⟨trivial, trivial, ?_⟩) hd
  exact (congrArg (fun v => v.1.bufLen) (hf.2 d)).trans hd

/-- **What the handler makes of a data frame.** -/
theorem isrTrap_length (hv : d.frameValid = true) (hd : Awaits cnt (dataPart d)) :
    StoresLength cnt isrTrap d := by
  unfold isrTrap
  refine length_load (A := fun v => Awaits cnt v ∧ v.2.2.2 = true) ⟨hd, hv⟩ fun d hd => ?_
  have hvalid : d.frameValid = true := hd.2
  rw [if_pos hvalid]
  refine length_then (A := Awaits cnt) (B := Awaits cnt) hd.1 ?_ fun d hd => ?_
  · exact fun d hd => ⟨hd.state, hd.count, hd.monitorMode⟩
  refine length_then (A := Awaits cnt) (B := Awaits cnt) hd ?_ fun d hd => ?_
  · exact fun d hd => ⟨hd.state, hd.count, hd.monitorMode⟩
  refine length_load (A := Awaits cnt) hd fun d hd => ?_
  have hmode : d.rx.regs.monitorMode = false := hd.monitorMode
  rw [hmode, if_neg Bool.false_ne_true]
  refine length_load (A := Awaits cnt) hd fun d hd => ?_
  have hstate : d.vars.handshakeState = 1#32 := hd.state
  rw [hstate, if_neg (by decide), if_pos rfl]
  exact dataAck_length hd

end Handler

/-- `econet_buf_len` is the number of bytes of the frame less 4, and at most 2043. -/
def LengthRight (d : Driver) (frame : List (BitVec 8)) : Prop :=
  (d.vars.bufLen.toNat : ℤ) = (frame.length : ℤ) - 4 ∧ d.vars.bufLen.toNat ≤ 2043

/-- **The length of a data frame**: in every state that is reached and in which a frame waits for
the handler in `STATE_WAITDATA`, the handler comes to its end, and whatever the hardware does
meanwhile short of accepting another frame, the length is right if and only if the frame has 4 to
2047 bytes. -/
theorem bufLen_iff (y : System) (hy : Init y) (es : List NetEvent) (d : Driver)
    (hd : d = (Machine.run (Interrupted.step netKernel) y es).shared) (hv : d.frameValid = true)
    (hm : d.rx.regs.monitorMode = false) (hs : d.vars.handshakeState = 1#32) :
    (∃ d', isrTrap.Finishes NoFrame d () d') ∧
      ∀ d', isrTrap.Finishes NoFrame d () d' →
        (LengthRight d' d.log.accepted ↔
          4 ≤ d.log.accepted.length ∧ d.log.accepted.length < 2048) := by
  have hcounted := FileServer.counted_run hy es
  rw [← hd] at hcounted
  have hcnt := hcounted.count hv
  constructor
  · have halone : ∃ d', isrTrap.alone d = some ((), d') := by
      rw [FileServer.isrTrap_taken hv hm hs]
      exact ⟨_, rfl⟩
    obtain ⟨d', hd'⟩ := halone
    exact ⟨d', Prog.finishes_of_alone noFrame_refl hd'⟩
  · intro d' hd'
    have hlen : d'.vars.bufLen = d.rx.regs.validCnt.setWidth 32 - 4#32 :=
      (isrTrap_length hv ⟨hs, rfl, hm⟩).finishes (fun _ _ => trivial)
        (fun d d' _ h => ⟨trivial, h.dataPart_eq⟩) trivial hd'
    have hnat := FileServer.bufLen_toNat d.log.accepted.length
    rw [← hcnt, ← hlen] at hnat
    rw [LengthRight, hnat]
    split <;> omega

/-- The length of a command of the file server. -/
theorem command_length :
    ∃ d', isrTrap.Finishes NoFrame (Machine.run (Interrupted.step netKernel) station
        (FileServer.dataFromPeer FileServer.command)).shared () d' ∧
      LengthRight d' (checked ([0x42#8, 0#8, 1#8, 0#8] ++ FileServer.command)) := by
  obtain ⟨hwaits, haccepted, -⟩ := FileServer.command_waits.run
  obtain ⟨⟨d', hd'⟩, hiff⟩ := bufLen_iff station init_station _ _ rfl hwaits.frameValid
    hwaits.monitorMode hwaits.state
  refine ⟨d', hd', ?_⟩
  rw [← haccepted]
  apply (hiff d' hd').mpr
  rw [haccepted]
  decide

/-- A frame of three bytes is taken for one of 2^32 - 1. -/
theorem shortFrame_length :
    Init FileServer.station6E ∧
      ∃ d', isrTrap.alone (Machine.run (Interrupted.step netKernel) FileServer.station6E
          FileServer.shortRun).shared = some ((), d') ∧
        d'.vars.bufLen = 0xFFFFFFFF#32 ∧ ¬LengthRight d' FileServer.shortFrame := by
  obtain ⟨hwaits, hcnt, -⟩ := FileServer.shortFrame_waits.run
  obtain ⟨d', hisr, hready, -⟩ := FileServer.isrTrap_data hwaits
  have hlen : d'.vars.bufLen = 0xFFFFFFFF#32 := by
    rw [hready.bufLen, rxLen, hcnt]
    decide
  refine ⟨FileServer.init_station6E, d', hisr, hlen, fun h => ?_⟩
  have hle := h.2
  rw [hlen] at hle
  exact absurd hle (by decide)

end Filestick.RawEconet
