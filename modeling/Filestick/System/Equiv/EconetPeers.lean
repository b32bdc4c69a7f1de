import Filestick.Lib.Ghost
import Filestick.System.Equiv.EconetFrames

/-!
# The stations of a handshake

`Peers` records, beside the state of the driver, which station each frame of a handshake came from.
The driver looks at the state and at the length of a frame only, so what it takes as the data of a
scout, or as an acknowledgement, is from the right station as long as no other one gets in between.

* `peers_consistent`: in every run without such a frame, the data on each port is from the station
  of the acknowledged scout, and each write that returns its count was acknowledged twice by its
  destination.
-/

namespace Filestick.RawEconet

open Driver

/-! ### The record -/

/-- The net and the station that a frame comes from. -/
def source (frame : List (BitVec 8)) : BitVec 16 := frame.getD 3 0#8 ++ frame.getD 2 0#8

/-- The net and the station of a destination. -/
def EconetAddr.address (dest : EconetAddr) : BitVec 16 := dest.net ++ dest.station

/-- The sender of the frame that was accepted last. -/
def Driver.sender (d : Driver) : BitVec 16 := source d.log.accepted

/-- The stations: of the scout acknowledged last for each port; of each frame marked as ready, after
that of the scout for its port; the destination of the last write, and what acknowledged its scout
and its data; and the same three for each write that has returned its count. -/
structure Peers where
  scouts : BitVec 8 → Option (BitVec 16)
  marked : List (Option (BitVec 16) × BitVec 16)
  dest : BitVec 16
  scoutAck : Option (BitVec 16)
  dataAck : Option (BitVec 16)
  sent : List (BitVec 16 × Option (BitVec 16) × Option (BitVec 16))

namespace Peers

/-- The record before anything has happened. -/
def empty : Peers := ⟨fun _ => none, [], 0#16, none, none, []⟩

/-- What an access makes of the record. -/
def note : Access → Driver → Peers → Peers
  | .scoutPort port, d, x => { x with scouts := Function.update x.scouts port (some d.sender) }
  | .ready, d, x =>
    { x with marked := x.marked ++ [(x.scouts (d.vars.pendingPort.setWidth 8), d.sender)] }
  | .txScout dest, _, x => { x with dest := dest.address, scoutAck := none, dataAck := none }
  | .ackScout, d, x => { x with scoutAck := some d.sender }
  | .ackData, d, x => { x with dataAck := some d.sender }
  | _, _, x => x

/-- What the return of a call makes of the record. -/
def returned : NetCall → Reply → Driver → Peers → Peers
  | .io (.write fd _ _), .count _, d, x =>
    { x with sent := x.sent ++ [((d.vars.fdTxDestmap fd).address, x.scoutAck, x.dataAck)] }
  | _, _, _, x => x

/-- Each frame marked as ready is from the station of the scout for its port, and each write that
has returned its count was acknowledged by its destination. -/
structure Consistent (x : Peers) : Prop where
  marked : ∀ m ∈ x.marked, m.1 = some m.2
  sent : ∀ m ∈ x.sent, m.2.1 = some m.1 ∧ m.2.2 = some m.1

end Peers

/-- The state of the driver beside the record. -/
abbrev PeerState := Driver × Peers

/-- The driver on its processor with the record. -/
def peerKernel : Kernel PeerState Access Hw NetCall (NetCall × Reply) :=
  netKernel.observe Peers.note Peers.returned

/-- The system with the record. -/
abbrev PeerSystem := Interrupted PeerState Access (NetCall × Reply)

theorem note_quiet {l : Access} (hl : l.quiet = true) (d : Driver) (x : Peers) :
    Peers.note l d x = x := by
  cases l with
  | scoutPort port => exact absurd hl Bool.false_ne_true
  | ready => exact absurd hl Bool.false_ne_true
  | txScout dest => exact absurd hl Bool.false_ne_true
  | ackScout => exact absurd hl Bool.false_ne_true
  | ackData => exact absurd hl Bool.false_ne_true
  | _ => rfl

/-! ### The contracts -/

/-- A frame from the last sender is one that the handshake waits for. -/
structure Expected (z : PeerState) : Prop where
  data : z.1.vars.handshakeState = 1#32 →
    z.2.scouts (z.1.vars.pendingPort.setWidth 8) = some z.1.sender
  ack : z.1.vars.handshakeState = 2#32 ∨ z.1.vars.handshakeState = 3#32 → z.1.sender = z.2.dest

/-- What the thread keeps. -/
structure PeerShared (z : PeerState) : Prop where
  pending : z.1.frameValid = true → Expected z
  acked : z.1.vars.handshakeState = 3#32 → z.2.scoutAck = some z.2.dest
  consistent : z.2.Consistent

/-- No handshake of a write is in progress. -/
def NotSending (z : PeerState) : Prop := z.1.vars.handshakeState < 2#32

/-- A write that is done has both acknowledgements. -/
def DoneAcked (z : PeerState) : Prop :=
  z.1.vars.txStatus = 1#32 → z.2.scoutAck = some z.2.dest ∧ z.2.dataAck = some z.2.dest

/-- What the thread relies on. -/
structure PeerRely (z z' : PeerState) : Prop where
  destmap : z'.1.vars.fdTxDestmap = z.1.vars.fdTxDestmap
  dest : z'.2.dest = z.2.dest
  done : DoneAcked z → DoneAcked z'
  idle : NotSending z → NotSending z' ∧ z'.1.vars.txStatus = z.1.vars.txStatus ∧
    z'.2.scoutAck = z.2.scoutAck ∧ z'.2.dataAck = z.2.dataAck

/-- What the handler relies on. -/
structure PeerHwRely (z z' : PeerState) : Prop where
  vars : z'.1.vars = z.1.vars
  peers : z'.2 = z.2
  sender : z'.1.sender = z.1.sender
  frameValid : z'.1.frameValid = true → z.1.frameValid = true ∨ Expected z'

theorem PeerRely.refl (z : PeerState) : PeerRely z z := ⟨rfl, rfl, id, fun h => ⟨h, rfl, rfl, rfl⟩⟩

theorem PeerRely.trans {z z' z'' : PeerState} (h : PeerRely z z') (h' : PeerRely z' z'') :
    PeerRely z z'' := by
  refine ⟨h'.destmap.trans h.destmap, h'.dest.trans h.dest, fun hd => h'.done (h.done hd),
    fun hz => ?_⟩
  obtain ⟨hz', h1, h2, h3⟩ := h.idle hz
  obtain ⟨hz'', h1', h2', h3'⟩ := h'.idle hz'
  exact ⟨hz'', h1'.trans h1, h2'.trans h2, h3'.trans h3⟩

theorem Expected.of_hw {z z' : PeerState} (h : Expected z) (hv : z'.1.vars = z.1.vars)
    (hp : z'.2 = z.2) (hs : z'.1.sender = z.1.sender) : Expected z' := by
  constructor
  · rw [hv, hp, hs]; exact h.data
  · rw [hv, hp, hs]; exact h.ack

/-- The contract of the thread. -/
def peerThread : Contract PeerState where
  inv := PeerShared
  rely := PeerRely
  refl := PeerRely.refl
  trans := PeerRely.trans

/-- The contract of the handler. -/
def peerHandler : Contract PeerState where
  inv z := z.2.Consistent
  rely := PeerHwRely
  refl _ := ⟨rfl, rfl, rfl, Or.inl⟩
  trans h h' := ⟨h'.vars.trans h.vars, h'.peers.trans h.peers, h'.sender.trans h.sender, fun hv =>
    (h'.frameValid hv).elim
      (fun hv => (h.frameValid hv).imp_right fun he => he.of_hw h'.vars h'.peers h'.sender) Or.inr⟩

/-- The condition on accesses: a frame that waits when `STATE_TXSCOUT` is stored is from the
destination. -/
def PeerCond : Access → PeerState → Prop
  | .txScout dest, z => z.1.frameValid = true → z.1.sender = dest.address
  | _, _ => True

/-- The condition on a frame that is accepted: while the handshake waits for data, it is from the
station of the scout; while it waits for an acknowledgement, from the destination; and while the
handler runs, from the same station as the frame before. -/
def PeerEnv (inIsr : Bool) (i : Hw) (z : PeerState) : Prop :=
  i = .rise → z.1.accepts = true →
    (z.1.vars.handshakeState = 1#32 →
      z.2.scouts (z.1.vars.pendingPort.setWidth 8) = some (source z.1.log.frame.bytes)) ∧
    (z.1.vars.handshakeState = 2#32 ∨ z.1.vars.handshakeState = 3#32 →
      source z.1.log.frame.bytes = z.2.dest) ∧
    (inIsr = true → source z.1.log.frame.bytes = z.1.sender)

/-- Nothing is shown of single accesses. -/
def AnyPeerAccess (_ : Access) (_ : PeerState) : Prop := True

/-! ### The hardware -/

/-- The hardware accepts a frame, or leaves the last one. -/
theorem hw_sender (d : Driver) (i : Hw) :
    (i = .rise ∧ d.accepts = true ∧ (d.hw i).sender = source d.log.frame.bytes) ∨
      ((d.hw i).sender = d.sender ∧ (d.hw i).frameValid = d.frameValid) := by
  by_cases hi : i = .rise
  · subst hi
    cases hacc : d.accepts with
    | true =>
      refine Or.inl ⟨rfl, rfl, ?_⟩
      rw [sender, (hw_rise d).2]
      simp only [RxLog.rise, hacc, if_true]
    | false =>
      refine Or.inr ⟨?_, ?_⟩
      · rw [sender, (rise_regs hacc).2.2.1]
        rfl
      · rw [hw_frameValid, hacc, Bool.and_false, Bool.or_false]
  · refine Or.inr ⟨?_, ?_⟩
    · rw [sender, (hw_rx d hi).2]
      rfl
    · rw [frameValid, (hw_rx d hi).1]
      rfl

theorem expected_hw {z : PeerState} {inIsr : Bool} {i : Hw} (hi : PeerEnv inIsr i z) :
    (Expected (z.1.hw i, z.2) ∧ (inIsr = true → (z.1.hw i).sender = z.1.sender)) ∨
      ((z.1.hw i).sender = z.1.sender ∧ (z.1.hw i).frameValid = z.1.frameValid) := by
  obtain ⟨rfl, hacc, hsender⟩ | hsame := hw_sender z.1 i
  · obtain ⟨h1, h2, h3⟩ := hi rfl hacc
    refine Or.inl ⟨⟨?_, ?_⟩, fun hb => hsender.trans (h3 hb)⟩
    · show (z.1.hw .rise).vars.handshakeState = 1#32 →
        z.2.scouts ((z.1.hw .rise).vars.pendingPort.setWidth 8) = some (z.1.hw .rise).sender
      rw [(hw_vars z.1 .rise).1, hsender]
      exact h1
    · show (z.1.hw .rise).vars.handshakeState = 2#32 ∨ (z.1.hw .rise).vars.handshakeState = 3#32 →
        (z.1.hw .rise).sender = z.2.dest
      rw [(hw_vars z.1 .rise).1, hsender]
      exact h2
  · exact Or.inr hsame

/-- What the hardware does while the handler runs. -/
theorem peerHwRely_hw {z : PeerState} {i : Hw} (hi : PeerEnv true i z) :
    PeerHwRely z (z.1.hw i, z.2) := by
  obtain ⟨hexp, hsender⟩ | ⟨hsender, hvalid⟩ := expected_hw hi
  · exact ⟨(hw_vars z.1 i).1, rfl, hsender rfl, fun _ => Or.inr hexp⟩
  · exact ⟨(hw_vars z.1 i).1, rfl, hsender, fun hv => Or.inl (hvalid.symm.trans hv)⟩

theorem peerShared_hw {z : PeerState} (h : PeerShared z) {i : Hw} (hi : PeerEnv false i z) :
    PeerShared (z.1.hw i, z.2) := by
  obtain ⟨hvars, -⟩ := hw_vars z.1 i
  refine ⟨fun hv => ?_, ?_, h.consistent⟩
  · obtain ⟨hexp, -⟩ | ⟨hsender, hvalid⟩ := expected_hw hi
    · exact hexp
    · exact (h.pending (hvalid.symm.trans hv)).of_hw hvars rfl hsender
  · show (z.1.hw i).vars.handshakeState = 3#32 → _
    rw [hvars]
    exact h.acked

/-! ### The handler -/

theorem PeerShared.of_hw {z z' : PeerState} (h : PeerShared z) (hr : PeerHwRely z z') :
    PeerShared z' := by
  refine ⟨fun hv => ?_, ?_, ?_⟩
  · obtain hv | hexp := hr.frameValid hv
    · exact (h.pending hv).of_hw hr.vars hr.peers hr.sender
    · exact hexp
  · rw [hr.vars, hr.peers]; exact h.acked
  · rw [hr.peers]; exact h.consistent

/-- Where the variables and the record stay, the thread has what it relies on. -/
theorem peerRely_of_vars {z z' : PeerState} (hvars : z'.1.vars = z.1.vars) (hpeers : z'.2 = z.2) :
    PeerRely z z' := by
  refine ⟨congrArg Vars.fdTxDestmap hvars, congrArg Peers.dest hpeers, fun h => ?_, fun h => ?_⟩
  · unfold DoneAcked
    rw [hvars, hpeers]
    exact h
  · unfold NotSending
    rw [hvars, hpeers]
    exact ⟨h, rfl, rfl, rfl⟩

theorem PeerHwRely.rely {z z' : PeerState} (hr : PeerHwRely z z') : PeerRely z z' :=
  peerRely_of_vars hr.vars hr.peers

/-- What the handler finds, from the state `z₀` on: the state of the handshake, the pending port,
the status of the write, and the record. -/
structure FrameAt (z₀ : PeerState) (s pp ts : BitVec 32) (x : Peers) (z : PeerState) : Prop where
  state : z.1.vars.handshakeState = s
  pendingPort : z.1.vars.pendingPort = pp
  txStatus : z.1.vars.txStatus = ts
  destmap : z.1.vars.fdTxDestmap = z₀.1.vars.fdTxDestmap
  sender : z.1.sender = z₀.1.sender
  peers : z.2 = x

section Handler

variable {α : Type} {z₀ z : PeerState} {s pp ts : BitVec 32} {x : Peers}

theorem stable_frameAt : Stable peerHandler (FrameAt z₀ s pp ts x) := fun z z' hr _ h => by
  refine ⟨?_, ?_, ?_, ?_, hr.sender.trans h.sender, hr.peers.trans h.peers⟩
  · rw [hr.vars]; exact h.state
  · rw [hr.vars]; exact h.pendingPort
  · rw [hr.vars]; exact h.txStatus
  · rw [hr.vars]; exact h.destmap

/-- What is shown of a piece of the handler. -/
abbrev HandlerPeers (z₀ : PeerState) (p : Code Unit) (z : PeerState) : Prop :=
  Safe peerHandler PeerCond AnyPeerAccess (fun _ z' => PeerShared z' ∧ PeerRely z₀ z')
    (p.observe Peers.note id) z

/-- What the record depends on. -/
def peerPart (d : Driver) :
    (BitVec 32 × BitVec 32 × BitVec 32) × (Fd → EconetAddr) × List (BitVec 8) :=
  ((d.vars.handshakeState, d.vars.pendingPort, d.vars.txStatus), d.vars.fdTxDestmap, d.log.accepted)

theorem FrameAt.of_part (h : FrameAt z₀ s pp ts x z) {d : Driver} (hd : peerPart d = peerPart z.1) :
    FrameAt z₀ s pp ts x (d, z.2) := by
  obtain ⟨⟨h1, h2, h3⟩, h4, h5⟩ : (d.vars.handshakeState = z.1.vars.handshakeState ∧
      d.vars.pendingPort = z.1.vars.pendingPort ∧ d.vars.txStatus = z.1.vars.txStatus) ∧
      d.vars.fdTxDestmap = z.1.vars.fdTxDestmap ∧ d.log.accepted = z.1.log.accepted := by
    simpa [peerPart] using hd
  exact ⟨h1.trans h.state, h2.trans h.pendingPort, h3.trans h.txStatus, h4.trans h.destmap,
    (congrArg source h5).trans h.sender, h.peers⟩

theorem FrameAt.inv (h : FrameAt z₀ s pp ts x z) (hx : x.Consistent) : peerHandler.inv z := by
  show z.2.Consistent
  rw [h.peers]
  exact hx

/-- Code that the record does not depend on. -/
theorem frameAt_frame {p : Code α} (hp : Frame peerPart p) (hz : FrameAt z₀ s pp ts x z)
    {r : α → α} :
    Safe peerHandler PeerCond AnyPeerAccess (fun _ z' => FrameAt z₀ s pp ts x z')
      (p.observe Peers.note r) z := by
  refine safe_observe_of_acts stable_frameAt (hp.mono fun l f hf => ?_) hz
  exact ⟨note_quiet hf.1, fun z hi _ hz => ⟨trivial, hi, hz.of_part (hf.2 z.1)⟩⟩

theorem frameAt_then {p : Code α} {q : α → Code Unit} (hz : FrameAt z₀ s pp ts x z)
    (hp : Frame peerPart p)
    (h : ∀ a z', FrameAt z₀ s pp ts x z' → HandlerPeers z₀ (q a) z') :
    HandlerPeers z₀ (p >>= q) z :=
  safe_observe_bind ((frameAt_frame hp hz).mono fun a z' _ hz' => h a z' hz')

/-- What the handler finds is what the thread keeps, and can rely on. -/
structure Settled (z₀ : PeerState) (s pp ts : BitVec 32) (x : Peers) : Prop where
  data : s = 1#32 → x.scouts (pp.setWidth 8) = some z₀.1.sender
  ack : s = 2#32 ∨ s = 3#32 → z₀.1.sender = x.dest
  acked : s = 3#32 → x.scoutAck = some x.dest
  consistent : x.Consistent
  dest : x.dest = z₀.2.dest
  done : DoneAcked z₀ → ts = 1#32 → x.scoutAck = some x.dest ∧ x.dataAck = some x.dest
  idle : NotSending z₀ → s < 2#32 ∧ ts = z₀.1.vars.txStatus ∧ x.scoutAck = z₀.2.scoutAck ∧
    x.dataAck = z₀.2.dataAck

theorem FrameAt.settled (hS : Settled z₀ s pp ts x) (h : FrameAt z₀ s pp ts x z) :
    PeerShared z ∧ PeerRely z₀ z := by
  obtain ⟨d, x'⟩ := z
  obtain ⟨rfl, rfl, rfl, hdest, hsender, rfl⟩ := h
  have hexp : Expected (d, x') := by
    constructor
    · rw [hsender]; exact hS.data
    · rw [hsender]; exact hS.ack
  exact ⟨⟨fun _ => hexp, hS.acked, hS.consistent⟩, ⟨hdest, hS.dest, hS.done, hS.idle⟩⟩

/-- The end of a handshake. -/
theorem Settled.ended (hS : Settled z₀ s pp ts x) : Settled z₀ 0#32 pp ts x where
  data h := absurd h (by decide)
  ack h := absurd h (by decide)
  acked h := absurd h (by decide)
  done := hS.done
  consistent := hS.consistent
  dest := hS.dest
  idle h := ⟨by decide, (hS.idle h).2⟩

/-- A scout is recorded for the port that becomes the pending one. -/
theorem Settled.scout (hS : Settled z₀ 0#32 pp ts x) (port : BitVec 8) :
    Settled z₀ 1#32 (port.setWidth 32) ts
      { x with scouts := Function.update x.scouts port (some z₀.1.sender) } where
  data _ := by simp
  ack h := absurd h (by decide)
  acked h := absurd h (by decide)
  done := hS.done
  consistent := ⟨hS.consistent.marked, hS.consistent.sent⟩
  dest := hS.dest
  idle h := ⟨by decide, (hS.idle h).2⟩

/-- A frame is marked as ready. -/
theorem Settled.marked (hS : Settled z₀ 1#32 pp ts x) :
    Settled z₀ 1#32 pp ts
      { x with marked := x.marked ++ [(x.scouts (pp.setWidth 8), z₀.1.sender)] } := by
  refine ⟨hS.data, hS.ack, hS.acked, ⟨fun m hm => ?_, hS.consistent.sent⟩, hS.dest,
    hS.done, hS.idle⟩
  obtain hm | hm := List.mem_append.mp hm
  · exact hS.consistent.marked m hm
  · rw [List.mem_singleton.mp hm]
    exact hS.data rfl

/-- In a handshake of the thread, it relies on less. -/
theorem Settled.sending (hS : Settled z₀ s pp ts x) (hs : s = 2#32 ∨ s = 3#32) :
    ¬NotSending z₀ := fun h => by
  have hlt := (hS.idle h).1
  obtain rfl | rfl := hs
  · exact absurd hlt (by decide)
  · exact absurd hlt (by decide)

/-- The scout of a write is acknowledged. -/
theorem Settled.scoutAck (hS : Settled z₀ 2#32 pp ts x) :
    Settled z₀ 3#32 pp ts { x with scoutAck := some z₀.1.sender } where
  data h := absurd h (by decide)
  ack _ := hS.ack (Or.inl rfl)
  acked _ := congrArg some (hS.ack (Or.inl rfl))
  done hd h := ⟨congrArg some (hS.ack (Or.inl rfl)), (hS.done hd h).2⟩
  consistent := ⟨hS.consistent.marked, hS.consistent.sent⟩
  dest := hS.dest
  idle h := absurd h (hS.sending (Or.inl rfl))

/-- The data of a write is acknowledged. -/
theorem Settled.dataAck (hS : Settled z₀ 3#32 pp ts x) :
    Settled z₀ 0#32 pp 1#32 { x with dataAck := some z₀.1.sender } where
  data h := absurd h (by decide)
  ack h := absurd h (by decide)
  acked h := absurd h (by decide)
  done _ _ := ⟨hS.acked rfl, congrArg some (hS.ack (Or.inr rfl))⟩
  consistent := ⟨hS.consistent.marked, hS.consistent.sent⟩
  dest := hS.dest
  idle h := absurd h (hS.sending (Or.inr rfl))

/-- The handshake of a write fails. -/
theorem Settled.failed (hS : Settled z₀ s pp ts x) (hs : s = 2#32 ∨ s = 3#32) :
    Settled z₀ 0#32 pp 2#32 x where
  data h := absurd h (by decide)
  ack h := absurd h (by decide)
  acked h := absurd h (by decide)
  done _ h := absurd h (by decide)
  consistent := hS.consistent
  dest := hS.dest
  idle h := absurd h (hS.sending hs)

theorem handler_ret (hS : Settled z₀ s pp ts x) (hz : FrameAt z₀ s pp ts x z) :
    HandlerPeers z₀ (pure ()) z :=
  safe_ret_stable stable_frameAt hz fun _ _ h => h.settled hS

theorem handler_frame_last {p : Code Unit} (hS : Settled z₀ s pp ts x) (hz : FrameAt z₀ s pp ts x z)
    (hp : Frame peerPart p) : HandlerPeers z₀ p z :=
  (frameAt_frame hp hz).mono fun _ _ _ h => h.settled hS

variable {s' pp' ts' : BitVec 32} {x' : Peers}

/-- An access that the record depends on. -/
theorem frameAt_modify (s' pp' ts' : BitVec 32) (x' : Peers) {l : Access} {f : Driver → Driver}
    {q : Unit → Code Unit} (hx : x'.Consistent) (hz : FrameAt z₀ s pp ts x z)
    (hf : ∀ z', FrameAt z₀ s pp ts x z' → FrameAt z₀ s' pp' ts' x' (f z'.1, Peers.note l z'.1 z'.2))
    (h : ∀ z', FrameAt z₀ s' pp' ts' x' z' → HandlerPeers z₀ (q ()) z') :
    HandlerPeers z₀ (Prog.modify l f >>= q) z :=
  safe_observe_modify fun z' hr hi _ =>
    have hz' := hf z' (stable_frameAt z z' hr hi hz)
    ⟨trivial, hz'.inv hx, h _ hz'⟩

theorem scoutAck_peers (hS : Settled z₀ 0#32 pp ts x) (hz : FrameAt z₀ 0#32 pp ts x z) :
    HandlerPeers z₀ scoutAck z := by
  unfold scoutAck
  refine frameAt_then hz (frame_load _) fun len z hz => ?_
  split
  · refine frameAt_then hz (frame_load _) fun port z hz => ?_
    refine frameAt_then hz (frame_load _) fun fd z hz => ?_
    split
    · refine frameAt_modify 1#32 _ _ _ hS.consistent hz
        (fun z' h => ⟨rfl, h.pendingPort, h.txStatus, h.destmap, h.sender, h.peers⟩) fun z hz => ?_
      refine frameAt_modify _ (port.setWidth 32) _
        { x with scouts := Function.update x.scouts port (some z₀.1.sender) }
        (hS.scout port).consistent hz
        (fun z' h => ⟨h.state, rfl, h.txStatus, h.destmap, h.sender, ?_⟩) fun z hz => ?_
      · show { z'.2 with scouts := Function.update z'.2.scouts port (some z'.1.sender) } = _
        rw [h.peers, h.sender]
      exact handler_frame_last (hS.scout port) hz (frame_econetAck.comp fun v =>
        ((v.1.handshakeState, v.1.pendingPort, v.1.txStatus), v.1.fdTxDestmap, v.2.2.1.accepted))
    · exact handler_ret hS hz
  · exact handler_frame_last hS hz (frame_econetRxImm.comp fun v =>
      ((v.1.1.handshakeState, v.1.1.pendingPort, v.1.1.txStatus), v.1.1.fdTxDestmap,
        v.1.2.2.1.accepted))

theorem dataAck_peers (hS : Settled z₀ 1#32 pp ts x) (hz : FrameAt z₀ 1#32 pp ts x z) :
    HandlerPeers z₀ dataAck z := by
  unfold dataAck
  refine safe_observe_read fun z' hr hi _ => ⟨trivial, hi, ?_⟩
  have hz : FrameAt z₀ 1#32 pp ts x z' := stable_frameAt z z' hr hi hz
  refine frameAt_then hz (frame_load _) fun fd z hz => ?_
  refine frameAt_modify _ _ _
    { x with marked := x.marked ++ [(x.scouts (pp.setWidth 8), z₀.1.sender)] }
    hS.marked.consistent hz (fun z' h =>
      ⟨h.state, h.pendingPort, h.txStatus, h.destmap, h.sender, ?_⟩) fun z hz => ?_
  · show { z'.2 with marked :=
      z'.2.marked ++ [(z'.2.scouts (z'.1.vars.pendingPort.setWidth 8), z'.1.sender)] } = _
    rw [h.peers, h.pendingPort, h.sender]
  refine frameAt_modify 0#32 _ _ _ hS.marked.consistent hz
    (fun z' h => ⟨rfl, h.pendingPort, h.txStatus, h.destmap, h.sender, h.peers⟩) fun z hz => ?_
  refine frameAt_then hz (frame_load _) fun start z hz => ?_
  refine frameAt_then hz (frame_modify (by rfl) fun _ => rfl) fun _ z hz => ?_
  refine frameAt_then hz (frame_load _) fun len z hz => ?_
  refine frameAt_then hz (frame_modify (by rfl) fun _ => rfl) fun _ z hz => ?_
  exact handler_frame_last hS.marked.ended hz (frame_econetAck.comp fun v =>
    ((v.1.handshakeState, v.1.pendingPort, v.1.txStatus), v.1.fdTxDestmap, v.2.2.1.accepted))

/-- The last access of the handler. -/
theorem handler_last {l : Access} {f : Driver → Driver} (hS : Settled z₀ s' pp' ts' x')
    (hz : FrameAt z₀ s pp ts x z)
    (hf : ∀ z', FrameAt z₀ s pp ts x z' →
      FrameAt z₀ s' pp' ts' x' (f z'.1, Peers.note l z'.1 z'.2)) :
    HandlerPeers z₀ (Prog.modify l f) z := by
  intro z' hr hi _
  have hz' := hf z' (stable_frameAt z z' hr hi hz)
  exact ⟨trivial, hz'.inv hS.consistent, handler_ret hS hz'⟩

theorem txError_peers (hS : Settled z₀ s pp ts x) (hs : s = 2#32 ∨ s = 3#32)
    (hz : FrameAt z₀ s pp ts x z) : HandlerPeers z₀ txError z := by
  unfold txError
  refine frameAt_modify 0#32 _ _ _ hS.consistent hz
    (fun z' h => ⟨rfl, h.pendingPort, h.txStatus, h.destmap, h.sender, h.peers⟩) fun z hz => ?_
  exact handler_last (hS.failed hs) hz fun z' h =>
    ⟨h.state, h.pendingPort, rfl, h.destmap, h.sender, h.peers⟩

theorem rxScoutAck_peers (hS : Settled z₀ 2#32 pp ts x) (hz : FrameAt z₀ 2#32 pp ts x z) :
    HandlerPeers z₀ rxScoutAck z := by
  unfold rxScoutAck
  refine frameAt_then hz (frame_load _) fun len z hz => ?_
  split
  · refine frameAt_then hz (frame_modify (by rfl) fun _ => rfl) fun _ z hz => ?_
    refine frameAt_modify 3#32 _ _ { x with scoutAck := some z₀.1.sender } hS.scoutAck.consistent hz
      (fun z' h =>
      ⟨rfl, h.pendingPort, h.txStatus, h.destmap, h.sender, ?_⟩) fun z hz => ?_
    · show { z'.2 with scoutAck := some z'.1.sender } = _
      rw [h.peers, h.sender]
    refine frameAt_then hz (frame_load _) fun start z hz => ?_
    refine frameAt_then hz (frame_modify (by rfl) fun _ => rfl) fun _ z hz => ?_
    refine frameAt_then hz (frame_load _) fun fin z hz => ?_
    refine frameAt_then hz (frame_modify (by rfl) fun _ => rfl) fun _ z hz => ?_
    refine frameAt_then hz (frame_modify (by rfl) fun _ => rfl) fun _ z hz => ?_
    exact handler_frame_last hS.scoutAck hz (frame_modify (by rfl) fun _ => rfl)
  · exact txError_peers hS (Or.inl rfl) hz

theorem rxDataAck_peers (hS : Settled z₀ 3#32 pp ts x) (hz : FrameAt z₀ 3#32 pp ts x z) :
    HandlerPeers z₀ rxDataAck z := by
  unfold rxDataAck
  refine frameAt_then hz (frame_load _) fun len z hz => ?_
  split
  · refine frameAt_modify 0#32 _ _ { x with dataAck := some z₀.1.sender } hS.dataAck.consistent hz
      (fun z' h =>
      ⟨rfl, h.pendingPort, h.txStatus, h.destmap, h.sender, ?_⟩) fun z hz => ?_
    · show { z'.2 with dataAck := some z'.1.sender } = _
      rw [h.peers, h.sender]
    exact handler_last hS.dataAck hz fun z' h =>
      ⟨h.state, h.pendingPort, rfl, h.destmap, h.sender, h.peers⟩
  · exact txError_peers hS (Or.inr rfl) hz

theorem rxMonitor_peers (hS : Settled z₀ s pp ts x) (hz : FrameAt z₀ s pp ts x z) :
    HandlerPeers z₀ rxMonitor z := by
  unfold rxMonitor
  refine safe_observe_read fun z' hr hi _ => ⟨trivial, hi, ?_⟩
  have hz : FrameAt z₀ s pp ts x z' := stable_frameAt z z' hr hi hz
  refine frameAt_then hz (frame_modify (by rfl) fun _ => rfl) fun _ z hz => ?_
  refine frameAt_then hz (frame_load _) fun start z hz => ?_
  refine frameAt_then hz (frame_modify (by rfl) fun _ => rfl) fun _ z hz => ?_
  refine frameAt_then hz (frame_load _) fun len z hz => ?_
  exact handler_frame_last hS hz (frame_modify (by rfl) fun _ => rfl)

/-- The handler with a frame that the handshake waits for. -/
theorem econetRx_peers (hS : Settled z₀ s pp ts x) (hz : FrameAt z₀ s pp ts x z) :
    HandlerPeers z₀ econetRx z := by
  unfold econetRx
  refine frameAt_then hz (frame_modify (by rfl) fun _ => rfl) fun _ z hz => ?_
  refine frameAt_then hz (frame_modify (by rfl) fun _ => rfl) fun _ z hz => ?_
  refine frameAt_then hz (frame_load _) fun monitor z hz => ?_
  split
  · exact rxMonitor_peers hS hz
  refine safe_observe_read fun z' hr hi _ => ⟨trivial, hi, ?_⟩
  have hz : FrameAt z₀ s pp ts x z' := stable_frameAt z z' hr hi hz
  rw [hz.state]
  split_ifs with h0 h1 h2 h3
  · subst h0; exact scoutAck_peers hS hz
  · subst h1; exact dataAck_peers hS hz
  · subst h2; exact rxScoutAck_peers hS hz
  · subst h3; exact rxDataAck_peers hS hz
  · exact handler_ret hS hz

theorem econetTimeout_peers (hS : Settled z₀ 0#32 pp ts x) (hz : FrameAt z₀ s pp ts x z) :
    HandlerPeers z₀ econetTimeout z := by
  unfold econetTimeout
  refine frameAt_then hz (frame_modify (by rfl) fun _ => rfl) fun _ z hz => ?_
  refine frameAt_then hz (frame_load _) fun state z hz => ?_
  refine frameAt_then hz (frame_modify (by rfl) fun _ => rfl) fun _ z hz => ?_
  exact handler_last hS hz fun z' h =>
    ⟨rfl, h.pendingPort, h.txStatus, h.destmap, h.sender, h.peers⟩

theorem frameAt_refl (z : PeerState) :
    FrameAt z z.1.vars.handshakeState z.1.vars.pendingPort z.1.vars.txStatus z.2 z :=
  ⟨rfl, rfl, rfl, rfl, rfl, rfl⟩

theorem PeerShared.settled (h : PeerShared z) (he : Expected z) :
    Settled z z.1.vars.handshakeState z.1.vars.pendingPort z.1.vars.txStatus z.2 :=
  ⟨he.data, he.ack, h.acked, h.consistent, rfl, id, fun hn => ⟨hn, rfl, rfl, rfl⟩⟩

/-- Whatever frame waits, a handshake that ends is settled. -/
theorem PeerShared.settled_ended (h : PeerShared z) :
    Settled z 0#32 z.1.vars.pendingPort z.1.vars.txStatus z.2 where
  data h := absurd h (by decide)
  ack h := absurd h (by decide)
  acked h := absurd h (by decide)
  done := id
  consistent := h.consistent
  dest := rfl
  idle _ := ⟨by decide, rfl, rfl, rfl⟩

/-- **The handler** keeps the stations apart. -/
theorem isrTrap_peers (hz : PeerShared z) : HandlerPeers z isrTrap z := by
  unfold isrTrap
  refine safe_observe_read fun z' hr hi _ => ⟨trivial, hi, ?_⟩
  have hz' : PeerShared z' := hz.of_hw hr
  split
  -- a frame that waits is one that the handshake waits for
  · next hv =>
    refine (econetRx_peers (hz'.settled (hz'.pending hv)) (frameAt_refl z')).mono
      fun _ z'' _ h => ?_
    exact ⟨h.1, hr.rely.trans h.2⟩
  refine safe_observe_read fun z'' hr' hi _ => ⟨trivial, hi, ?_⟩
  have hz'' : PeerShared z'' := hz'.of_hw hr'
  have hrely : PeerRely z z'' := hr.rely.trans hr'.rely
  split
  · refine (econetTimeout_peers hz''.settled_ended (frameAt_refl z'')).mono fun _ z _ h => ?_
    exact ⟨h.1, hrely.trans h.2⟩
  · exact fun z₃ hr'' _ => ⟨hz''.of_hw hr'', hrely.trans hr''.rely⟩

end Handler

/-! ### The thread -/

section Thread

variable {α β : Type} {z : PeerState} {fd : Fd} {dest : EconetAddr}

/-- What is shown of a piece of a call. -/
abbrev ThreadPeers (r : α → β) (Q : β → PeerState → Prop) (p : Code α) (z : PeerState) : Prop :=
  Safe peerThread PeerCond AnyPeerAccess Q (p.observe Peers.note r) z

/-- What the thread keeps depends on. -/
def sharedPart (d : Driver) :
    ((BitVec 32 × BitVec 32 × BitVec 32) × (Fd → EconetAddr) × List (BitVec 8)) × Bool :=
  (peerPart d, d.frameValid)

/-- An access that the record does not depend on, and that leaves what the thread keeps. -/
def Unnoted (l : Access) (f : Driver → Driver) : Prop :=
  (∀ d x, Peers.note l d x = x) ∧ Preserves sharedPart f

theorem Frame.unnoted {p : Code α} (hp : Frame sharedPart p) : p.Acts Unnoted :=
  hp.mono fun _ _ hf => ⟨note_quiet hf.1, hf.2⟩

/-- Two states that agree where the record depends on them. -/
structure SamePeers (d d' : Driver) : Prop where
  state : d'.vars.handshakeState = d.vars.handshakeState
  pendingPort : d'.vars.pendingPort = d.vars.pendingPort
  txStatus : d'.vars.txStatus = d.vars.txStatus
  sender : d'.sender = d.sender
  frameValid : d'.frameValid = true → d.frameValid = true

theorem samePeers_of_part {d d' : Driver} (h : sharedPart d' = sharedPart d) :
    SamePeers d d' ∧ d'.vars.fdTxDestmap = d.vars.fdTxDestmap := by
  obtain ⟨⟨⟨h1, h2, h3⟩, h4, h5⟩, h6⟩ : ((d'.vars.handshakeState = d.vars.handshakeState ∧
      d'.vars.pendingPort = d.vars.pendingPort ∧ d'.vars.txStatus = d.vars.txStatus) ∧
      d'.vars.fdTxDestmap = d.vars.fdTxDestmap ∧ d'.log.accepted = d.log.accepted) ∧
      d'.frameValid = d.frameValid := by simpa [sharedPart, peerPart] using h
  exact ⟨⟨h1, h2, h3, congrArg source h5, h6.symm.trans⟩, h4⟩

theorem PeerShared.of_same (h : PeerShared z) {d : Driver} (hd : SamePeers z.1 d) :
    PeerShared (d, z.2) := by
  refine ⟨fun hv => ⟨?_, ?_⟩, ?_, h.consistent⟩
  · have hexp := (h.pending (hd.frameValid hv)).data
    rw [← hd.state, ← hd.pendingPort, ← hd.sender] at hexp
    exact hexp
  · have hexp := (h.pending (hd.frameValid hv)).ack
    rw [← hd.state, ← hd.sender] at hexp
    exact hexp
  · exact fun hs => h.acked (hd.state ▸ hs)

/-- Code that the record does not depend on, with an assertion that each access keeps. -/
theorem keeps_samePeers {A : PeerState → Prop} (hA : Stable peerThread A) {p : Code α}
    (hp : p.Acts fun l f => (∀ d x, Peers.note l d x = x) ∧
      ∀ z : PeerState, SamePeers z.1 (f z.1) ∧ (A z → A (f z.1, z.2))) {r : α → β} (hz : A z) :
    ThreadPeers r (fun _ z' => A z') p z := by
  refine safe_observe_of_acts hA (hp.mono fun l f hf => ⟨hf.1, fun z hi _ hz => ?_⟩) hz
  exact ⟨trivial, hi.of_same (hf.2 z).1, (hf.2 z).2 hz⟩

theorem keeps_unnoted {A : PeerState → Prop} (hA : Stable peerThread A)
    (hv : ∀ z d, SamePeers z.1 d → d.vars.fdTxDestmap = z.1.vars.fdTxDestmap → A z → A (d, z.2))
    {p : Code α} (hp : p.Acts Unnoted) {r : α → β} (hz : A z) :
    ThreadPeers r (fun _ z' => A z') p z := by
  refine keeps_samePeers hA (hp.mono fun l f hf => ⟨hf.1, fun z => ?_⟩) hz
  obtain ⟨hsame, hdest⟩ := samePeers_of_part (hf.2 z.1)
  exact ⟨hsame, hv z (f z.1) hsame hdest⟩

/-- `econet_write` has reset its status, and has loaded the destination. -/
structure Starting (fd : Fd) (dest : EconetAddr) (z : PeerState) : Prop where
  idle : NotSending z
  txStatus : z.1.vars.txStatus = 0#32
  destmap : z.1.vars.fdTxDestmap fd = dest

/-- `econet_write` has begun its handshake. -/
structure Sending (fd : Fd) (dest : EconetAddr) (z : PeerState) : Prop where
  destmap : z.1.vars.fdTxDestmap fd = dest
  address : z.2.dest = dest.address
  done : DoneAcked z

theorem stable_notSending : Stable peerThread NotSending := fun _ _ hr _ h => (hr.idle h).1

theorem stable_starting : Stable peerThread (Starting fd dest) := fun _ _ hr _ h =>
  ⟨(hr.idle h.idle).1, (hr.idle h.idle).2.1.trans h.txStatus, by rw [hr.destmap]; exact h.destmap⟩

theorem stable_sending : Stable peerThread (Sending fd dest) := fun _ _ hr _ h =>
  ⟨by rw [hr.destmap]; exact h.destmap, hr.dest.trans h.address, hr.done h.done⟩

theorem NotSending.of_same {d : Driver} (h : NotSending z) (hd : SamePeers z.1 d) :
    NotSending (d, z.2) := by
  show d.vars.handshakeState < 2#32
  rw [hd.state]
  exact h

variable {r : α → β} {Q : β → PeerState → Prop} {α' : Type}

theorem notSending_then {p : Code α'} {q : α' → Code α} (hz : NotSending z) (hp : p.Acts Unnoted)
    (h : ∀ a z', PeerShared z' → NotSending z' → ThreadPeers r Q (q a) z') :
    ThreadPeers r Q (p >>= q) z :=
  safe_observe_bind ((keeps_unnoted stable_notSending (fun _ _ hs _ h => h.of_same hs) hp hz).mono
    fun a z' hi hz' => h a z' hi hz')

theorem starting_then {p : Code α'} {q : α' → Code α} (hz : Starting fd dest z)
    (hp : p.Acts Unnoted)
    (h : ∀ a z', Starting fd dest z' → ThreadPeers r Q (q a) z') : ThreadPeers r Q (p >>= q) z := by
  refine safe_observe_bind ((keeps_unnoted stable_starting (fun z d hs hd h => ?_) hp hz).mono
    fun a z' _ hz' => h a z' hz')
  refine ⟨h.idle.of_same hs, hs.txStatus.trans h.txStatus, ?_⟩
  rw [hd]
  exact h.destmap

theorem sending_frame {p : Code α} (hz : Sending fd dest z) (hp : p.Acts Unnoted) :
    ThreadPeers r (fun _ z' => Sending fd dest z') p z := by
  refine keeps_unnoted stable_sending (fun z d hs hd h => ⟨?_, h.address, fun ht => ?_⟩) hp hz
  · rw [hd]
    exact h.destmap
  · exact h.done (hs.txStatus ▸ ht)

theorem sending_then {p : Code α'} {q : α' → Code α} (hz : Sending fd dest z) (hp : p.Acts Unnoted)
    (h : ∀ a z', Sending fd dest z' → ThreadPeers r Q (q a) z') : ThreadPeers r Q (p >>= q) z :=
  safe_observe_bind ((sending_frame hz hp).mono fun a z' _ hz' => h a z' hz')

theorem unnoted_load (f : Driver → α) : (load f).Acts Unnoted := (frame_load f).unnoted

theorem unnoted_modify {l : Access} {f : Driver → Driver} (hl : l.quiet = true)
    (hf : Preserves sharedPart f) : (Prog.modify l f : Code Unit).Acts Unnoted :=
  (frame_modify hl hf).unnoted

/-- The handshake of a write begins with no acknowledgement. -/
theorem setUpFrames_peers (ptr : BitVec 32) (bytes : List (BitVec 8)) (hz : Starting fd dest z) :
    ThreadPeers (id : Unit → Unit) (fun _ z' => Sending fd dest z')
    (setUpFrames dest ptr bytes) z := by
  unfold setUpFrames
  refine starting_then hz (unnoted_modify (by rfl) fun _ => rfl) fun _ z hz => ?_
  refine starting_then hz (unnoted_load _) fun address z hz => ?_
  refine starting_then hz (unnoted_modify (by rfl) fun _ => rfl) fun _ z hz => ?_
  refine starting_then hz (unnoted_modify (by rfl) fun _ => rfl) fun _ z hz => ?_
  refine starting_then hz (unnoted_modify (by rfl) fun _ => rfl) fun _ z hz => ?_
  refine starting_then hz (unnoted_modify (by rfl) fun _ => rfl) fun _ z hz => ?_
  refine starting_then hz ((frame_copyTx _ _ _).comp fun v =>
    (((v.1.1.handshakeState, v.1.1.pendingPort, v.1.1.txStatus), v.1.1.fdTxDestmap,
      v.1.2.2.1.accepted), v.1.2.1.regs.sysFrameValid)).unnoted fun _ z hz => ?_
  refine starting_then hz (unnoted_modify (by rfl) fun _ => rfl) fun _ z hz => ?_
  refine starting_then hz (unnoted_modify (by rfl) fun _ => rfl) fun _ z hz => ?_
  refine starting_then hz (unnoted_modify (by rfl) fun _ => rfl) fun _ z hz => ?_
  refine starting_then hz (unnoted_modify (by rfl) fun _ => rfl) fun _ z hz => ?_
  -- `STATE_TXSCOUT`: a frame that waits now will be taken as the acknowledgement
  refine safe_observe_modify fun z' hr hi hc => ⟨trivial, ?_, ?_⟩
  · have h1 : (2#32 : BitVec 32) ≠ 1#32 := by decide
    have h3 : (2#32 : BitVec 32) ≠ 3#32 := by decide
    exact ⟨fun hv => ⟨fun h => absurd h h1, fun _ => hc hv⟩, fun h => absurd h h3,
      ⟨hi.consistent.marked, hi.consistent.sent⟩⟩
  · have hz' := stable_starting z z' hr hi hz
    have hsend : Sending fd dest ({ z'.1 with vars := { z'.1.vars with handshakeState := 2#32 } },
        Peers.note (.txScout dest) z'.1 z'.2) :=
      ⟨hz'.destmap, rfl, fun h => absurd (hz'.txStatus.symm.trans h) (by decide)⟩
    exact sending_frame (p := storeTx (·.writeStart 0#32)) hsend
      (unnoted_modify (by rfl) fun _ => rfl)

/-- What holds when a call returns. -/
def Returns (a : NetCall × Reply) (z : PeerState) : Prop :=
  PeerShared (peerKernel.finish a z) ∧ NotSending (peerKernel.finish a z)

/-- A call that is not a write that returns its count. -/
theorem returns_unnoted {c : NetCall} {a : Reply} (hi : PeerShared z) (hz : NotSending z)
    (ha : ∀ d x, Peers.returned c a d x = x) : Returns (c, a) z := by
  have hfin : SamePeers z.1 (finish a z.1) := by
    cases a <;> exact ⟨rfl, rfl, rfl, rfl, id⟩
  have heq : peerKernel.finish (c, a) z = (finish a z.1, z.2) := by
    show (finish a z.1, Peers.returned c a z.1 z.2) = _
    rw [ha]
  unfold Returns
  rw [heq]
  exact ⟨hi.of_same hfin, hz.of_same hfin⟩

theorem ret_unnoted {c : NetCall} {a : Reply} (hz : NotSending z)
    (ha : ∀ d x, Peers.returned c a d x = x) :
    ThreadPeers (Prod.mk c) Returns (pure a) z :=
  fun z' hr hi => returns_unnoted hi (stable_notSending z z' hr hi hz) ha

/-- `econet_write` has found its handshake over, with both acknowledgements. -/
structure Acknowledged (fd : Fd) (z : PeerState) : Prop where
  idle : NotSending z
  scoutAck : z.2.scoutAck = some (z.1.vars.fdTxDestmap fd).address
  dataAck : z.2.dataAck = some (z.1.vars.fdTxDestmap fd).address

theorem stable_acknowledged : Stable peerThread (Acknowledged fd) := fun _ _ hr _ h => by
  obtain ⟨h1, -, h2, h3⟩ := hr.idle h.idle
  refine ⟨h1, ?_, ?_⟩
  · rw [h2, hr.destmap]; exact h.scoutAck
  · rw [h3, hr.destmap]; exact h.dataAck

theorem Acknowledged.returns (hi : PeerShared z) (h : Acknowledged fd z) (ptr : BitVec 32)
    (bytes : List (BitVec 8)) (n : BitVec 32) :
    Returns (.io (.write fd ptr bytes), .count n) z := by
  refine ⟨⟨fun hv => ⟨(hi.pending hv).data, (hi.pending hv).ack⟩, hi.acked, hi.consistent.marked,
    fun m hm => ?_⟩, h.idle⟩
  obtain hm | hm := List.mem_append.mp hm
  · exact hi.consistent.sent m hm
  · rw [List.mem_singleton.mp hm]
    exact ⟨h.scoutAck, h.dataAck⟩

theorem awaitHandshake_peers (ptr : BitVec 32) (bytes : List (BitVec 8)) (n : BitVec 32)
    (hz : Sending fd dest z) :
    ThreadPeers (Prod.mk (.io (.write fd ptr bytes))) Returns (awaitHandshake n) z := by
  unfold awaitHandshake
  refine sending_then hz (unnoted_modify (by rfl) fun _ => rfl) fun _ z hz => ?_
  refine safe_observe_wait fun z' hr hi _ => ⟨trivial, fun hover => ⟨hi, ?_⟩⟩
  have hz' := stable_sending z z' hr hi hz
  -- the loop is left: the handshake is over, and nothing changes the status any more
  have hidle : NotSending z' := by
    have hle : ¬2#32 ≤ z'.1.vars.handshakeState := of_decide_eq_false hover
    show z'.1.vars.handshakeState < 2#32
    bv_omega
  refine safe_observe_read fun z'' hr hi _ => ⟨trivial, hi, ?_⟩
  have hz'' := stable_sending z' z'' hr hi hz'
  have hidle := stable_notSending z' z'' hr hi hidle
  split
  · next hdone =>
    obtain ⟨h1, h2⟩ := hz''.done hdone
    have hack : Acknowledged fd z'' := by
      refine ⟨hidle, ?_, ?_⟩
      · rw [hz''.destmap, h1, hz''.address]
      · rw [hz''.destmap, h2, hz''.address]
    exact fun z₃ hr hi => (stable_acknowledged z'' z₃ hr hi hack).returns hi ptr bytes n
  refine notSending_then hidle (unnoted_load _) fun timeout z _ hz => ?_
  split
  · exact ret_unnoted hz fun _ _ => rfl
  · exact ret_unnoted hz fun _ _ => rfl

theorem econetWrite_peers (fd : Fd) (ptr : BitVec 32) (bytes : List (BitVec 8))
    (hz : NotSending z) :
    ThreadPeers (Prod.mk (.io (.write fd ptr bytes))) Returns (econetWrite fd ptr bytes) z := by
  unfold econetWrite
  split
  · exact ret_unnoted hz fun _ _ => rfl
  -- the status of the last write is reset
  refine safe_observe_modify fun z' hr hi _ => ⟨trivial, ?_, ?_⟩
  · exact ⟨fun hv => ⟨(hi.pending hv).data, (hi.pending hv).ack⟩, hi.acked, hi.consistent⟩
  have hz := stable_notSending z z' hr hi hz
  have hstart : Starting fd (z'.1.vars.fdTxDestmap fd)
      ({ z'.1 with vars := { z'.1.vars with txStatus := 0#32 } }, z'.2) := ⟨hz, rfl, rfl⟩
  refine starting_then hstart (unnoted_modify (by rfl) fun _ => rfl) fun _ z hz => ?_
  refine starting_then hz (unnoted_modify (by rfl) fun _ => rfl) fun _ z hz => ?_
  refine safe_observe_read fun z'' hr hi _ => ⟨trivial, hi, ?_⟩
  have hz := stable_starting z z'' hr hi hz
  rw [hz.destmap]
  split
  · exact ret_unnoted hz.idle fun _ _ => rfl
  refine starting_then hz ?_ fun _ z hz => ?_
  · have hline : ∀ d x, Peers.note .lineStatus d x = x := fun _ _ => rfl
    refine ⟨fun c hc => ?_, fun c hc => ?_, ⟨fun _ _ => rfl, fun _ => rfl⟩, trivial⟩
    · rw [List.mem_singleton.mp hc]; exact ⟨hline, preserves_id⟩
    · rw [List.mem_singleton.mp hc]; exact ⟨hline, preserves_id⟩
  refine safe_observe_bind ((setUpFrames_peers ptr bytes hz).mono fun _ z _ hz => ?_)
  refine sending_then hz (unnoted_modify (by rfl) fun _ => rfl) fun _ z hz => ?_
  exact awaitHandshake_peers ptr bytes _ hz

/-- A call that the record does not depend on. -/
theorem call_samePeers {c : NetCall} {p : Code Reply}
    (hp : p.Acts fun l f => (∀ d x, Peers.note l d x = x) ∧ ∀ d, SamePeers d (f d))
    (ha : ∀ a d x, Peers.returned c a d x = x) (hz : NotSending z) :
    ThreadPeers (Prod.mk c) Returns p z := by
  refine safe_observe_map ((keeps_samePeers stable_notSending
    (hp.mono fun l f hf => ⟨hf.1, fun z => ?_⟩)
    hz).mono fun a _ hi hz => returns_unnoted hi hz (ha a))
  exact ⟨hf.2 z.1, fun h => h.of_same (hf.2 z.1)⟩

theorem call_unnoted {c : NetCall} {p : Code Reply} (hp : p.Acts Unnoted)
    (ha : ∀ a d x, Peers.returned c a d x = x) (hz : NotSending z) :
    ThreadPeers (Prod.mk c) Returns p z :=
  call_samePeers (hp.mono fun _ _ hf => ⟨hf.1, fun d => (samePeers_of_part (hf.2 d)).1⟩) ha hz

theorem samePeers_of_control {d d' : Driver} (h : besideControl d' = besideControl d)
    (hv : d'.frameValid = true → d.frameValid = true) : SamePeers d d' := by
  obtain ⟨⟨h1, -, -⟩, ⟨h2, h3⟩, -, h4, -⟩ : (d'.vars.handshakeState = d.vars.handshakeState ∧
      d'.vars.mstatus = d.vars.mstatus ∧ d'.timer = d.timer) ∧
      (d'.vars.pendingPort = d.vars.pendingPort ∧ d'.vars.txStatus = d.vars.txStatus) ∧
      d'.tx = d.tx ∧ d'.log = d.log ∧ d'.deliv = d.deliv := by
    simpa [besideControl] using h
  exact ⟨h1, h2, h3, congrArg (fun g : RxLog => source g.accepted) h4, hv⟩

/-- `econet_ioctl` may reset `sys_frame_valid`, and changes destinations. -/
theorem econetIoctl_peers (fd : Fd) (request : BitVec 32) (dest : EconetAddr) (hz : NotSending z) :
    ThreadPeers (Prod.mk (.ioctl fd request dest)) Returns (econetIoctl fd request dest) z := by
  have hp : (econetIoctl fd request dest).Acts fun l f =>
      (∀ d x, Peers.note l d x = x) ∧ ∀ d, SamePeers d (f d) := by
    refine Prog.Acts.mono ?_ ((frame_econetIoctl fd request dest).and
      (lowers_econetIoctl fd request dest))
    exact fun l f hf => ⟨note_quiet hf.1.1, fun d => samePeers_of_control (hf.1.2 d) (hf.2 d)⟩
  exact call_samePeers hp (fun _ _ _ => rfl) hz

theorem econetClose_peers (fd : Fd) (hz : NotSending z) :
    ThreadPeers (Prod.mk (.close fd)) Returns (econetClose fd) z := by
  refine call_samePeers ((frame_econetClose fd).mono fun l f hf => ⟨note_quiet hf.1, fun d => ?_⟩)
    (fun _ _ _ => rfl) hz
  obtain ⟨h1, h2⟩ := Prod.mk.inj (hf.2 d)
  refine samePeers_of_control h1 fun hv => ?_
  rw [frameValid, h2] at hv
  exact hv

theorem code_peers (c : NetCall) (hz : NotSending z) :
    ThreadPeers (Prod.mk c) Returns c.code z := by
  cases c with
  | io c =>
    cases c with
    | read fd ptr count =>
      exact call_unnoted ((frame_econetRead fd ptr count).comp fun c =>
        (((c.handshakeState, c.pendingPort, c.txStatus), c.fdTxDestmap, c.accepted),
          c.rx.regs.sysFrameValid)).unnoted (fun _ _ _ => rfl) hz
    | peek fd => exact call_unnoted (frame_econetPeek fd).unnoted (fun _ _ _ => rfl) hz
    | write fd ptr bytes => exact econetWrite_peers fd ptr bytes hz
  | ioctl fd request dest => exact econetIoctl_peers fd request dest hz
  | close fd => exact econetClose_peers fd hz

end Thread

/-! ### Runs -/

theorem net_peersVerified :
    Verified peerKernel peerThread peerHandler PeerCond AnyPeerAccess PeerEnv NotSending where
  env_thread i z hz hi := ⟨peerShared_hw hz hi, peerRely_of_vars (hw_vars z.1 i).1 rfl⟩
  env_isr _ _ hz hi := ⟨hz, peerHwRely_hw hi⟩
  isr _ hz _ := ⟨hz.consistent, isrTrap_peers hz⟩
  call c _ _ hz := code_peers c hz
  ready_rely _ _ _ hz hr := (hr.idle hz).1

instance (z : PeerState) : ∀ l : Access, Decidable (PeerCond l z)
  | .txScout _ => inferInstanceAs (Decidable (_ → _))
  | .plain | .txStore | .lineStatus | .lineIdle | .dataAck | .ready | .rxRead | .monitor
  | .scoutState | .scoutPort .. | .ackScout | .dataState | .ackData | .errorState
  | .timeoutState | .bind .. => isTrue trivial

instance (inIsr : Bool) (i : Hw) (z : PeerState) : Decidable (PeerEnv inIsr i z) :=
  inferInstanceAs (Decidable (_ → _))

/-- The condition on a step: no other station sends a frame in a handshake. -/
def OnePeer (y : PeerSystem) (e : NetEvent) : Prop := y.Meets PeerCond PeerEnv e

instance (y : PeerSystem) (e : NetEvent) : Decidable (OnePeer y e) :=
  inferInstanceAs (Decidable (y.Meets PeerCond PeerEnv e))

/-- The system with an empty record. -/
abbrev withPeers (y : System) : PeerSystem := y.observed NetCall Peers.empty

theorem sound_peers_of_init {y : System} (hy : Init y) :
    Interrupted.Sound peerKernel peerThread peerHandler PeerCond AnyPeerAccess NotSending
    (withPeers y) := by
  have hstate : y.shared.vars.handshakeState = 0#32 := hy.handshakeState
  refine ⟨⟨fun hv => ?_, fun h => ?_, ⟨by simp [Interrupted.observed, Peers.empty], by
    simp [Interrupted.observed, Peers.empty]⟩⟩, ?_⟩
  · exact absurd (hy.frameValid.symm.trans hv) Bool.false_ne_true
  · exact absurd (hstate.symm.trans h) (by decide)
  · show y.shared.vars.handshakeState < 2#32
    rw [hstate]
    decide

theorem consistent_of_sound {z : PeerSystem}
    (h : z.Sound peerKernel peerThread peerHandler PeerCond AnyPeerAccess NotSending) :
    z.shared.2.Consistent := by
  obtain ⟨s, t, i⟩ := z
  cases i with
  | none => exact PeerShared.consistent h.1
  | some p => exact h.1

/-- **The stations of a handshake are the right ones**, in every run in which no other station sends
a frame in one; the driver does what it does without the record. -/
theorem peers_consistent (y : System) (hy : Init y) (es : List NetEvent)
    (hes : Machine.StepsMeet (Interrupted.step peerKernel) OnePeer (withPeers y) es) :
    (Machine.run (Interrupted.step peerKernel) (withPeers y) es).shared.2.Consistent ∧
      (Machine.run (Interrupted.step peerKernel) (withPeers y) es).shared.1
        = (Machine.run (Interrupted.step netKernel) y es).shared :=
  ⟨consistent_of_sound (Interrupted.run_sound net_peersVerified (sound_peers_of_init hy) es hes),
    Interrupted.observe_run hy.thread hy.isr Peers.empty es⟩

/-- Station `s` sends these bytes to station `0x42`. -/
def fromStation (s : BitVec 8) (bytes : List (BitVec 8)) : List Event :=
  onLine (frameOnLine (checked ([0x42#8, 0#8, s, 0#8] ++ bytes)) ++ [true, true])

/-- A scout from station 1 with data from station `s`, then a write to station 1 that station `s`
acknowledges. -/
def peersRun (s : BitVec 8) : List NetEvent :=
  (fromStation 1#8 [0x80#8, 0x99#8] ++ handled ++ fromStation s [1#8, 2#8] ++ handled ++
    called (.write 5 0#32 []) 24 ++ idleLine 110 ++ fromStation s [] ++ handled ++ idleLine 80 ++
    fromStation s [] ++ handled ++ List.replicate 10 SysEvent.thread).map Event.net

/-- Station 1 in both handshakes. -/
theorem peersRun_consistent :
    (Machine.run (Interrupted.step peerKernel) (withPeers station) (peersRun 1#8)).shared.2.sent
        = [(1#16, some 1#16, some 1#16)] ∧
      (Machine.run (Interrupted.step peerKernel) (withPeers station)
        (peersRun 1#8)).shared.2.Consistent := by
  have hrun : Machine.RunsTo (Interrupted.step peerKernel) OnePeer
      (fun z => z.shared.2.sent = [(1#16, some 1#16, some 1#16)]) (withPeers station)
      (peersRun 1#8) := by
    decide +kernel
  exact ⟨hrun.run, (peers_consistent station init_station (peersRun 1#8) hrun.stepsMeet).1⟩

/-- Station 2 in the place of station 1: its frame becomes the data of the scout, and its frames the
acknowledgements of the write. -/
theorem peersRun_impostor :
    Init station ∧
      ¬(Machine.run (Interrupted.step peerKernel) (withPeers station)
        (peersRun 2#8)).shared.2.Consistent := by
  -- no frame comes in the way of the handler, or of the store of the write
  have hrun : Machine.RunsTo (Interrupted.step peerKernel) (fun z e => z.Meets PeerCond
        (fun inIsr i z => i = .rise → z.1.accepts = true → inIsr = false) e)
      (fun z => z.shared.2.marked = [(some 1#16, 2#16)] ∧
        z.shared.2.sent = [(1#16, some 2#16, some 2#16)])
      (withPeers station) (peersRun 2#8) := by
    decide +kernel
  obtain ⟨hmarked, -⟩ := hrun.run
  refine ⟨init_station, fun h => ?_⟩
  have hm := h.marked (some 1#16, 2#16) (by rw [hmarked]; exact List.mem_cons_self)
  exact absurd hm (by decide)

end Filestick.RawEconet
