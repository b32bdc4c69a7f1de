import Filestick.System.EconetIoctl
import Filestick.System.Equiv.RawEconet

/-!
# What the code of the driver leaves alone

`Leaves v p` says that no access of the program `p` changes the part `v` of the state, and `Frame v
p` that, moreover, none has a label that stands for something.  The acknowledgements of the handler
leave all variables (`frame_econetAck`), and reading and peeking leave the `Core` of the handshake
(`frame_econetRead`, `frame_econetPeek`).  `StoresBy L` is for the code that moves the handshake on,
by stores with labels of `L`.  What the handler never changes is `besideHandler`
(`leaves_isrTrap`), and what `econet_write` never changes is
`besideWrite` (`writeActs_econetWrite`).
All that the code does to the receiver is to write to its registers (`registersOnly_code`,
`registersOnly_isrTrap`).
-/

namespace Filestick.RawEconet

open Driver

/-! ### Parts of the state -/

section Leaves

variable {β γ : Type} {v : Driver → β} {α : Type}

/-- An access that leaves the part `v`. -/
def Preserves (v : Driver → β) (f : Driver → Driver) : Prop := ∀ d, v (f d) = v d

/-- Code that leaves the part `v`. -/
abbrev Leaves (v : Driver → β) (p : Code α) : Prop := p.Acts fun _ f => Preserves v f

/-- The labels that stand for nothing in the handshake. -/
def Access.quiet : Access → Bool
  | .plain | .txStore | .rxRead | .bind .. => true
  | _ => false

/-- Code that leaves the part `v`, by accesses that stand for nothing in the handshake. -/
abbrev Frame (v : Driver → β) (p : Code α) : Prop :=
  p.Acts fun l f => l.quiet = true ∧ Preserves v f

theorem preserves_id : Preserves v id := fun _ => rfl

theorem leaves_pure (a : α) : Leaves v (pure a : Code α) := trivial

theorem leaves_read (l : Access) (f : Driver → α) : Leaves v (Prog.read l f) :=
  ⟨preserves_id, fun _ => trivial⟩

theorem leaves_load (f : Driver → α) : Leaves v (load f) := leaves_read .plain f

theorem leaves_modify {l : Access} {f : Driver → Driver} (hf : Preserves v f) :
    Leaves v (Prog.modify l f) :=
  ⟨hf, fun _ => trivial⟩

theorem leaves_wait {l : Access} {c : Driver → Bool} {exit : Driver → Driver}
    (hf : Preserves v exit)
    {cs : List (Access × (Driver → Bool))} : Leaves v (Prog.wait cs (l, c) exit) :=
  ⟨fun _ _ => preserves_id, fun _ _ => preserves_id, hf, trivial⟩

theorem Frame.leaves {p : Code α} (h : Frame v p) : Leaves v p := h.mono fun _ _ hf => hf.2

/-- What leaves a part leaves everything that depends on it only. -/
theorem Frame.comp {p : Code α} (h : Frame v p) (g : β → γ) : Frame (fun d => g (v d)) p :=
  Prog.Acts.mono (fun _ _ hf => ⟨hf.1, fun d => congrArg g (hf.2 d)⟩) h

theorem frame_pure (a : α) : Frame v (pure a : Code α) := trivial

theorem frame_load (f : Driver → α) : Frame v (load f) := ⟨⟨rfl, preserves_id⟩, fun _ => trivial⟩

theorem frame_modify {l : Access} {f : Driver → Driver} (hl : l.quiet = true) (hf : Preserves v f) :
    Frame v (Prog.modify l f) :=
  ⟨⟨hl, hf⟩, fun _ => trivial⟩

theorem frame_poll {c : Driver → Bool} {exit : Driver → Driver} (hf : Preserves v exit) :
    Frame v (Prog.wait [] (.plain, c) exit) :=
  ⟨fun _ hc => (nomatch hc), fun _ hc => (nomatch hc), ⟨rfl, hf⟩, trivial⟩

end Leaves

/-! ### The handler's answers -/

/-- All but the transmitter and the timer. -/
def besideTx (d : Driver) : Vars × BufferedEconet × RxLog × Delivery :=
  (d.vars, d.rx, d.log, d.deliv)

theorem frame_econetAck : Frame besideTx econetAck := by
  refine Prog.acts_bind (frame_modify (by rfl) fun _ => rfl) fun _ =>
    Prog.acts_bind (frame_load _) fun _ => ?_
  refine Prog.acts_bind (frame_modify (by rfl) fun _ => rfl) fun _ => ?_
  refine Prog.acts_bind (frame_modify (by rfl) fun _ => rfl) fun _ => ?_
  refine Prog.acts_bind (frame_modify (by rfl) fun _ => rfl) fun _ => ?_
  exact Prog.acts_bind (frame_modify (by rfl) fun _ => rfl) fun _ =>
    frame_modify (by rfl) fun _ => rfl

/-- All but the transmitter. -/
def besideBuffer (d : Driver) : (Vars × BufferedEconet × RxLog × Delivery) × Timer :=
  (besideTx d, d.timer)

theorem frame_econetRxImm : Frame besideBuffer econetRxImm := by
  refine Prog.acts_bind (frame_load _) fun _ => ?_
  split
  · refine Prog.acts_bind (frame_load _) fun _ => ?_
    split
    · refine Prog.acts_bind (frame_modify (by rfl) fun _ => rfl) fun _ => ?_
      refine Prog.acts_bind (frame_load _) fun _ => ?_
      refine Prog.acts_bind (frame_modify (by rfl) fun _ => rfl) fun _ => ?_
      refine Prog.acts_bind (frame_modify (by rfl) fun _ => rfl) fun _ => ?_
      exact Prog.acts_bind (frame_modify (by rfl) fun _ => rfl) fun _ =>
        frame_modify (by rfl) fun _ => rfl
    · exact frame_pure _
  · exact frame_pure _

/-! ### Reads -/

/-- What the handshake depends on. -/
structure Core where
  mstatus : Bool
  handshakeState : BitVec 32
  pendingPort : BitVec 32
  txStatus : BitVec 32
  timeoutState : BitVec 32
  fdRxPortmap : Fd → BitVec 8
  fdTxDestmap : Fd → EconetAddr
  timer : Timer
  rx : BufferedEconet
  tx : EconetTxBuffered
  accepted : List (BitVec 8)
  frame : FrameLog
  writing : Bool

/-- What the handshake depends on in a state. -/
def core (d : Driver) : Core where
  mstatus := d.vars.mstatus
  handshakeState := d.vars.handshakeState
  pendingPort := d.vars.pendingPort
  txStatus := d.vars.txStatus
  timeoutState := d.vars.timeoutState
  fdRxPortmap := d.vars.fdRxPortmap
  fdTxDestmap := d.vars.fdTxDestmap
  timer := d.timer
  rx := d.rx
  tx := d.tx
  accepted := d.log.accepted
  frame := d.log.frame
  writing := d.deliv.writing

theorem frame_copyRx {β : Type} {v : Driver → β} (cs : List ℕ) (src : BitVec 32) :
    Frame v (copyRx cs src) := by
  induction cs generalizing src with
  | nil => exact frame_pure []
  | cons c cs ih =>
    exact Prog.acts_bind (⟨⟨rfl, preserves_id⟩, fun _ => trivial⟩) fun _ =>
      Prog.acts_bind (ih _) fun _ => frame_pure _

theorem frame_copySize {β : Type} {v : Driver → β} (count : BitVec 32) :
    Frame v (copySize count) := by
  refine Prog.acts_bind (frame_load _) fun _ => ?_
  split
  · exact frame_pure _
  · exact frame_load _

/-- All but the variables of the read, and the record. -/
def besideRead (d : Driver) : Core × (BitVec 8 → BitVec 8) := (core d, d.vars.portList)

theorem frame_econetMonitor (ptr count : BitVec 32) :
    Frame besideRead (econetMonitor ptr count) := by
  refine Prog.acts_bind (frame_poll preserves_id) fun _ => ?_
  refine Prog.acts_bind (frame_copySize _) fun _ => Prog.acts_bind (frame_load _) fun _ => ?_
  refine Prog.acts_bind (frame_copyRx _ _) fun _ => Prog.acts_bind (frame_load _) fun _ => ?_
  split
  · refine Prog.acts_bind (frame_load _) fun _ =>
      Prog.acts_bind (frame_modify (by rfl) fun _ => rfl) fun _ => ?_
    refine Prog.acts_bind (frame_load _) fun _ =>
      Prog.acts_bind (frame_modify (by rfl) fun _ => rfl) fun _ => ?_
    exact frame_pure _
  · exact Prog.acts_bind (frame_modify (by rfl) fun _ => rfl) fun _ => frame_pure _

theorem frame_copyOut (fd : Fd) (port : BitVec 8) (ptr count : BitVec 32) :
    Frame core (copyOut fd port ptr count) := by
  refine Prog.acts_bind (frame_copySize _) fun _ => Prog.acts_bind (frame_load _) fun _ => ?_
  refine Prog.acts_bind (frame_copyRx _ _) fun _ => Prog.acts_bind (frame_load _) fun _ => ?_
  split
  · refine Prog.acts_bind (frame_load _) fun _ =>
      Prog.acts_bind (frame_modify (by rfl) fun _ => rfl) fun _ => ?_
    refine Prog.acts_bind (frame_load _) fun _ =>
      Prog.acts_bind (frame_modify (by rfl) fun _ => rfl) fun _ => ?_
    exact frame_pure _
  · exact Prog.acts_bind (frame_modify (by rfl) fun _ => rfl) fun _ => frame_pure _

theorem frame_econetRead (fd : Fd) (ptr count : BitVec 32) :
    Frame core (econetRead fd ptr count) := by
  refine Prog.acts_bind (frame_load _) fun monitor => ?_
  split
  · exact (frame_econetMonitor ptr count).comp Prod.fst
  refine Prog.acts_bind (frame_load _) fun port => ?_
  split
  · exact frame_pure _
  have hbegin : Preserves core beginRead := fun _ => rfl
  exact Prog.acts_bind (frame_poll hbegin) fun _ => frame_copyOut fd port ptr count

theorem frame_econetPeek {β : Type} {v : Driver → β} (fd : Fd) : Frame v (econetPeek fd) := by
  refine Prog.acts_bind (frame_load _) fun monitor => ?_
  split
  · exact Prog.acts_bind (frame_load _) fun _ => frame_pure _
  refine Prog.acts_bind (frame_load _) fun port => ?_
  split
  · exact frame_pure _
  refine Prog.acts_bind (frame_load _) fun ready => ?_
  split
  · exact Prog.acts_bind (frame_load _) fun _ => frame_pure _
  · exact frame_pure _

/-! ### Writes -/

theorem frame_copyTx (cs : List ℕ) (offset : ℕ) (bytes : List (BitVec 8)) :
    Frame besideBuffer (copyTx cs offset bytes) := by
  induction cs generalizing offset bytes with
  | nil => exact frame_pure _
  | cons c cs ih => exact Prog.acts_bind (frame_modify (by rfl) fun _ => rfl) fun _ => ih _ _

/-! ### Stores to `econet_handshake_state` -/

/-- An access that leaves `econet_handshake_state`. -/
abbrev KeepsState (f : Driver → Driver) : Prop := Preserves (fun d => d.vars.handshakeState) f

/-- The labels of the stores to `econet_handshake_state`. -/
def Access.storesState : Access → Bool
  | .scoutState | .txScout _ | .ackScout | .dataState | .ackData | .errorState | .timeoutState =>
    true
  | _ => false

/-- The ports and the descriptors that are bound to them. -/
def portPart (d : Driver) : (BitVec 8 → BitVec 8) × (Fd → BitVec 8) :=
  (d.vars.portList, d.vars.fdRxPortmap)

/-- An access that stores to `econet_handshake_state` by a label of `L`, and keeps the ports. -/
def StoresBy (L : Access → Prop) (l : Access) (f : Driver → Driver) : Prop :=
  (L l ∨ KeepsState f) ∧ Preserves portPart f

/-- The stores to `econet_handshake_state` have their labels. -/
abbrev Labelled : Access → Prop := fun l => l.storesState = true

/-- The label of the store of `STATE_TXSCOUT`. -/
abbrev BeginsWrite : Access → Prop := fun l => ∃ dest, l = .txScout dest

section Stores

variable {α : Type} {L : Access → Prop}

theorem Frame.stores {p : Code α} (hp : Frame (fun d => (d.vars.handshakeState, portPart d)) p) :
    p.Acts (StoresBy L) :=
  Prog.Acts.mono (fun _ _ hf =>
    ⟨Or.inr fun d => congrArg Prod.fst (hf.2 d), fun d => congrArg Prod.snd (hf.2 d)⟩) hp

theorem stores_pure (a : α) : (pure a : Code α).Acts (StoresBy L) := trivial

theorem stores_read (l : Access) (f : Driver → α) : (Prog.read l f).Acts (StoresBy L) :=
  ⟨⟨Or.inr preserves_id, preserves_id⟩, fun _ => trivial⟩

theorem stores_load (f : Driver → α) : (load f).Acts (StoresBy L) := stores_read .plain f

theorem stores_modify {l : Access} {f : Driver → Driver}
    (hf : Preserves (fun d => (d.vars.handshakeState, portPart d)) f) :
    (Prog.modify l f).Acts (StoresBy L) :=
  ⟨⟨Or.inr fun d => congrArg Prod.fst (hf d), fun d => congrArg Prod.snd (hf d)⟩, fun _ => trivial⟩

theorem stores_state {l : Access} {f : Driver → Driver} (hl : L l) (hf : Preserves portPart f) :
    (Prog.modify l f).Acts (StoresBy L) :=
  ⟨⟨Or.inl hl, hf⟩, fun _ => trivial⟩

theorem stores_wait {l : Access} {c : Driver → Bool} {exit : Driver → Driver}
    (hf : Preserves (fun d => (d.vars.handshakeState, portPart d)) exit)
    {cs : List (Access × (Driver → Bool))} :
    (Prog.wait cs (l, c) exit).Acts (StoresBy L) :=
  ⟨fun _ _ => ⟨Or.inr preserves_id, preserves_id⟩, fun _ _ => ⟨Or.inr preserves_id, preserves_id⟩,
    ⟨Or.inr fun d => congrArg Prod.fst (hf d), fun d => congrArg Prod.snd (hf d)⟩, trivial⟩

theorem stores_econetAck : econetAck.Acts (StoresBy L) :=
  (frame_econetAck.comp fun v => (v.1.handshakeState, v.1.portList, v.1.fdRxPortmap)).stores

theorem stores_scoutAck : scoutAck.Acts (StoresBy Labelled) := by
  refine Prog.acts_bind (stores_load _) fun len => ?_
  split
  · refine Prog.acts_bind (stores_load _) fun port => Prog.acts_bind (stores_load _) fun fd => ?_
    split
    · refine Prog.acts_bind (stores_state rfl fun _ => rfl) fun _ => ?_
      exact Prog.acts_bind (stores_modify fun _ => rfl) fun _ => stores_econetAck
    · exact stores_pure _
  · exact (frame_econetRxImm.comp fun v =>
      (v.1.1.handshakeState, v.1.1.portList, v.1.1.fdRxPortmap)).stores

theorem stores_txError : txError.Acts (StoresBy Labelled) :=
  Prog.acts_bind (stores_state rfl fun _ => rfl) fun _ => stores_modify fun _ => rfl

theorem stores_rxScoutAck : rxScoutAck.Acts (StoresBy Labelled) := by
  refine Prog.acts_bind (stores_load _) fun len => ?_
  split
  · refine Prog.acts_bind (stores_modify fun _ => rfl) fun _ => ?_
    refine Prog.acts_bind (stores_state rfl fun _ => rfl) fun _ =>
      Prog.acts_bind (stores_load _) fun start => ?_
    refine Prog.acts_bind (stores_modify fun _ => rfl) fun _ =>
      Prog.acts_bind (stores_load _) fun fin => ?_
    refine Prog.acts_bind (stores_modify fun _ => rfl) fun _ => ?_
    exact Prog.acts_bind (stores_modify fun _ => rfl) fun _ => stores_modify fun _ => rfl
  · exact stores_txError

theorem stores_rxDataAck : rxDataAck.Acts (StoresBy Labelled) := by
  refine Prog.acts_bind (stores_load _) fun len => ?_
  split
  · exact Prog.acts_bind (stores_state rfl fun _ => rfl) fun _ => stores_modify fun _ => rfl
  · exact stores_txError

theorem stores_rxMonitor : rxMonitor.Acts (StoresBy Labelled) := by
  refine Prog.acts_bind (stores_read _ _) fun frames => ?_
  refine Prog.acts_bind (stores_modify fun _ => rfl) fun _ =>
    Prog.acts_bind (stores_load _) fun start => ?_
  refine Prog.acts_bind (stores_modify fun _ => rfl) fun _ =>
    Prog.acts_bind (stores_load _) fun len => ?_
  exact stores_modify fun _ => rfl

theorem stores_econetTimeout : econetTimeout.Acts (StoresBy Labelled) := by
  refine Prog.acts_bind (stores_modify fun _ => rfl) fun _ =>
    Prog.acts_bind (stores_load _) fun state => ?_
  exact Prog.acts_bind (stores_modify fun _ => rfl) fun _ => stores_state rfl fun _ => rfl

theorem stores_setUpFrames (dest : EconetAddr) (ptr : BitVec 32) (bytes : List (BitVec 8)) :
    (setUpFrames dest ptr bytes).Acts (StoresBy BeginsWrite) := by
  refine Prog.acts_bind (stores_modify fun _ => rfl) fun _ =>
    Prog.acts_bind (stores_load _) fun address => ?_
  refine Prog.acts_bind (stores_modify fun _ => rfl) fun _ => ?_
  refine Prog.acts_bind (stores_modify fun _ => rfl) fun _ => ?_
  refine Prog.acts_bind (stores_modify fun _ => rfl) fun _ => ?_
  refine Prog.acts_bind (stores_modify fun _ => rfl) fun _ => ?_
  refine Prog.acts_bind ((frame_copyTx _ _ _).comp fun v =>
    (v.1.1.handshakeState, v.1.1.portList, v.1.1.fdRxPortmap)).stores fun _ => ?_
  refine Prog.acts_bind (stores_modify fun _ => rfl) fun _ => ?_
  refine Prog.acts_bind (stores_modify fun _ => rfl) fun _ => ?_
  refine Prog.acts_bind (stores_modify fun _ => rfl) fun _ => ?_
  refine Prog.acts_bind (stores_modify fun _ => rfl) fun _ => ?_
  exact Prog.acts_bind (stores_state ⟨dest, rfl⟩ fun _ => rfl) fun _ => stores_modify fun _ => rfl

theorem frame_awaitHandshake (count : BitVec 32) :
    Frame (fun d => (d.vars.handshakeState, portPart d)) (awaitHandshake count) := by
  refine Prog.acts_bind (frame_modify (by rfl) fun _ => rfl) fun _ => ?_
  refine Prog.acts_bind (frame_poll preserves_id) fun _ => Prog.acts_bind (frame_load _) fun _ => ?_
  split
  · exact frame_pure _
  refine Prog.acts_bind (frame_load _) fun _ => ?_
  split
  · exact frame_pure _
  · exact frame_pure _

theorem stores_econetWrite (fd : Fd) (ptr : BitVec 32) (bytes : List (BitVec 8)) :
    (econetWrite fd ptr bytes).Acts (StoresBy BeginsWrite) := by
  unfold econetWrite
  split
  · exact stores_pure _
  refine Prog.acts_bind (stores_modify fun _ => rfl) fun _ => ?_
  refine Prog.acts_bind (stores_modify fun _ => rfl) fun _ => ?_
  refine Prog.acts_bind (stores_modify fun _ => rfl) fun _ =>
    Prog.acts_bind (stores_load _) fun dest => ?_
  split
  · exact stores_pure _
  have hbegin : Preserves (fun d => (d.vars.handshakeState, portPart d)) beginWrite := fun _ => rfl
  refine Prog.acts_bind (stores_wait hbegin) fun _ => ?_
  refine Prog.acts_bind (stores_setUpFrames dest ptr bytes) fun _ => ?_
  exact Prog.acts_bind (stores_modify fun _ => rfl) fun _ => (frame_awaitHandshake _).stores

end Stores

/-! ### Control calls -/

/-- What no control call touches: all but the address, the ports and destinations, the registers of
the receiver and the counts of the monitor mode. -/
def besideControl (d : Driver) :
    (BitVec 32 × Bool × Timer) × (BitVec 32 × BitVec 32) × EconetTxBuffered × RxLog × Delivery :=
  ((d.vars.handshakeState, d.vars.mstatus, d.timer), (d.vars.pendingPort, d.vars.txStatus), d.tx,
    d.log, d.deliv)

theorem frame_storeDest (fd : Fd) (f : EconetAddr → EconetAddr) :
    Frame besideControl (storeDest fd f) :=
  frame_modify (by rfl) fun _ => rfl

theorem frame_econetIoctl (fd : Fd) (request : BitVec 32) (dest : EconetAddr) :
    Frame besideControl (econetIoctl fd request dest) := by
  unfold econetIoctl
  dsimp only
  split_ifs
  · refine Prog.acts_bind (frame_modify (by rfl) fun _ => rfl) fun _ => ?_
    exact Prog.acts_bind (frame_modify (by rfl) fun _ => rfl) fun _ => frame_pure _
  · refine Prog.acts_bind (frame_modify (by rfl) fun _ => rfl) fun _ => ?_
    exact Prog.acts_bind (frame_modify (by rfl) fun _ => rfl) fun _ => frame_pure _
  · refine Prog.acts_bind (frame_storeDest _ _) fun _ =>
      Prog.acts_bind (frame_storeDest _ _) fun _ => ?_
    exact Prog.acts_bind (frame_storeDest _ _) fun _ => frame_pure _
  · refine Prog.acts_bind (frame_modify (by rfl) fun _ => rfl) fun _ => ?_
    refine Prog.acts_bind (frame_modify (by rfl) fun _ => rfl) fun _ => ?_
    exact Prog.acts_bind (frame_modify (by rfl) fun _ => rfl) fun _ => frame_pure _
  · exact frame_pure _
  · exact Prog.acts_bind (frame_load _) fun _ => frame_pure _
  · exact frame_pure _
  · exact frame_pure _
  · exact frame_pure _

/-- An access that does not raise `sys_frame_valid`. -/
def Lowers (f : Driver → Driver) : Prop := ∀ d, (f d).frameValid = true → d.frameValid = true

/-- A write to a register resets the flag, or leaves it. -/
theorem lowers_sysWrite (a wr : BitVec 4) (v : BitVec 32) :
    Lowers fun d => { d with rx := d.rx.step (.sysWrite a wr v) } := by
  intro d h
  have h' : (if wr.getLsbD 0 then false else d.rx.regs.sysFrameValid) = true := h
  split at h'
  · exact absurd h' Bool.false_ne_true
  · exact h'

theorem frame_econetClose (fd : Fd) :
    Frame (fun d => (besideControl d, d.rx)) (econetClose fd) := by
  refine Prog.acts_bind (frame_load _) fun port => ?_
  split
  · refine Prog.acts_bind (frame_modify (by rfl) fun _ => rfl) fun _ => ?_
    exact Prog.acts_bind (frame_modify (by rfl) fun _ => rfl) fun _ => frame_pure _
  · exact Prog.acts_bind (frame_pure _) fun _ => frame_pure _

/-! ### What a write leaves alone -/

/-- The receiver, and the record of its frames. -/
def receivedPart (d : Driver) : BufferedEconet × FrameLog × List (BitVec 8) :=
  (d.rx, d.log.frame, d.log.accepted)

/-- What `econet_write` never changes. -/
def besideWrite (d : Driver) : (BitVec 32 × BitVec 32) × (BitVec 32 × BitVec 32) ×
    BufferedEconet × FrameLog × List (BitVec 8) :=
  ((d.vars.monitorFrames, d.vars.lastMonitorFrames), (d.vars.bufStart, d.vars.bufLen),
    receivedPart d)

/-- Code of `econet_write`, which does not look at monitored frames. -/
abbrev WriteActs {α : Type} (p : Code α) : Prop :=
  p.Acts fun l f => l ≠ .monitor ∧ Preserves besideWrite f

section Writes

variable {α : Type}

theorem Frame.writeActs {p : Code α} (hp : Frame besideWrite p) : WriteActs p := by
  apply hp.mono
  rintro l f ⟨hl, hf⟩
  refine ⟨?_, hf⟩
  rintro rfl
  exact absurd hl (by decide)

theorem writeActs_modify {l : Access} {f : Driver → Driver} (hl : l ≠ .monitor)
    (hf : Preserves besideWrite f) : WriteActs (Prog.modify l f) :=
  ⟨⟨hl, hf⟩, fun _ => trivial⟩

theorem writeActs_awaitHandshake (count : BitVec 32) : WriteActs (awaitHandshake count) := by
  apply Frame.writeActs
  refine Prog.acts_bind (frame_modify (by rfl) fun _ => rfl) fun _ => ?_
  refine Prog.acts_bind (frame_poll preserves_id) fun _ => Prog.acts_bind (frame_load _) fun _ => ?_
  split
  · exact frame_pure _
  refine Prog.acts_bind (frame_load _) fun _ => ?_
  split
  · exact frame_pure _
  · exact frame_pure _

theorem writeActs_setUpFrames (dest : EconetAddr) (ptr : BitVec 32) (bytes : List (BitVec 8)) :
    WriteActs (setUpFrames dest ptr bytes) := by
  have hplain {f : Driver → Driver} (hf : Preserves besideWrite f) :
      WriteActs (Prog.modify .plain f) := writeActs_modify (by decide) hf
  have htx {f : Driver → Driver} (hf : Preserves besideWrite f) :
      WriteActs (Prog.modify .txStore f) := writeActs_modify (by decide) hf
  refine Prog.acts_bind (hplain fun _ => rfl) fun _ =>
    Prog.acts_bind (frame_load _).writeActs fun address => ?_
  refine Prog.acts_bind (htx fun _ => rfl) fun _ => Prog.acts_bind (htx fun _ => rfl) fun _ => ?_
  refine Prog.acts_bind (htx fun _ => rfl) fun _ => Prog.acts_bind (htx fun _ => rfl) fun _ => ?_
  refine Prog.acts_bind (Frame.writeActs ((frame_copyTx _ _ _).comp fun v =>
    ((v.1.1.monitorFrames, v.1.1.lastMonitorFrames), (v.1.1.bufStart, v.1.1.bufLen),
      v.1.2.1, v.1.2.2.1.frame, v.1.2.2.1.accepted))) fun _ => ?_
  refine Prog.acts_bind (hplain fun _ => rfl) fun _ =>
    Prog.acts_bind (hplain fun _ => rfl) fun _ => ?_
  refine Prog.acts_bind (hplain fun _ => rfl) fun _ =>
    Prog.acts_bind (hplain fun _ => rfl) fun _ => ?_
  exact Prog.acts_bind (writeActs_modify (by simp) fun _ => rfl) fun _ => htx fun _ => rfl

theorem writeActs_econetWrite (fd : Fd) (ptr : BitVec 32) (bytes : List (BitVec 8)) :
    WriteActs (econetWrite fd ptr bytes) := by
  have hplain {f : Driver → Driver} (hf : Preserves besideWrite f) :
      WriteActs (Prog.modify .plain f) := writeActs_modify (by decide) hf
  unfold econetWrite
  split
  · exact (frame_pure _).writeActs
  refine Prog.acts_bind (hplain fun _ => rfl) fun _ =>
    Prog.acts_bind (hplain fun _ => rfl) fun _ => ?_
  refine Prog.acts_bind (hplain fun _ => rfl) fun _ =>
    Prog.acts_bind (frame_load _).writeActs fun dest => ?_
  split
  · exact (frame_pure _).writeActs
  refine Prog.acts_bind ?_ fun _ => Prog.acts_bind (writeActs_setUpFrames dest ptr bytes) fun _ =>
    Prog.acts_bind (writeActs_modify (by decide) fun _ => rfl) fun _ =>
      writeActs_awaitHandshake _
  -- the wait for the line
  have hstatus : ∀ c ∈ [(Access.lineStatus, fun d : Driver => d.receiving || d.frameValid)],
      c.1 ≠ .monitor ∧ Preserves besideWrite (id : Driver → Driver) := by
    intro c hc
    rw [List.mem_singleton.mp hc]
    exact ⟨by decide, preserves_id⟩
  exact ⟨hstatus, hstatus, ⟨by decide, fun _ => rfl⟩, trivial⟩

end Writes

/-! ### The handler -/

/-- What the handler never changes. -/
def besideHandler (d : Driver) : (Bool × BitVec 16) × (BitVec 32 × BitVec 32) ×
    (BitVec 32 × (Fd → BitVec 8) × (Fd → EconetAddr)) × Bool :=
  ((d.vars.mstatus, d.vars.econetAddress), (d.vars.txStart, d.vars.txEnd),
    (d.vars.lastMonitorFrames, d.vars.fdRxPortmap, d.vars.fdTxDestmap), d.rx.regs.monitorMode)

/-- What the handler does not change once it has reset `sys_frame_valid`. -/
def besideAnswer (d : Driver) : ((Bool × BitVec 16) × (BitVec 32 × BitVec 32) ×
    (BitVec 32 × (Fd → BitVec 8) × (Fd → EconetAddr)) × Bool) ×
    BufferedEconet × FrameLog × List (BitVec 8) :=
  (besideHandler d, receivedPart d)

theorem leaves_handlerAck : Leaves besideAnswer econetAck :=
  (frame_econetAck.comp fun v => (((v.1.mstatus, v.1.econetAddress), (v.1.txStart, v.1.txEnd),
    (v.1.lastMonitorFrames, v.1.fdRxPortmap, v.1.fdTxDestmap), v.2.1.regs.monitorMode),
    v.2.1, v.2.2.1.frame, v.2.2.1.accepted)).leaves

theorem leaves_handlerImm : Leaves besideAnswer econetRxImm :=
  (frame_econetRxImm.comp fun v => (((v.1.1.mstatus, v.1.1.econetAddress),
    (v.1.1.txStart, v.1.1.txEnd), (v.1.1.lastMonitorFrames, v.1.1.fdRxPortmap, v.1.1.fdTxDestmap),
    v.1.2.1.regs.monitorMode), v.1.2.1, v.1.2.2.1.frame, v.1.2.2.1.accepted)).leaves

theorem leaves_scoutAck : Leaves besideAnswer scoutAck := by
  refine Prog.acts_bind (leaves_load _) fun len => ?_
  split
  · refine Prog.acts_bind (leaves_load _) fun port => Prog.acts_bind (leaves_load _) fun fd => ?_
    split
    · refine Prog.acts_bind (leaves_modify fun _ => rfl) fun _ =>
        Prog.acts_bind (leaves_modify fun _ => rfl) fun _ => ?_
      exact leaves_handlerAck
    · exact leaves_pure _
  · exact leaves_handlerImm

theorem leaves_dataAck : Leaves besideAnswer dataAck := by
  refine Prog.acts_bind (leaves_read _ _) fun port => Prog.acts_bind (leaves_load _) fun fd => ?_
  refine Prog.acts_bind (leaves_modify fun _ => rfl) fun _ =>
    Prog.acts_bind (leaves_modify fun _ => rfl) fun _ => ?_
  refine Prog.acts_bind (leaves_load _) fun start =>
    Prog.acts_bind (leaves_modify fun _ => rfl) fun _ => ?_
  refine Prog.acts_bind (leaves_load _) fun len =>
    Prog.acts_bind (leaves_modify fun _ => rfl) fun _ => ?_
  exact leaves_handlerAck

theorem leaves_txError : Leaves besideAnswer txError :=
  Prog.acts_bind (leaves_modify fun _ => rfl) fun _ => leaves_modify fun _ => rfl

theorem leaves_rxScoutAck : Leaves besideAnswer rxScoutAck := by
  refine Prog.acts_bind (leaves_load _) fun len => ?_
  split
  · refine Prog.acts_bind (leaves_modify fun _ => rfl) fun _ =>
      Prog.acts_bind (leaves_modify fun _ => rfl) fun _ => ?_
    refine Prog.acts_bind (leaves_load _) fun start =>
      Prog.acts_bind (leaves_modify fun _ => rfl) fun _ => ?_
    refine Prog.acts_bind (leaves_load _) fun fin =>
      Prog.acts_bind (leaves_modify fun _ => rfl) fun _ => ?_
    exact Prog.acts_bind (leaves_modify fun _ => rfl) fun _ => leaves_modify fun _ => rfl
  · exact leaves_txError

theorem leaves_rxDataAck : Leaves besideAnswer rxDataAck := by
  refine Prog.acts_bind (leaves_load _) fun len => ?_
  split
  · exact Prog.acts_bind (leaves_modify fun _ => rfl) fun _ => leaves_modify fun _ => rfl
  · exact leaves_txError

theorem leaves_rxMonitor : Leaves besideAnswer rxMonitor := by
  refine Prog.acts_bind (leaves_read _ _) fun frames =>
    Prog.acts_bind (leaves_modify fun _ => rfl) fun _ => ?_
  refine Prog.acts_bind (leaves_load _) fun start =>
    Prog.acts_bind (leaves_modify fun _ => rfl) fun _ => ?_
  exact Prog.acts_bind (leaves_load _) fun len => leaves_modify fun _ => rfl

/-- An access that does nothing to the receiver but write to a register. -/
def RegistersOnly (f : Driver → Driver) : Prop :=
  ∀ d, ((f d).log.frame = d.log.frame ∧ (f d).log.accepted = d.log.accepted) ∧
    ((f d).rx = d.rx ∨ ∃ (a wr : BitVec 4) (v : BitVec 32), (f d).rx = d.rx.step (.sysWrite a wr v))

theorem registersOnly_of_preserves {f : Driver → Driver} (hf : Preserves receivedPart f) :
    RegistersOnly f := by
  intro d
  obtain ⟨h1, h2⟩ := Prod.mk.inj (hf d)
  obtain ⟨h3, h4⟩ := Prod.mk.inj h2
  exact ⟨⟨h3, h4⟩, Or.inl h1⟩

theorem acts_isrTrap : isrTrap.Acts fun _ f => Preserves besideHandler f ∧ RegistersOnly f := by
  have hanswer {α : Type} {p : Code α} (hp : Leaves besideAnswer p) :
      p.Acts fun _ f => Preserves besideHandler f ∧ RegistersOnly f := by
    apply hp.mono
    intro l f hf
    refine ⟨fun d => congrArg Prod.fst (hf d), ?_⟩
    exact registersOnly_of_preserves fun d => congrArg Prod.snd (hf d)
  have hstore {l : Access} {f : Driver → Driver} (hf : Preserves besideAnswer f) :
      (Prog.modify l f).Acts fun _ f => Preserves besideHandler f ∧ RegistersOnly f :=
    hanswer (leaves_modify hf)
  refine Prog.acts_bind (hanswer (leaves_load _)) fun valid => ?_
  split
  · refine Prog.acts_bind ?_ fun _ => Prog.acts_bind (hstore fun _ => rfl) fun _ => ?_
    · exact ⟨⟨fun _ => rfl, fun d => ⟨⟨rfl, rfl⟩, Or.inr ⟨7#4, 1#4, 1#32, rfl⟩⟩⟩, fun _ => trivial⟩
    refine Prog.acts_bind (hanswer (leaves_load _)) fun monitor => ?_
    split
    · exact hanswer leaves_rxMonitor
    refine Prog.acts_bind (hanswer (leaves_load _)) fun state => ?_
    split_ifs
    · exact hanswer leaves_scoutAck
    · exact hanswer leaves_dataAck
    · exact hanswer leaves_rxScoutAck
    · exact hanswer leaves_rxDataAck
    · exact hanswer (leaves_pure _)
  refine Prog.acts_bind (hanswer (leaves_load _)) fun timeout => ?_
  split
  · refine Prog.acts_bind (hstore fun _ => rfl) fun _ =>
      Prog.acts_bind (hanswer (leaves_load _)) fun state => ?_
    exact Prog.acts_bind (hstore fun _ => rfl) fun _ => hstore fun _ => rfl
  · exact hanswer (leaves_pure _)

theorem leaves_isrTrap : Leaves besideHandler isrTrap := acts_isrTrap.mono fun _ _ hf => hf.1

theorem registersOnly_isrTrap : isrTrap.Acts fun _ f => RegistersOnly f :=
  acts_isrTrap.mono fun _ _ hf => hf.2

/-! ### The calls -/

theorem registersOnly_econetIoctl (fd : Fd) (request : BitVec 32) (dest : EconetAddr) :
    (econetIoctl fd request dest).Acts fun _ f => RegistersOnly f := by
  have hkeep {α : Type} {p : Code α} (hp : Leaves receivedPart p) :
      p.Acts fun _ f => RegistersOnly f :=
    hp.mono fun _ _ hf => registersOnly_of_preserves hf
  have hstore {l : Access} {f : Driver → Driver} (hf : Preserves receivedPart f) :
      (Prog.modify l f).Acts fun _ f => RegistersOnly f := hkeep (leaves_modify hf)
  have hwrite : ∀ (a wr : BitVec 4) (v : BitVec 32), (Prog.modify Access.plain fun d : Driver =>
      { d with rx := d.rx.step (.sysWrite a wr v) }).Acts fun _ f => RegistersOnly f :=
    fun a wr v => ⟨fun d => ⟨⟨rfl, rfl⟩, Or.inr ⟨a, wr, v, rfl⟩⟩, fun _ => trivial⟩
  unfold econetIoctl
  dsimp only
  split_ifs
  · exact Prog.acts_bind (hstore fun _ => rfl) fun _ =>
      Prog.acts_bind (hwrite _ _ _) fun _ => trivial
  · exact Prog.acts_bind (hstore fun _ => rfl) fun _ =>
      Prog.acts_bind (hstore fun _ => rfl) fun _ => trivial
  · refine Prog.acts_bind (hstore fun _ => rfl) fun _ =>
      Prog.acts_bind (hstore fun _ => rfl) fun _ => ?_
    exact Prog.acts_bind (hstore fun _ => rfl) fun _ => trivial
  · refine Prog.acts_bind (hstore fun _ => rfl) fun _ =>
      Prog.acts_bind (hstore fun _ => rfl) fun _ => ?_
    exact Prog.acts_bind (hwrite _ _ _) fun _ => trivial
  · trivial
  · exact hkeep (Prog.acts_bind (leaves_load _) fun _ => leaves_pure _)
  · trivial
  · trivial
  · trivial

theorem RegistersOnly.lowers {f : Driver → Driver} (hf : RegistersOnly f) : Lowers f := by
  intro d h
  rw [frameValid] at h
  obtain ⟨-, hrx | ⟨a, wr, v, hrx⟩⟩ := hf d
  · rwa [hrx] at h
  · rw [hrx] at h
    exact lowers_sysWrite a wr v d h

theorem lowers_econetIoctl (fd : Fd) (request : BitVec 32) (dest : EconetAddr) :
    (econetIoctl fd request dest).Acts fun _ f => Lowers f :=
  (registersOnly_econetIoctl fd request dest).mono fun _ _ hf => hf.lowers

theorem registersOnly_code (c : NetCall) : c.code.Acts fun _ f => RegistersOnly f := by
  have hframe : ∀ {p : Code Reply}, Leaves receivedPart p → p.Acts fun _ f => RegistersOnly f :=
    fun hp => hp.mono fun _ _ hf => registersOnly_of_preserves hf
  cases c with
  | io c =>
    cases c with
    | read fd ptr count =>
      exact hframe ((frame_econetRead fd ptr count).comp fun c =>
        (c.rx, c.frame, c.accepted)).leaves
    | peek fd => exact hframe (frame_econetPeek fd).leaves
    | write fd ptr bytes =>
      refine hframe ((writeActs_econetWrite fd ptr bytes).mono ?_)
      exact fun _ _ hf d => congrArg (fun v => v.2.2) (hf.2 d)
  | ioctl fd request dest => exact registersOnly_econetIoctl fd request dest
  | close fd =>
    exact hframe ((frame_econetClose fd).comp fun v =>
      (v.2, v.1.2.2.2.1.frame, v.1.2.2.2.1.accepted)).leaves

end Filestick.RawEconet
