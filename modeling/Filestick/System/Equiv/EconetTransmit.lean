import Filestick.System.Equiv.RawEconet
import Filestick.Rtl.Equiv.EconetTx

/-!
# Who programs the transmitter, and when

The interrupt handler answers frames, and `econet_write` sends scouts, through one transmitter.
Neither looks at the busy flag of the transmitter: the handler relies on a frame having just ended,
and `econet_write` on the flags of the receiver and on the handshake.

* `txStores_free`: in every run in which frames are only accepted while the transmitter has nothing
  in hand, and `econet_write` only leaves its wait in such a state, every store finds the
  transmitter free.
-/

namespace Filestick.RawEconet

open Driver

/-! ### A free transmitter stays free -/

/-- Nothing starts by itself in `STATE_IDLE`. -/
structure TxCalm (s : EconetTxBuffered) : Prop where
  startFrame : s.startFrame = true → s.state = .tx
  transmitter : s.transmitter.state ≠ .idle → s.transmitter.transmitting = true ∨ s.state ≠ .idle

namespace TxCalm

variable {s : EconetTxBuffered}

theorem reset (s : EconetTxBuffered) : TxCalm s.reset :=
  ⟨fun h => (nomatch h), fun h => absurd rfl h⟩

/-- The line driver of the transmitter moves when it is told to start, or is sending already. -/
theorem phy_step {p : TxPhy} {b : BitVec 8} {start fin : Bool} (hp : p.state = .idle)
    (hstart : start = false) : (p.step b start fin).state = .idle := by
  simp [TxPhy.step, TxPhy.stepIdle, hp, hstart]

theorem negedge (h : TxCalm s) (r : Bool) : TxCalm (s.negedge r) := by
  have hstate : (s.negedge r).state = (s.stepState r).state := rfl
  have hstart : (s.negedge r).startFrame = (s.stepState r).startFrame := rfl
  have hphy : (s.negedge r).transmitter = s.transmitter.step s.txByte s.startFrame s.endFrame := rfl
  constructor
  · rw [hstate, hstart, EconetTxBuffered.stepState]
    have := h.startFrame
    split <;> simp_all
  · intro hne
    rw [hphy] at hne ⊢
    by_cases hp : s.transmitter.state = .idle
    · -- the driver starts: the state machine has just left `STATE_TX_START`
      have hst : s.startFrame = true := by
        by_contra hst
        exact hne (phy_step hp (by simpa using hst))
      right
      rw [hstate, EconetTxBuffered.stepState, h.startFrame hst]
      dsimp only
      split <;> simp
    · left
      simp [TxPhy.step, hp]

theorem of_same {s' : EconetTxBuffered} (h : TxCalm s) (hs : s'.startFrame = s.startFrame)
    (hst : s'.state = s.state) (ht : s'.transmitter = s.transmitter) : TxCalm s' := by
  obtain ⟨h1, h2⟩ := h
  exact ⟨by rwa [hs, hst], by rwa [ht, hst]⟩

end TxCalm

/-- `txFree` of the transmitter. -/
theorem txFree_iff (d : Driver) : d.txFree = true ↔
    d.tx.txRequested = false ∧ d.tx.state = .idle ∧ d.tx.transmitter.transmitting = false := by
  simp [txFree, and_assoc]

/-- Without a request a free transmitter stays free. -/
theorem txFree_negedge {d : Driver} (hc : TxCalm d.tx) (h : d.txFree = true) (r : Bool) :
    txFree { d with tx := d.tx.negedge r } = true := by
  rw [txFree_iff] at h ⊢
  obtain ⟨hreq, hstate, htr⟩ := h
  have hphy : d.tx.transmitter.state = .idle := by
    by_contra hne
    rcases hc.transmitter hne with h | h
    · exact absurd (htr.symm.trans h) (by decide)
    · exact h hstate
  have hst : (d.tx.stepState r).state = .idle := by
    simp [EconetTxBuffered.stepState, hstate, hreq]
  have hrq : (d.tx.stepState r).txRequested = false := by
    simp [EconetTxBuffered.stepState, hstate, hreq]
  refine ⟨?_, hst, ?_⟩
  · simp [EconetTxBuffered.negedge, EconetTxBuffered.stateResets, hst, hrq]
  · simp [EconetTxBuffered.negedge, EconetTxBuffered.stateResets, TxPhy.step, hphy]

/-! ### The hardware -/

theorem hw_txCalm {d : Driver} (h : TxCalm d.tx) (i : Hw) : TxCalm (d.hw i).tx := by
  obtain ⟨c, hc⟩ := hw_eq d i
  rw [hc]
  cases i with
  | fall => exact (h.negedge d.receiving).of_same rfl rfl rfl
  | line level => exact h.of_same rfl rfl rfl
  | rise => exact h.of_same rfl rfl rfl
  | tick => exact h.of_same rfl rfl rfl

theorem hw_txFree {d : Driver} (hc : TxCalm d.tx) (h : d.txFree = true) (i : Hw) :
    (d.hw i).txFree = true := by
  obtain ⟨c, hs⟩ := hw_eq d i
  rw [hs]
  cases i with
  | fall => exact txFree_negedge hc h d.receiving
  | line level => exact h
  | rise => exact h
  | tick => exact h

/-! ### The contracts -/

/-- What the thread needs of a state: a frame that waits finds the transmitter free, and no
`econet_write` about to use it. -/
structure TxShared (d : Driver) : Prop where
  calm : TxCalm d.tx
  valid : d.frameValid = true → d.txFree = true ∧ d.deliv.writing = false

/-- What the thread relies on. -/
structure TxRely (d d' : Driver) : Prop where
  writing : d'.deliv.writing = d.deliv.writing
  free : d.deliv.writing = true → d.txFree = true → d'.txFree = true

/-- What the handler relies on: the hardware leaves a free transmitter free, and no frame is
accepted. -/
structure TxHwRely (d d' : Driver) : Prop where
  valid : d'.frameValid = d.frameValid
  writing : d'.deliv.writing = d.deliv.writing
  free : d.txFree = true → d'.txFree = true

/-- The contract of the thread. -/
def txThread : Contract Driver where
  inv := TxShared
  rely := TxRely
  refl _ := ⟨rfl, fun _ h => h⟩
  trans h h' := ⟨h'.writing.trans h.writing,
    fun hw hf => h'.free (h.writing.trans hw) (h.free hw hf)⟩

/-- The contract of the handler. -/
def txHandler : Contract Driver where
  inv d := TxCalm d.tx
  rely := TxHwRely
  refl _ := ⟨rfl, rfl, id⟩
  trans h h' := ⟨h'.valid.trans h.valid, h'.writing.trans h.writing, fun hf => h'.free (h.free hf)⟩

/-- The condition on accesses: `econet_write` leaves its wait with the transmitter free and no frame
waiting for the handler. -/
def TxCond (l : Access) (d : Driver) : Prop :=
  l = .lineIdle → d.vars.handshakeState = 0#32 → d.txFree = true ∧ d.frameValid = false

/-- The condition on the line: a frame is accepted outside the handler, with the transmitter free,
and not between the end of the wait of `econet_write` and its request. -/
def TxEnv (inIsr : Bool) (i : Hw) (d : Driver) : Prop :=
  i = .rise → d.accepts = true → inIsr = false ∧ d.txFree = true ∧ d.deliv.writing = false

/-- A store finds the transmitter free. -/
def TxStoreFree (l : Access) (d : Driver) : Prop := l = .txStore → d.txFree = true

instance (l : Access) (d : Driver) : Decidable (TxCond l d) :=
  inferInstanceAs (Decidable (_ → _ → _ ∧ _))

instance (inIsr : Bool) (i : Hw) (d : Driver) : Decidable (TxEnv inIsr i d) :=
  inferInstanceAs (Decidable (_ → _ → _ ∧ _))

instance (l : Access) (d : Driver) : Decidable (TxStoreFree l d) :=
  inferInstanceAs (Decidable (_ → _))

theorem txEnv_thread (i : Hw) (d : Driver) (hd : TxShared d) (hi : TxEnv false i d) :
    TxShared (d.hw i) ∧ TxRely d (d.hw i) := by
  have hw := congrArg Delivery.writing (hw_vars d i).2
  refine ⟨⟨hw_txCalm hd.calm i, fun hv => ?_⟩, ⟨hw, fun _ hf => hw_txFree hd.calm hf i⟩⟩
  have hboth : d.txFree = true ∧ d.deliv.writing = false := by
    rw [hw_frameValid, Bool.or_eq_true, Bool.and_eq_true, beq_iff_eq] at hv
    rcases hv with hv | ⟨hrise, hacc⟩
    · exact hd.valid hv
    · exact (hi hrise hacc).2
  exact ⟨hw_txFree hd.calm hboth.1 i, hw.trans hboth.2⟩

theorem txEnv_isr (i : Hw) (d : Driver) (hd : TxCalm d.tx) (hi : TxEnv true i d) :
    TxCalm (d.hw i).tx ∧ TxHwRely d (d.hw i) := by
  refine ⟨hw_txCalm hd i, ?_, congrArg Delivery.writing (hw_vars d i).2, fun hf =>
    hw_txFree hd hf i⟩
  have hno : (i == .rise && d.accepts) = false := by
    rw [Bool.and_eq_false_iff]
    by_cases hrise : i = .rise
    · right
      by_contra hacc
      exact absurd (hi hrise (by simpa using hacc)).1 (by decide)
    · left
      simpa using hrise
  rw [hw_frameValid, hno, Bool.or_false]

/-! ### The handler -/

/-- The handler has taken the frame, and may use the transmitter. -/
structure TxTaken (d : Driver) : Prop where
  valid : d.frameValid = false
  writing : d.deliv.writing = false
  free : d.txFree = true

/-- The handler has taken the frame. -/
structure TxHandled (d : Driver) : Prop where
  valid : d.frameValid = false
  writing : d.deliv.writing = false

theorem stable_taken : Stable txHandler TxTaken := fun _ _ hr _ h =>
  ⟨hr.valid.trans h.valid, hr.writing.trans h.writing, hr.free h.free⟩

theorem stable_handled : Stable txHandler TxHandled := fun _ _ hr _ h =>
  ⟨hr.valid.trans h.valid, hr.writing.trans h.writing⟩

section Handler

variable {α : Type} {d : Driver} {g : Unit → Code Unit}

/-- What is shown of a piece of the handler. -/
abbrev HandlerSafe (p : Code Unit) (d : Driver) : Prop :=
  Safe txHandler TxCond TxStoreFree (fun _ d' => TxHandled d') p d

theorem taken_load {f : Driver → α} {g : α → Code Unit} (hd : TxTaken d)
    (h : ∀ a d', TxTaken d' → HandlerSafe (g a) d') : HandlerSafe (load f >>= g) d :=
  safe_read_stable stable_taken hd (fun _ _ _ hl => (nomatch hl)) fun d' _ _ hd' => h (f d') d' hd'

/-- An access that leaves the transmitter and the receiver alone. -/
theorem taken_modify {l : Access} (hl : l ≠ .txStore) {f : Driver → Driver} (hd : TxTaken d)
    (hf : ∀ d, TxCalm d.tx → TxTaken d → TxCalm (f d).tx ∧ TxTaken (f d))
    (h : ∀ d', TxTaken d' → HandlerSafe (g ()) d') : HandlerSafe (Prog.modify l f >>= g) d :=
  safe_modify_stable stable_taken hd
    (fun d' hi _ hd' => ⟨fun h => absurd h hl, hf d' hi hd'⟩) fun d' _ hd' => h d' hd'

theorem taken_storeAs {l : Access} (hl : l ≠ .txStore) {f : Vars → Vars} (hd : TxTaken d)
    (h : ∀ d', TxTaken d' → HandlerSafe (g ()) d') : HandlerSafe (storeAs l f >>= g) d :=
  taken_modify hl hd (fun _ hc ht => ⟨hc, ht.valid, ht.writing, ht.free⟩) h

theorem taken_store {f : Vars → Vars} (hd : TxTaken d)
    (h : ∀ d', TxTaken d' → HandlerSafe (g ()) d') : HandlerSafe (store f >>= g) d :=
  taken_storeAs (l := .plain) (by decide) hd h

theorem taken_storeTxStatus {v : BitVec 32} (hd : TxTaken d)
    (h : ∀ d', TxTaken d' → HandlerSafe (g ()) d') : HandlerSafe (storeTxStatus v >>= g) d :=
  taken_modify (by decide) hd
    (fun _ hc ht => ⟨hc.of_same rfl rfl rfl, ht.valid, ht.writing, ht.free⟩) h

/-- A store that requests nothing. -/
theorem taken_storeTx {f : EconetTxBuffered → EconetTxBuffered} (hd : TxTaken d)
    (hf : ∀ s : EconetTxBuffered, (f s).startFrame = s.startFrame ∧ (f s).state = s.state ∧
      (f s).transmitter = s.transmitter ∧ (f s).txRequested = s.txRequested)
    (h : ∀ d', TxTaken d' → HandlerSafe (g ()) d') : HandlerSafe (storeTx f >>= g) d := by
  refine safe_modify_stable stable_taken hd (fun d' hi _ hd' => ⟨fun _ => hd'.free, ?_, ?_⟩)
    fun d' _ hd' => h d' hd'
  · obtain ⟨h1, h2, h3, -⟩ := hf d'.tx
    exact hi.of_same h1 h2 h3
  · obtain ⟨-, h2, h3, h4⟩ := hf d'.tx
    have hfree := (txFree_iff d').mp hd'.free
    refine ⟨hd'.valid, hd'.writing, (txFree_iff _).mpr ?_⟩
    exact ⟨h4.trans hfree.1, h2.trans hfree.2.1, (congrArg _ h3).trans hfree.2.2⟩

/-- The store that requests the transmission. -/
theorem taken_writeEnd {v : BitVec 32} (hd : TxTaken d)
    (h : ∀ d', TxHandled d' → HandlerSafe (g ()) d') :
    HandlerSafe (storeTx (·.writeEnd v) >>= g) d :=
  safe_modify_stable stable_taken hd
    (fun _ hi _ hd' => ⟨fun _ => hd'.free, hi.of_same rfl rfl rfl, ⟨hd'.valid, hd'.writing⟩⟩)
    fun d' _ hd' => h d' hd'

/-- An access that does not touch the request, nor `sys_frame_valid`. -/
def Keeps (f : Driver → Driver) : Prop :=
  ∀ d, (f d).frameValid = d.frameValid ∧ (f d).deliv.writing = d.deliv.writing ∧
    (TxCalm d.tx → TxCalm (f d).tx) ∧ (f d).txFree = d.txFree

/-- An access that has nothing to do with the transmitter. -/
def Neutral (l : Access) (f : Driver → Driver) : Prop := l ≠ .txStore ∧ Keeps f

theorem Keeps.handled {f : Driver → Driver} (hf : Keeps f) (hd : TxHandled d) : TxHandled (f d) :=
  ⟨(hf d).1.trans hd.valid, (hf d).2.1.trans hd.writing⟩

/-- Code that makes only such accesses. -/
theorem handled_neutral {p : Code Unit} (hp : p.Acts Neutral) (hd : TxHandled d) :
    HandlerSafe p d := by
  refine safe_of_acts stable_handled (hp.mono fun l f hf d' hi _ hd' => ?_) hd
  exact ⟨fun hl => absurd hl hf.1, (hf.2 d').2.2.1 hi, hf.2.handled hd'⟩

end Handler

theorem keeps_id : Keeps id := fun _ => ⟨rfl, rfl, id, rfl⟩

theorem acts_read {α : Type} {l : Access} (hl : l ≠ .txStore) (f : Driver → α) :
    (Prog.read l f : Code α).Acts Neutral :=
  ⟨⟨hl, keeps_id⟩, fun _ => trivial⟩

theorem acts_load {α : Type} (f : Driver → α) : (load f).Acts Neutral := acts_read (by decide) f

theorem acts_modify {l : Access} {f : Driver → Driver} (hl : l ≠ .txStore) (hf : Keeps f) :
    (Prog.modify l f).Acts Neutral :=
  ⟨⟨hl, hf⟩, fun _ => trivial⟩

theorem acts_storeAs {l : Access} (hl : l ≠ .txStore) (f : Vars → Vars) :
    (storeAs l f).Acts Neutral :=
  acts_modify hl fun _ => ⟨rfl, rfl, id, rfl⟩

theorem acts_store (f : Vars → Vars) : (store f).Acts Neutral :=
  acts_storeAs (l := .plain) (by decide) f

theorem acts_storeTimer (f : Timer → Timer) : (storeTimer f).Acts Neutral :=
  acts_modify (by decide) fun _ => ⟨rfl, rfl, id, rfl⟩

theorem acts_storeTxStatus (v : BitVec 32) : (storeTxStatus v).Acts Neutral :=
  acts_modify (by decide) fun _ => ⟨rfl, rfl, fun h => h.of_same rfl rfl rfl, rfl⟩

theorem acts_pure {α : Type} (a : α) : (pure a : Code α).Acts Neutral := trivial

section Handler

variable {d : Driver}

theorem acts_timer : (storeTimer (·.writeVal 3000000#32) >>= fun _ =>
    storeTimer (·.writeStatus 2#32)).Acts Neutral :=
  Prog.acts_bind (acts_storeTimer _) fun _ => acts_storeTimer _

theorem econetAck_safe (hd : TxTaken d) : HandlerSafe econetAck d := by
  unfold econetAck
  refine taken_storeTxStatus hd fun d hd => ?_
  refine taken_load hd fun reply d hd => ?_
  refine taken_storeTx hd (fun _ => ⟨rfl, rfl, rfl, rfl⟩) fun d hd => ?_
  refine taken_storeTx hd (fun _ => ⟨rfl, rfl, rfl, rfl⟩) fun d hd => ?_
  exact taken_writeEnd hd fun d hd => handled_neutral acts_timer hd

theorem TxTaken.handled (hd : TxTaken d) : TxHandled d := ⟨hd.valid, hd.writing⟩

theorem econetRxImm_safe (hd : TxTaken d) : HandlerSafe econetRxImm d := by
  unfold econetRxImm
  refine taken_load hd fun len d hd => ?_
  split
  · refine taken_load hd fun flag d hd => ?_
    split
    · refine taken_storeTxStatus hd fun d hd => ?_
      refine taken_load hd fun reply d hd => ?_
      refine taken_storeTx hd (fun _ => ⟨rfl, rfl, rfl, rfl⟩) fun d hd => ?_
      refine taken_storeTx hd (fun _ => ⟨rfl, rfl, rfl, rfl⟩) fun d hd => ?_
      refine taken_storeTx hd (fun _ => ⟨rfl, rfl, rfl, rfl⟩) fun d hd => ?_
      exact taken_writeEnd hd fun d hd => handled_neutral (acts_pure ()) hd
    · exact handled_neutral (acts_pure ()) hd.handled
  · exact handled_neutral (acts_pure ()) hd.handled

theorem scoutAck_safe (hd : TxTaken d) : HandlerSafe scoutAck d := by
  unfold scoutAck
  refine taken_load hd fun len d hd => ?_
  split
  · refine taken_load hd fun port d hd => ?_
    refine taken_load hd fun fd d hd => ?_
    split
    · refine taken_storeAs (by decide) hd fun d hd => ?_
      refine taken_modify (by simp) hd (fun _ hc ht => ⟨hc, ht.valid, ht.writing, ht.free⟩)
        fun d hd => ?_
      exact econetAck_safe hd
    · exact handled_neutral (acts_pure ()) hd.handled
  · exact econetRxImm_safe hd

theorem dataAck_safe (hd : TxTaken d) : HandlerSafe dataAck d := by
  unfold dataAck
  refine safe_read_stable stable_taken hd (fun _ _ _ hl => (nomatch hl)) fun d _ _ hd => ?_
  refine taken_load hd fun fd d hd => ?_
  refine taken_modify (by decide) hd (fun _ hc ht => ⟨hc, ht.valid, ht.writing, ht.free⟩)
    fun d hd => ?_
  refine taken_storeAs (by decide) hd fun d hd => ?_
  refine taken_load hd fun start d hd => ?_
  refine taken_store hd fun d hd => ?_
  refine taken_load hd fun len d hd => ?_
  refine taken_store hd fun d hd => ?_
  exact econetAck_safe hd

theorem acts_txError : txError.Acts Neutral :=
  Prog.acts_bind (acts_storeAs (by decide) _) fun _ => acts_store _

theorem rxScoutAck_safe (hd : TxTaken d) : HandlerSafe rxScoutAck d := by
  unfold rxScoutAck
  refine taken_load hd fun len d hd => ?_
  split
  · refine taken_storeTxStatus hd fun d hd => ?_
    refine taken_storeAs (by decide) hd fun d hd => ?_
    refine taken_load hd fun start d hd => ?_
    refine taken_storeTx hd (fun _ => ⟨rfl, rfl, rfl, rfl⟩) fun d hd => ?_
    refine taken_load hd fun fin d hd => ?_
    exact taken_writeEnd hd fun d hd => handled_neutral acts_timer hd
  · exact handled_neutral acts_txError hd.handled

theorem acts_rxDataAck : rxDataAck.Acts Neutral := by
  refine Prog.acts_bind (acts_load _) fun len => ?_
  split
  · exact Prog.acts_bind (acts_storeAs (by decide) _) fun _ => acts_store _
  · exact acts_txError

theorem acts_rxMonitor : rxMonitor.Acts Neutral := by
  refine Prog.acts_bind (acts_read (by decide) _) fun _ => Prog.acts_bind (acts_store _) fun _ => ?_
  refine Prog.acts_bind (acts_load _) fun _ => Prog.acts_bind (acts_store _) fun _ => ?_
  exact Prog.acts_bind (acts_load _) fun _ => acts_store _

/-- The handler with a frame, once it has reset `sys_frame_valid`. -/
theorem econetRx_safe (hfree : d.txFree = true) (hwriting : d.deliv.writing = false) :
    HandlerSafe econetRx d := by
  have hstable : Stable txHandler fun d => d.txFree = true ∧ d.deliv.writing = false :=
    fun _ _ hr _ h => ⟨hr.free h.1, hr.writing.trans h.2⟩
  unfold econetRx
  refine safe_modify_stable (B := TxTaken) hstable ⟨hfree, hwriting⟩
    (fun d' hi _ hd' => ⟨fun hl => (nomatch hl), hi, ⟨rfl, hd'.2, hd'.1⟩⟩) fun d _ hd => ?_
  refine taken_modify (by decide) hd (fun _ hc ht => ⟨hc, ht.valid, ht.writing, ht.free⟩)
    fun d hd => ?_
  refine taken_load hd fun monitor d hd => ?_
  split
  · exact handled_neutral acts_rxMonitor hd.handled
  · refine taken_load hd fun state d hd => ?_
    split_ifs
    · exact scoutAck_safe hd
    · exact dataAck_safe hd
    · exact rxScoutAck_safe hd
    · exact handled_neutral acts_rxDataAck hd.handled
    · exact handled_neutral (acts_pure ()) hd.handled

theorem acts_econetTimeout : econetTimeout.Acts Neutral :=
  Prog.acts_bind (acts_storeTimer _) fun _ => Prog.acts_bind (acts_load _) fun _ =>
    Prog.acts_bind (acts_store _) fun _ => acts_storeAs (by decide) _

/-- **The handler** keeps to what the thread relies on. -/
theorem isrTrap_safe (hd : TxShared d) :
    Safe txHandler TxCond TxStoreFree (fun _ d' => TxShared d' ∧ TxRely d d') isrTrap d := by
  refine safe_read fun d' hr hi _ => ⟨fun hl => (nomatch hl), ?_⟩
  cases hv : d'.frameValid with
  | true =>
    obtain ⟨hfree, hwriting⟩ := hd.valid (hr.valid.symm.trans hv)
    refine (econetRx_safe (hr.free hfree) (hr.writing.trans hwriting)).mono fun _ s hi hs => ?_
    refine ⟨⟨hi, fun h => ?_⟩, ⟨hs.writing.trans hwriting.symm, fun h => ?_⟩⟩
    · exact absurd (hs.valid.symm.trans h) (by decide)
    · exact absurd (hwriting.symm.trans h) (by decide)
  | false =>
    -- no frame: the transmitter is left alone
    have hacts : (load (·.timer.interrupt) >>= fun timeout =>
        if timeout then econetTimeout else pure ()).Acts Neutral := by
      refine Prog.acts_bind (acts_load _) fun timeout => ?_
      split
      · exact acts_econetTimeout
      · exact acts_pure ()
    have hstable : Stable txHandler fun s => TxHwRely d s := fun _ _ hr _ h => txHandler.trans h hr
    refine (safe_of_acts hstable (hacts.mono fun l f hf s hs _ h => ?_) hr).mono fun _ s hi hs => ?_
    · obtain ⟨h1, h2, h3, h4⟩ := hf.2 s
      exact ⟨fun hl => absurd hl hf.1, h3 hs, h1.trans h.valid, h2.trans h.writing,
        fun hfree => h4.trans (h.free hfree)⟩
    · refine ⟨⟨hi, fun h => ?_⟩, ⟨hs.writing, fun _ h => hs.free h⟩⟩
      obtain ⟨hfree, hwriting⟩ := hd.valid (hs.valid.symm.trans h)
      exact ⟨hs.free hfree, hs.writing.trans hwriting⟩

end Handler

/-! ### Reads -/

theorem acts_copyRx (cs : List ℕ) (src : BitVec 32) : (copyRx cs src).Acts Neutral := by
  induction cs generalizing src with
  | nil => exact acts_pure []
  | cons c cs ih =>
    exact Prog.acts_bind (acts_read (by decide) _) fun _ =>
      Prog.acts_bind (ih _) fun _ => acts_pure _

theorem acts_copySize (count : BitVec 32) : (copySize count).Acts Neutral := by
  refine Prog.acts_bind (acts_load _) fun _ => ?_
  split
  · exact acts_pure _
  · exact acts_load _

theorem acts_wait {l : Access} {c : Driver → Bool} {exit : Driver → Driver} (hl : l ≠ .txStore)
    (hf : Keeps exit) : (Prog.wait [] (l, c) exit).Acts Neutral :=
  ⟨fun _ h => (nomatch h), fun _ h => (nomatch h), ⟨hl, hf⟩, trivial⟩

theorem acts_econetMonitor (ptr count : BitVec 32) : (econetMonitor ptr count).Acts Neutral := by
  unfold econetMonitor
  refine Prog.acts_bind (acts_wait (by decide) keeps_id) fun _ => ?_
  refine Prog.acts_bind (acts_copySize count) fun copySz =>
    Prog.acts_bind (acts_load _) fun start => ?_
  refine Prog.acts_bind (acts_copyRx _ _) fun bytes => Prog.acts_bind (acts_load _) fun len => ?_
  split
  · refine Prog.acts_bind (acts_load _) fun _ => Prog.acts_bind (acts_store _) fun _ => ?_
    exact Prog.acts_bind (acts_load _) fun _ => Prog.acts_bind (acts_store _) fun _ => acts_pure _
  · exact Prog.acts_bind (acts_store _) fun _ => acts_pure _

theorem acts_copyOut (fd : Fd) (port : BitVec 8) (ptr count : BitVec 32) :
    (copyOut fd port ptr count).Acts Neutral := by
  refine Prog.acts_bind (acts_copySize count) fun copySz =>
    Prog.acts_bind (acts_load _) fun start => ?_
  refine Prog.acts_bind (acts_copyRx _ _) fun bytes => Prog.acts_bind (acts_load _) fun len => ?_
  split
  · refine Prog.acts_bind (acts_load _) fun _ => Prog.acts_bind (acts_store _) fun _ => ?_
    refine Prog.acts_bind (acts_load _) fun _ => ?_
    exact Prog.acts_bind (acts_modify (by decide) fun _ => ⟨rfl, rfl, id, rfl⟩) fun _ => acts_pure _
  · exact Prog.acts_bind (acts_modify (by decide) fun _ => ⟨rfl, rfl, id, rfl⟩) fun _ => acts_pure _

theorem acts_econetRead (fd : Fd) (ptr count : BitVec 32) :
    (econetRead fd ptr count).Acts Neutral := by
  unfold econetRead
  refine Prog.acts_bind (acts_load _) fun monitor => ?_
  split
  · exact acts_econetMonitor ptr count
  refine Prog.acts_bind (acts_load _) fun port => ?_
  split
  · exact acts_pure _
  refine Prog.acts_bind (acts_wait (by decide) fun _ => ⟨rfl, rfl, id, rfl⟩) fun _ => ?_
  exact acts_copyOut fd port ptr count

theorem acts_econetPeek (fd : Fd) : (econetPeek fd).Acts Neutral := by
  unfold econetPeek
  refine Prog.acts_bind (acts_load _) fun monitor => ?_
  split
  · exact Prog.acts_bind (acts_load _) fun _ => acts_pure _
  refine Prog.acts_bind (acts_load _) fun port => ?_
  split
  · exact acts_pure _
  refine Prog.acts_bind (acts_load _) fun ready => ?_
  split
  · exact Prog.acts_bind (acts_load _) fun _ => acts_pure _
  · exact acts_pure _

/-! ### The thread -/

/-- `econet_write` is not about to use the transmitter. -/
def TxIdle (d : Driver) : Prop := d.deliv.writing = false

/-- `econet_write` is about to use the transmitter. -/
structure TxOwned (d : Driver) : Prop where
  writing : d.deliv.writing = true
  free : d.txFree = true

theorem stable_idle : Stable txThread TxIdle := fun _ _ hr _ h => hr.writing.trans h

theorem stable_owned : Stable txThread TxOwned := fun _ _ hr _ h =>
  ⟨hr.writing.trans h.writing, hr.free h.writing h.free⟩

section Thread

variable {α : Type} {d : Driver}

/-- What is shown of a piece of a call. -/
abbrev ThreadSafe (Q : α → Driver → Prop) (p : Code α) (d : Driver) : Prop :=
  Safe txThread TxCond TxStoreFree Q p d

theorem Keeps.shared {f : Driver → Driver} (hf : Keeps f) (hd : TxShared d) : TxShared (f d) := by
  obtain ⟨h1, h2, h3, h4⟩ := hf d
  refine ⟨h3 hd.calm, fun hv => ?_⟩
  obtain ⟨hfree, hwriting⟩ := hd.valid (h1.symm.trans hv)
  exact ⟨h4.trans hfree, h2.trans hwriting⟩

theorem idle_neutral {p : Code α} (hp : p.Acts Neutral) (hd : TxIdle d) :
    ThreadSafe (fun _ d' => TxIdle d') p d := by
  refine safe_of_acts stable_idle (hp.mono fun l f hf d' hi _ hd' => ?_) hd
  exact ⟨fun hl => absurd hl hf.1, hf.2.shared hi, ((hf.2 d').2.1).trans hd'⟩

/-- Code that uses the transmitter, but for the request. -/
theorem owned_keeps {p : Code α} (hp : p.Acts fun _ f => Keeps f) (hd : TxOwned d) :
    ThreadSafe (fun _ d' => TxOwned d') p d := by
  refine safe_of_acts stable_owned (hp.mono fun l f hf d' hi _ hd' => ?_) hd
  obtain ⟨-, h2, -, h4⟩ := hf d'
  exact ⟨fun _ => hd'.free, hf.shared hi, h2.trans hd'.writing, h4.trans hd'.free⟩

end Thread

/-- A store to the transmitter that requests nothing. -/
theorem keeps_tx {f : EconetTxBuffered → EconetTxBuffered}
    (hf : ∀ s : EconetTxBuffered, (f s).startFrame = s.startFrame ∧ (f s).state = s.state ∧
      (f s).transmitter = s.transmitter ∧ (f s).txRequested = s.txRequested) :
    (storeTx f).Acts fun _ f => Keeps f := by
  refine ⟨fun d => ?_, fun _ => trivial⟩
  obtain ⟨h1, h2, h3, h4⟩ := hf d.tx
  refine ⟨rfl, rfl, fun h => h.of_same h1 h2 h3, ?_⟩
  simp only [txFree, h2, h3, h4]

theorem keeps_of_neutral {α : Type} {p : Code α} (hp : p.Acts Neutral) :
    p.Acts fun _ f => Keeps f :=
  hp.mono fun _ _ h => h.2

theorem acts_copyTx (cs : List ℕ) (offset : ℕ) (bytes : List (BitVec 8)) :
    (copyTx cs offset bytes).Acts fun _ f => Keeps f := by
  induction cs generalizing offset bytes with
  | nil => trivial
  | cons c cs ih => exact Prog.acts_bind (keeps_tx fun _ => ⟨rfl, rfl, rfl, rfl⟩) fun _ => ih _ _

theorem acts_setUpFrames (dest : EconetAddr) (ptr : BitVec 32) (bytes : List (BitVec 8)) :
    (setUpFrames dest ptr bytes).Acts fun _ f => Keeps f := by
  have hvar := fun f => keeps_of_neutral (acts_store f)
  have htimer := fun f => keeps_of_neutral (acts_storeTimer f)
  refine Prog.acts_bind (hvar _) fun _ => ?_
  refine Prog.acts_bind (keeps_of_neutral (acts_load _)) fun address => ?_
  refine Prog.acts_bind (keeps_tx fun _ => ⟨rfl, rfl, rfl, rfl⟩) fun _ => ?_
  refine Prog.acts_bind (keeps_tx fun _ => ⟨rfl, rfl, rfl, rfl⟩) fun _ => ?_
  refine Prog.acts_bind (keeps_tx fun _ => ⟨rfl, rfl, rfl, rfl⟩) fun _ => ?_
  refine Prog.acts_bind (keeps_tx fun _ => ⟨rfl, rfl, rfl, rfl⟩) fun _ => ?_
  refine Prog.acts_bind (acts_copyTx _ _ _) fun _ => ?_
  refine Prog.acts_bind (hvar _) fun _ => Prog.acts_bind (hvar _) fun _ => ?_
  refine Prog.acts_bind (htimer _) fun _ => Prog.acts_bind (htimer _) fun _ => ?_
  refine Prog.acts_bind (keeps_of_neutral (acts_storeAs (by simp) _)) fun _ => ?_
  exact keeps_tx fun _ => ⟨rfl, rfl, rfl, rfl⟩

theorem acts_awaitHandshake (count : BitVec 32) : (awaitHandshake count).Acts Neutral := by
  refine Prog.acts_bind (acts_store _) fun _ => ?_
  refine Prog.acts_bind (acts_wait (by decide) keeps_id) fun _ => ?_
  refine Prog.acts_bind (acts_load _) fun status => ?_
  split
  · exact acts_pure _
  refine Prog.acts_bind (acts_load _) fun timeout => ?_
  split
  · exact acts_pure _
  · exact acts_pure _

/-- `econet_write` uses the transmitter between the end of its wait and its request. -/
theorem econetWrite_safe (fd : Fd) (ptr : BitVec 32) (bytes : List (BitVec 8)) {d : Driver}
    (hd : TxIdle d) : ThreadSafe (fun _ d' => TxIdle d') (econetWrite fd ptr bytes) d := by
  unfold econetWrite
  split
  · exact idle_neutral (acts_pure _) hd
  refine safe_bind ((idle_neutral (acts_store _) hd).mono fun _ d _ hd => ?_)
  refine safe_bind ((idle_neutral (acts_store _) hd).mono fun _ d _ hd => ?_)
  refine safe_bind ((idle_neutral (acts_storeTxStatus _) hd).mono fun _ d _ hd => ?_)
  refine safe_bind ((idle_neutral (acts_load _) hd).mono fun dest d _ hd => ?_)
  split
  · exact idle_neutral (acts_pure _) hd
  refine safe_wait fun d _ _ _ => ⟨fun hl => (nomatch hl), fun _ => ?_⟩
  refine fun d _ hi hc => ⟨fun hl => (nomatch hl), fun hpass => ?_⟩
  have hhand : d.vars.handshakeState = 0#32 := by
    have h0 : ¬(0#32 < d.vars.handshakeState) := by simpa using hpass
    bv_omega
  obtain ⟨hfree, hvalid⟩ := hc rfl hhand
  have howned : TxOwned d.beginWrite := ⟨rfl, hfree⟩
  refine ⟨⟨hi.calm, fun h => absurd (hvalid.symm.trans h) (by decide)⟩, ?_⟩
  refine safe_bind ((owned_keeps (acts_setUpFrames dest ptr bytes) howned).mono fun _ d _ hd => ?_)
  refine safe_modify_stable (B := TxIdle) stable_owned hd
    (fun d hi _ hd => ⟨fun _ => hd.free, ⟨hi.calm.of_same rfl rfl rfl, fun h => ?_⟩, rfl⟩)
    fun d _ hd => idle_neutral (acts_awaitHandshake _) hd
  -- no frame waits while `econet_write` owns the transmitter
  exact absurd (hd.writing.symm.trans (hi.valid h).2) (by decide)

/-! ### Runs -/

theorem finish_shared (a : Reply) {d : Driver} (hi : TxShared d) (hd : TxIdle d) :
    TxShared (finish a d) ∧ TxIdle (finish a d) := by
  cases a with
  | data port bytes => exact ⟨⟨hi.calm, hi.valid⟩, hd⟩
  | monitored bytes => exact ⟨hi, hd⟩
  | count n => exact ⟨hi, hd⟩
  | error e => exact ⟨hi, hd⟩

theorem econet_txVerified :
    Verified econetKernel txThread txHandler TxCond TxStoreFree TxEnv TxIdle where
  env_thread := txEnv_thread
  env_isr := txEnv_isr
  isr d hd _ := ⟨hd.calm, isrTrap_safe hd⟩
  call c d hi hd := by
    have hsafe : ThreadSafe (fun _ d' => TxIdle d') c.code d := by
      cases c with
      | read fd ptr count => exact idle_neutral (acts_econetRead fd ptr count) hd
      | peek fd => exact idle_neutral (acts_econetPeek fd) hd
      | write fd ptr bytes => exact econetWrite_safe fd ptr bytes hd
    exact hsafe.mono fun a d' hi hd' => finish_shared a hi hd'
  ready_rely d d' _ hd hr := hr.writing.trans hd

/-- The condition on a step: a frame is accepted only while the handler does not run, the
transmitter has nothing in hand and `econet_write` is not between its wait and its request; and
`econet_write` leaves its wait only with the transmitter free and no frame waiting. -/
def TransmitsInTurn (y : System) (e : Event) : Prop := y.Meets TxCond TxEnv e

/-- The transmitter is free when the handler or `econet_write` stores to it. -/
def StoresWhenFree (y : System) (e : Event) : Prop := y.OnAccess TxStoreFree e

instance (y : System) (e : Event) : Decidable (TransmitsInTurn y e) :=
  inferInstanceAs (Decidable (y.Meets TxCond TxEnv e))

instance (y : System) (e : Event) : Decidable (StoresWhenFree y e) :=
  inferInstanceAs (Decidable (y.OnAccess TxStoreFree e))

/-- **The transmitter is never reprogrammed while busy**, in every run from a reset, over every
traffic on the line, every timing of the calls and of the interrupts, whose steps meet the
condition. -/
theorem txStores_free (y : System) (hy : Init y) (es : List Event)
    (hes : Machine.StepsMeet (Interrupted.step econetKernel) TransmitsInTurn y es) :
    Machine.StepsMeet (Interrupted.step econetKernel) StoresWhenFree y es := by
  obtain ⟨s, t, i⟩ := y
  obtain rfl : t = none := hy.thread
  obtain rfl : i = none := hy.isr
  obtain ⟨tx, htx⟩ := hy.tx
  have hcalm : TxCalm s.tx := by
    have : s.tx = tx.reset := htx
    rw [this]
    exact TxCalm.reset tx
  have hvalid : TxShared s :=
    ⟨hcalm, fun h => absurd (Eq.symm (hy.frameValid : s.frameValid = false) |>.trans h) (by decide)⟩
  have hidle : TxIdle s := congrArg Delivery.writing hy.deliv
  have hsound : Interrupted.Sound econetKernel txThread txHandler TxCond TxStoreFree TxIdle
      ⟨s, none, none⟩ := ⟨hvalid, hidle⟩
  exact Interrupted.run_guarded econet_txVerified hsound es hes

/-- A station asks for the machine type, and is answered; `n` clocks later a program writes. -/
def replyThenWrite (n : ℕ) : List Event :=
  fromPeer [0x88#8, 0#8, 0#8, 0#8, 0#8, 0#8] ++ handled ++ idleLine n ++
    called (.write 3 0x12000#32 [0x2A#8]) 30

/-- After 110 clocks the reply is sent. -/
theorem writeAfterReply_free :
    Machine.StepsMeet (Interrupted.step econetKernel) StoresWhenFree station (replyThenWrite 110) :=
  txStores_free station init_station (replyThenWrite 110) (by decide +kernel)

/-- After 20 clocks it is being sent: `econet_write` stores to the transmitter, and its own request
is dropped. -/
theorem writeDuringReply_not_free :
    Init station ∧
      ¬Machine.StepsMeet (Interrupted.step econetKernel) StoresWhenFree station
      (replyThenWrite 20) ∧
      (Machine.run (Interrupted.step econetKernel) station
        (replyThenWrite 20)).shared.tx.txRequested = false :=
  ⟨init_station, by decide +kernel⟩

end Filestick.RawEconet
