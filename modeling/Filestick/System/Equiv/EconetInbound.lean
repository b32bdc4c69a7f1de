import Filestick.System.Equiv.EconetFrames

/-!
# Inbound handshakes

`econet_write` finds the line idle and then disables interrupts.  While no frame comes in between
the two, it begins its handshake with none in progress, and then no store of the driver ends a
handshake that has begun with a scout, but for the ones of `.data_ack` and of `econet_timeout`.

* `write_keepsInbound`: in every run without such a frame each step is one that keeps inbound
  handshakes.
-/

namespace Filestick.RawEconet

open Driver

/-! ### The contracts -/

/-- `econet_write` has found the line idle, and no handshake is in progress. -/
structure Clear (d : Driver) : Prop where
  writing : d.deliv.writing = true
  state : d.vars.handshakeState = 0#32
  frameValid : d.frameValid = false

/-- The contract of the thread: it can rely on a clear line. -/
def inboundThread : Contract Driver where
  inv _ := True
  rely d d' := Clear d → Clear d'
  refl _ := id
  trans h h' hc := h' (h hc)

/-- The contract of the handler. -/
def inboundHandler : Contract Driver where
  inv _ := True
  rely d d' := d'.vars = d.vars ∧ (Clear d → Clear d')
  refl _ := ⟨rfl, id⟩
  trans h h' := ⟨h'.1.trans h.1, fun hc => h'.2 (h.2 hc)⟩

/-- The condition on accesses: when the wait for the line ends, no frame waits. -/
def InboundCond (l : Access) (d : Driver) : Prop :=
  l = .lineIdle → d.vars.handshakeState = 0#32 → d.frameValid = false

/-- The condition on the hardware: no frame is accepted between the end of the wait and the store of
`STATE_TXSCOUT`. -/
def InboundEnv (_ : Bool) (i : Hw) (d : Driver) : Prop :=
  i = .rise → d.accepts = true → d.deliv.writing = true → d.vars.handshakeState = 2#32

instance (l : Access) (d : Driver) : Decidable (InboundCond l d) :=
  inferInstanceAs (Decidable (_ → _))

instance (inIsr : Bool) (i : Hw) (d : Driver) : Decidable (InboundEnv inIsr i d) :=
  inferInstanceAs (Decidable (_ → _))

/-- What is shown of the stores to `econet_handshake_state`. -/
def InboundGuar : Access → Driver → Prop
  | .txScout _, d => d.vars.handshakeState = 0#32 ∧ d.frameValid = false
  | .scoutState, d | .ackScout, d | .ackData, d | .errorState, d => d.vars.handshakeState ≠ 1#32
  | _, _ => True

theorem clear_hw {d : Driver} {inIsr : Bool} {i : Hw} (hi : InboundEnv inIsr i d) (h : Clear d) :
    Clear (d.hw i) := by
  obtain ⟨hvars, hdeliv⟩ := hw_vars d i
  refine ⟨by rw [hdeliv]; exact h.writing, by rw [hvars]; exact h.state, ?_⟩
  -- only the acceptance of a frame raises the flag, and the condition excludes it
  rw [hw_frameValid, h.frameValid, Bool.false_or, Bool.and_eq_false_iff]
  by_contra hacc
  rw [not_or, Bool.not_eq_false, Bool.not_eq_false, beq_iff_eq] at hacc
  have h2 := hi hacc.1 hacc.2 h.writing
  rw [h.state] at h2
  exact absurd h2 (by decide)

/-! ### Code that does not touch the handshake -/

theorem inboundGuar_quiet {l : Access} (hl : l.quiet = true) (d : Driver) : InboundGuar l d := by
  cases l with
  | txScout dest => exact absurd hl (by simp [Access.quiet])
  | scoutState => exact absurd hl (by simp [Access.quiet])
  | ackScout => exact absurd hl (by simp [Access.quiet])
  | ackData => exact absurd hl (by simp [Access.quiet])
  | errorState => exact absurd hl (by simp [Access.quiet])
  | _ => trivial

section Frames

variable {α : Type} {T : Contract Driver} {d : Driver}

/-- Code that stands for nothing in the handshake, with an assertion that it keeps. -/
theorem keeps_frame (hT : ∀ d, T.inv d) {β : Type} {v : Driver → β} {A : Driver → Prop}
    (hA : Stable T A)
    (hv : ∀ d d', v d' = v d → A d → A d') {p : Code α} (hp : Frame v p) (hd : A d) :
    Safe T InboundCond InboundGuar (fun _ d' => A d') p d :=
  safe_of_acts hA (hp.mono fun _ f hf d' _ _ hd' =>
    ⟨inboundGuar_quiet hf.1 d', hT _, hv d' (f d') (hf.2 d') hd'⟩) hd

/-- Code that stands for nothing in the handshake. -/
theorem any_frame (hT : ∀ d, T.inv d) {β : Type} {v : Driver → β} {p : Code α} (hp : Frame v p) :
    Safe T InboundCond InboundGuar (fun _ _ => True) p d :=
  keeps_frame hT (A := fun _ => True) (fun _ _ _ _ _ => trivial) (fun _ _ _ _ => trivial) hp trivial

end Frames

/-! ### The handler -/

section Handler

variable {α : Type} {d : Driver} {s : BitVec 32}

/-- What is shown of a piece of the handler. -/
abbrev HandlerInbound (p : Code Unit) (d : Driver) : Prop :=
  Safe inboundHandler InboundCond InboundGuar (fun _ _ => True) p d

/-- The handshake is in the state `s`. -/
def InState (s : BitVec 32) (d : Driver) : Prop := d.vars.handshakeState = s

theorem stable_inState (s : BitVec 32) : Stable inboundHandler (InState s) := fun _ _ hr _ h =>
  (congrArg Vars.handshakeState hr.1).trans h

theorem handler_frame {β : Type} {v : Driver → β} {p : Code Unit} (hp : Frame v p) :
    HandlerInbound p d :=
  any_frame (fun _ => trivial) hp

theorem inState_load {f : Driver → α} {g : α → Code Unit} (hd : InState s d)
    (h : ∀ a d', InState s d' → HandlerInbound (g a) d') : HandlerInbound (load f >>= g) d :=
  safe_read_stable (stable_inState s) hd (fun _ _ _ => trivial) fun d' _ _ hd' => h _ d' hd'

/-- The store of a new state, where none that follows is guarded. -/
theorem inState_store {l : Access} {f : Vars → Vars} {g : Unit → Code Unit} (hd : InState s d)
    (hl : ∀ d', InState s d' → InboundGuar l d') (h : ∀ d', HandlerInbound (g ()) d') :
    HandlerInbound (storeAs l f >>= g) d :=
  safe_modify_stable (B := fun _ => True) (stable_inState s) hd
    (fun d' _ _ hd' => ⟨hl d' hd', trivial, trivial⟩) fun d' _ _ => h d'

theorem scoutAck_inbound (hd : InState 0#32 d) : HandlerInbound scoutAck d := by
  unfold scoutAck
  refine inState_load hd fun len d hd => ?_
  split
  · refine inState_load hd fun port d hd => ?_
    refine inState_load hd fun fd d hd => ?_
    split
    · refine inState_store hd (fun d' hd' h => ?_) fun d => ?_
      · exact absurd (hd'.symm.trans h) (by decide)
      refine safe_modify fun d' _ _ _ => ⟨trivial, trivial, ?_⟩
      exact handler_frame frame_econetAck
    · exact handler_frame (v := id) (frame_pure ())
  · exact handler_frame frame_econetRxImm

theorem dataAck_inbound : HandlerInbound dataAck d := by
  unfold dataAck
  refine safe_read fun d _ _ _ => ⟨trivial, ?_⟩
  refine safe_read fun d _ _ _ => ⟨trivial, ?_⟩
  refine safe_modify fun d _ _ _ => ⟨trivial, trivial, ?_⟩
  refine safe_modify fun d _ _ _ => ⟨trivial, trivial, ?_⟩
  refine safe_read fun d _ _ _ => ⟨trivial, ?_⟩
  refine safe_modify fun d _ _ _ => ⟨trivial, trivial, ?_⟩
  refine safe_read fun d _ _ _ => ⟨trivial, ?_⟩
  refine safe_modify fun d _ _ _ => ⟨trivial, trivial, ?_⟩
  exact handler_frame frame_econetAck

theorem txError_inbound (hs : s ≠ 1#32) (hd : InState s d) : HandlerInbound txError d :=
  inState_store hd (fun _ hd' h => hs (hd'.symm.trans h)) fun _ =>
    handler_frame (v := fun _ => ()) (frame_modify (by rfl) fun _ => rfl)

theorem rxScoutAck_inbound (hs : s ≠ 1#32) (hd : InState s d) : HandlerInbound rxScoutAck d := by
  unfold rxScoutAck
  refine inState_load hd fun len d hd => ?_
  split
  · refine safe_modify_stable (B := InState s) (stable_inState s) hd
      (fun d' _ _ hd' => ⟨trivial, trivial, hd'⟩) fun d _ hd => ?_
    refine inState_store hd (fun _ hd' h => hs (hd'.symm.trans h)) fun d => ?_
    refine handler_frame (v := fun _ => ()) ?_
    refine Prog.acts_bind (frame_load _) fun _ =>
      Prog.acts_bind (frame_modify (by rfl) fun _ => rfl) fun _ => ?_
    refine Prog.acts_bind (frame_load _) fun _ =>
      Prog.acts_bind (frame_modify (by rfl) fun _ => rfl) fun _ => ?_
    exact Prog.acts_bind (frame_modify (by rfl) fun _ => rfl) fun _ =>
      frame_modify (by rfl) fun _ => rfl
  · exact txError_inbound hs hd

theorem rxDataAck_inbound (hs : s ≠ 1#32) (hd : InState s d) : HandlerInbound rxDataAck d := by
  unfold rxDataAck
  refine inState_load hd fun len d hd => ?_
  split
  · exact inState_store hd (fun _ hd' h => hs (hd'.symm.trans h)) fun _ =>
      handler_frame (v := fun _ => ()) (frame_modify (by rfl) fun _ => rfl)
  · exact txError_inbound hs hd

theorem rxMonitor_inbound : HandlerInbound rxMonitor d := by
  unfold rxMonitor
  refine safe_read fun d _ _ _ => ⟨trivial, ?_⟩
  refine handler_frame (v := fun _ => ()) ?_
  refine Prog.acts_bind (frame_modify (by rfl) fun _ => rfl) fun _ =>
    Prog.acts_bind (frame_load _) fun _ => ?_
  refine Prog.acts_bind (frame_modify (by rfl) fun _ => rfl) fun _ =>
    Prog.acts_bind (frame_load _) fun _ => ?_
  exact frame_modify (by rfl) fun _ => rfl

theorem econetRx_inbound : HandlerInbound econetRx d := by
  unfold econetRx
  refine safe_modify fun d _ _ _ => ⟨trivial, trivial, ?_⟩
  refine safe_modify fun d _ _ _ => ⟨trivial, trivial, ?_⟩
  refine safe_read fun d _ _ _ => ⟨trivial, ?_⟩
  split
  · exact rxMonitor_inbound
  refine safe_read fun d _ _ _ => ⟨trivial, ?_⟩
  split_ifs with h0 h1 h2 h3
  · exact scoutAck_inbound h0
  · exact dataAck_inbound
  · exact rxScoutAck_inbound (by decide) h2
  · exact rxDataAck_inbound (by decide) h3
  · exact handler_frame (v := fun _ => ()) (frame_pure ())

theorem stable_clear : Stable inboundHandler Clear := fun _ _ hr _ h => hr.2 h

/-- The timeout keeps a clear line clear. -/
theorem econetTimeout_inbound (hd : Clear d) :
    Safe inboundHandler InboundCond InboundGuar (fun _ d' => Clear d') econetTimeout d := by
  refine safe_of_acts stable_clear ?_ hd
  refine ⟨fun d _ _ h => ⟨trivial, trivial, ⟨h.writing, h.state, h.frameValid⟩⟩, fun _ => ?_⟩
  refine ⟨fun d _ _ h => ⟨trivial, trivial, h⟩, fun _ => ?_⟩
  refine ⟨fun d _ _ h => ⟨trivial, trivial, ⟨h.writing, h.state, h.frameValid⟩⟩, fun _ => ?_⟩
  exact ⟨fun d _ _ h => ⟨trivial, trivial, ⟨h.writing, rfl, h.frameValid⟩⟩, fun _ => trivial⟩

/-- **The handler** keeps a clear line clear. -/
theorem isrTrap_inbound :
    Safe inboundHandler InboundCond InboundGuar (fun _ d' => True ∧ (Clear d → Clear d'))
    isrTrap d := by
  unfold isrTrap
  by_cases hc : Clear d
  · refine safe_read_stable stable_clear hc (fun _ _ _ => trivial) fun d' _ _ hd' => ?_
    rw [hd'.frameValid, if_neg Bool.false_ne_true]
    refine safe_read_stable stable_clear hd' (fun _ _ _ => trivial) fun d' _ _ hd' => ?_
    split
    · exact (econetTimeout_inbound hd').mono fun _ _ _ h => ⟨trivial, fun _ => h⟩
    · exact safe_ret_stable stable_clear hd' fun _ _ h => ⟨trivial, fun _ => h⟩
  -- with a frame or a handshake there is nothing to keep
  refine Safe.mono (fun _ _ _ _ => ⟨trivial, fun h => absurd h hc⟩) (Q := fun _ _ => True) ?_
  refine safe_read fun d' _ _ _ => ⟨trivial, ?_⟩
  split
  · exact econetRx_inbound
  refine safe_read fun d' _ _ _ => ⟨trivial, ?_⟩
  split
  · unfold econetTimeout
    refine safe_modify fun d _ _ _ => ⟨trivial, trivial, ?_⟩
    refine safe_read fun d _ _ _ => ⟨trivial, ?_⟩
    refine safe_modify fun d _ _ _ => ⟨trivial, trivial, ?_⟩
    exact fun d _ _ _ => ⟨trivial, trivial, fun _ _ _ => trivial⟩
  · exact handler_frame (v := fun _ => ()) (frame_pure ())

end Handler

/-! ### The thread -/

section Thread

variable {α : Type} {d : Driver}

/-- What is shown of a piece of a call. -/
abbrev ThreadInbound (Q : α → Driver → Prop) (p : Code α) (d : Driver) : Prop :=
  Safe inboundThread InboundCond InboundGuar Q p d

theorem thread_frame {β : Type} {v : Driver → β} {p : Code α} (hp : Frame v p) :
    ThreadInbound (fun _ _ => True) p d :=
  any_frame (fun _ => trivial) hp

theorem stable_clear_thread : Stable inboundThread Clear := fun _ _ hr _ h => hr h

/-- What the line being clear depends on. -/
def clearPart (d : Driver) : Bool × BitVec 32 × Bool :=
  (d.deliv.writing, d.vars.handshakeState, d.frameValid)

theorem Clear.of_clearPart {d' : Driver} (h : Clear d) (hv : clearPart d' = clearPart d) :
    Clear d' := by
  obtain ⟨h1, h2, h3⟩ : d'.deliv.writing = d.deliv.writing ∧
      d'.vars.handshakeState = d.vars.handshakeState ∧ d'.frameValid = d.frameValid := by
    simpa [clearPart] using hv
  exact ⟨h1.trans h.writing, h2.trans h.state, h3.trans h.frameValid⟩

theorem clear_then {p : Code α} {g : α → Code Unit} {Q : Unit → Driver → Prop} (hd : Clear d)
    (hp : Frame clearPart p) (h : ∀ a d', Clear d' → ThreadInbound Q (g a) d') :
    ThreadInbound Q (p >>= g) d :=
  safe_bind ((keeps_frame (fun _ => trivial) stable_clear_thread
    (fun _ _ hv hd => hd.of_clearPart hv) hp hd).mono fun a d' _ hd' => h a d' hd')

/-- `econet_write` begins its handshake on a clear line. -/
theorem setUpFrames_inbound (dest : EconetAddr) (ptr : BitVec 32) (bytes : List (BitVec 8))
    (hd : Clear d) :
    ThreadInbound (fun _ _ => True) (setUpFrames dest ptr bytes) d := by
  unfold setUpFrames
  refine clear_then hd (frame_modify (by rfl) fun _ => rfl) fun _ d hd => ?_
  refine clear_then hd (frame_load _) fun address d hd => ?_
  refine clear_then hd (frame_modify (by rfl) fun _ => rfl) fun _ d hd => ?_
  refine clear_then hd (frame_modify (by rfl) fun _ => rfl) fun _ d hd => ?_
  refine clear_then hd (frame_modify (by rfl) fun _ => rfl) fun _ d hd => ?_
  refine clear_then hd (frame_modify (by rfl) fun _ => rfl) fun _ d hd => ?_
  refine clear_then hd ((frame_copyTx _ _ _).comp fun v =>
    (v.1.2.2.2.writing, v.1.1.handshakeState, v.1.2.1.regs.sysFrameValid)) fun _ d hd => ?_
  refine clear_then hd (frame_modify (by rfl) fun _ => rfl) fun _ d hd => ?_
  refine clear_then hd (frame_modify (by rfl) fun _ => rfl) fun _ d hd => ?_
  refine clear_then hd (frame_modify (by rfl) fun _ => rfl) fun _ d hd => ?_
  refine clear_then hd (frame_modify (by rfl) fun _ => rfl) fun _ d hd => ?_
  -- `STATE_TXSCOUT`
  refine safe_modify_stable (B := fun _ => True) stable_clear_thread hd
    (fun d _ _ hd => ⟨⟨hd.state, hd.frameValid⟩, trivial, trivial⟩) fun d _ _ => ?_
  exact thread_frame (v := fun _ => ()) (frame_modify (by rfl) fun _ => rfl)

theorem econetWrite_inbound (fd : Fd) (ptr : BitVec 32) (bytes : List (BitVec 8)) :
    ThreadInbound (fun _ _ => True) (econetWrite fd ptr bytes) d := by
  unfold econetWrite
  split
  · exact thread_frame (v := fun _ => ()) (frame_pure _)
  refine safe_modify fun d _ _ _ => ⟨trivial, trivial, ?_⟩
  refine safe_modify fun d _ _ _ => ⟨trivial, trivial, ?_⟩
  refine safe_modify fun d _ _ _ => ⟨trivial, trivial, ?_⟩
  refine safe_read fun d _ _ _ => ⟨trivial, ?_⟩
  split
  · exact thread_frame (v := fun _ => ()) (frame_pure _)
  refine safe_wait fun d _ _ _ => ⟨trivial, fun _ d _ _ hc => ⟨trivial, fun hidle => ⟨trivial, ?_⟩⟩⟩
  -- the last read of the loop found no handshake, and the condition says that no frame waits
  have hstate : d.vars.handshakeState = 0#32 := by
    rw [decide_eq_false_iff_not] at hidle
    bv_omega
  have hclear : Clear d.beginWrite := ⟨rfl, hstate, hc rfl hstate⟩
  refine safe_bind ((setUpFrames_inbound _ ptr bytes hclear).mono fun _ d _ _ => ?_)
  refine safe_modify fun d _ _ _ => ⟨trivial, trivial, ?_⟩
  exact thread_frame (frame_awaitHandshake _)

theorem code_inbound (c : NetCall) : ThreadInbound (fun _ _ => True) c.code d := by
  cases c with
  | io c =>
    cases c with
    | read fd ptr count => exact thread_frame (frame_econetRead fd ptr count)
    | peek fd => exact thread_frame (v := fun _ => ()) (frame_econetPeek fd)
    | write fd ptr bytes => exact econetWrite_inbound fd ptr bytes
  | ioctl fd request dest => exact thread_frame (frame_econetIoctl fd request dest)
  | close fd => exact thread_frame (frame_econetClose fd)

end Thread

theorem net_inboundVerified :
    Verified netKernel inboundThread inboundHandler InboundCond InboundGuar InboundEnv fun _ =>
    True where
  env_thread _ _ _ hi := ⟨trivial, clear_hw hi⟩
  env_isr i d _ hi := ⟨trivial, (hw_vars d i).1, clear_hw hi⟩
  isr _ _ _ := ⟨trivial, isrTrap_inbound⟩
  call c _ _ _ := (code_inbound c).mono fun _ _ _ _ => ⟨trivial, trivial⟩
  ready_rely _ _ _ _ _ := trivial

/-! ### The stores to `econet_handshake_state` -/

/-- Calls store `STATE_TXSCOUT` only. -/
def ThreadStores (l : Access) (f : Driver → Driver) : Prop :=
  (∃ dest, l = .txScout dest) ∨ KeepsState f

/-- The stores of the handler have their labels. -/
def HandlerStores (l : Access) (f : Driver → Driver) : Prop := l.storesState = true ∨ KeepsState f

theorem StoresBy.handler {α : Type} {p : Code α} (hp : p.Acts (StoresBy Labelled)) :
    p.Acts HandlerStores :=
  hp.mono fun _ _ h => h.1

theorem handlerStores_dataAck : dataAck.Acts HandlerStores := by
  have hkeep : ∀ {l : Access} {f : Driver → Driver},
    KeepsState f → (Prog.modify l f : Code Unit).Acts HandlerStores :=
    fun hf => ⟨Or.inr hf, fun _ => trivial⟩
  have hload : ∀ {α : Type} (l : Access) (f : Driver → α), (Prog.read l f).Acts HandlerStores :=
    fun l f => StoresBy.handler (stores_read l f)
  refine Prog.acts_bind (hload _ _) fun port => Prog.acts_bind (hload _ _) fun fd => ?_
  refine Prog.acts_bind (hkeep fun _ => rfl) fun _ => ?_
  refine Prog.acts_bind ⟨Or.inl rfl, fun _ => trivial⟩ fun _ => ?_
  refine Prog.acts_bind (hload _ _) fun start => Prog.acts_bind (hkeep fun _ => rfl) fun _ => ?_
  refine Prog.acts_bind (hload _ _) fun len => Prog.acts_bind (hkeep fun _ => rfl) fun _ => ?_
  exact StoresBy.handler stores_econetAck

theorem handlerStores_isrTrap : isrTrap.Acts HandlerStores := by
  have hload : ∀ {α : Type} (f : Driver → α), (load f).Acts HandlerStores := fun f =>
    StoresBy.handler (stores_load f)
  refine Prog.acts_bind (hload _) fun valid => ?_
  split
  · refine Prog.acts_bind (StoresBy.handler (stores_modify fun _ => rfl)) fun _ => ?_
    refine Prog.acts_bind (StoresBy.handler (stores_modify fun _ => rfl)) fun _ => ?_
    refine Prog.acts_bind (hload _) fun monitor => ?_
    split
    · exact StoresBy.handler stores_rxMonitor
    refine Prog.acts_bind (hload _) fun state => ?_
    split_ifs
    · exact StoresBy.handler stores_scoutAck
    · exact handlerStores_dataAck
    · exact StoresBy.handler stores_rxScoutAck
    · exact StoresBy.handler stores_rxDataAck
    · trivial
  refine Prog.acts_bind (hload _) fun timeout => ?_
  split
  · exact StoresBy.handler stores_econetTimeout
  · trivial

theorem threadStores_code (c : NetCall) : c.code.Acts ThreadStores := by
  have hframe : ∀ {p : Code Reply},
      Frame (fun d => d.vars.handshakeState) p → p.Acts ThreadStores :=
    fun hp => Prog.Acts.mono (fun _ _ h => Or.inr h.2) hp
  cases c with
  | io c =>
    cases c with
    | read fd ptr count =>
      exact hframe ((frame_econetRead fd ptr count).comp fun c => c.handshakeState)
    | peek fd => exact hframe (frame_econetPeek fd)
    | write fd ptr bytes => exact (stores_econetWrite fd ptr bytes).mono fun _ _ h => h.1
  | ioctl fd request dest => exact hframe ((frame_econetIoctl fd request dest).comp fun v => v.1.1)
  | close fd => exact hframe ((frame_econetClose fd).comp fun v => v.1.1.1)

/-! ### Runs -/

/-- A step keeps inbound handshakes: `STATE_TXSCOUT` is stored with no handshake in progress and no
frame waiting, and the state `STATE_WAITDATA` is only left by `.data_ack` and by the timeout. -/
def InboundKept (y : System) (e : NetEvent) : Prop :=
  y.OnAccess (fun l d => ∀ dest, l = .txScout dest → d.vars.handshakeState = 0#32 ∧
    d.frameValid = false) e ∧ (y.shared.vars.handshakeState = 1#32 →
      (Interrupted.step netKernel y e).shared.vars.handshakeState ≠ 1#32 →
      e = .isr ∧ (y.isrNext = some .dataState ∨ y.isrNext = some .timeoutState))

theorem inboundKept_of_guarded {y : System} (hy : y.ActsBy ThreadStores HandlerStores)
    (e : NetEvent) (hg : y.OnAccess InboundGuar e) : InboundKept y e := by
  constructor
  · cases e with
    | thread => exact fun l hl dest h => by subst h; exact hg _ hl
    | isr => exact fun l hl dest h => by subst h; exact hg _ hl
    | env i => trivial
    | call c => trivial
    | interrupt => trivial
  intro h1 hne
  obtain h | ⟨i, h⟩ | ⟨a, h⟩ | ⟨l, f, rfl, hl, hf, h⟩ | ⟨l, f, rfl, hl, hf, h⟩ :=
    hy.shared (K := netKernel) e
  · rw [h] at hne
    exact absurd h1 hne
  · rw [h] at hne
    exact absurd ((congrArg Vars.handshakeState (hw_vars y.shared i).1).trans h1) hne
  · rw [h] at hne
    have hfin : (netKernel.finish a y.shared).vars = y.shared.vars := by cases a <;> rfl
    exact absurd ((congrArg Vars.handshakeState hfin).trans h1) hne
  · obtain ⟨dest, rfl⟩ | hf := hf
    · have h0 := (hg _ hl).1
      rw [h1] at h0
      exact absurd h0 (by decide)
    · rw [h] at hne
      exact absurd ((hf y.shared).trans h1) hne
  · refine ⟨rfl, ?_⟩
    obtain hs | hf := hf
    · have hgl := hg l hl
      -- each other store is made in another state
      cases l with
      | dataState => exact Or.inl hl
      | timeoutState => exact Or.inr hl
      | txScout dest =>
        have h0 := hgl.1
        rw [h1] at h0
        exact absurd h0 (by decide)
      | scoutState => exact absurd h1 hgl
      | ackScout => exact absurd h1 hgl
      | ackData => exact absurd h1 hgl
      | errorState => exact absurd h1 hgl
      | _ => exact absurd hs Bool.false_ne_true
    · rw [h] at hne
      exact absurd ((hf y.shared).trans h1) hne

/-- The condition on a step: the wait for the line ends with no frame waiting, and none is accepted
between there and the store of `STATE_TXSCOUT`. -/
def WritesApart (y : System) (e : NetEvent) : Prop := y.Meets InboundCond InboundEnv e

instance (y : System) (e : NetEvent) : Decidable (WritesApart y e) :=
  inferInstanceAs (Decidable (y.Meets InboundCond InboundEnv e))

theorem stepsMeet_inboundKept {y : System} (hy : y.ActsBy ThreadStores HandlerStores)
    (es : List NetEvent)
    (hes : Machine.StepsMeet (Interrupted.step netKernel) (Interrupted.OnAccess InboundGuar) y es) :
    Machine.StepsMeet (Interrupted.step netKernel) InboundKept y es := by
  induction es generalizing y with
  | nil => trivial
  | cons e es ih =>
    exact ⟨inboundKept_of_guarded hy e hes.1,
      ih (hy.step threadStores_code handlerStores_isrTrap e) hes.2⟩

/-- **`econet_write` destroys no inbound handshake**, in every run in which no frame comes in
between its wait for the line and its store. -/
theorem write_keepsInbound (y : System) (hy : Init y) (es : List NetEvent)
    (hes : Machine.StepsMeet (Interrupted.step netKernel) WritesApart y es) :
    Machine.StepsMeet (Interrupted.step netKernel) InboundKept y es := by
  obtain ⟨d, t, i⟩ := y
  obtain rfl : t = none := hy.thread
  obtain rfl : i = none := hy.isr
  have hsound : Interrupted.Sound netKernel inboundThread inboundHandler InboundCond InboundGuar
      (fun _ => True) (⟨d, none, none⟩ : System) := ⟨trivial, trivial⟩
  refine stepsMeet_inboundKept ⟨by simp, by simp⟩ es ?_
  exact Interrupted.run_guarded net_inboundVerified hsound es hes

/-- Descriptor 5 is written to, up to the wait for the line; the scout of another station is
acknowledged, and the data follows. -/
def answeredRun : List NetEvent :=
  (fromPeer [0x80#8, 0x99#8] ++ handled ++ called (.write 5 0#32 []) 20 ++
    fromPeer [1#8, 2#8] ++ handled ++ List.replicate 20 SysEvent.thread).map Event.net

/-- The write waits for the end of the handshake, then sends its scout. -/
theorem answeredRun_keepsInbound :
    (Machine.run (Interrupted.step netKernel) station answeredRun).shared.vars.handshakeState =
    2#32 ∧
      Machine.StepsMeet (Interrupted.step netKernel) InboundKept station answeredRun := by
  have hrun : Machine.RunsTo (Interrupted.step netKernel) WritesApart
      (fun y => y.shared.vars.handshakeState = 2#32) station answeredRun := by
    decide +kernel
  exact ⟨hrun.run, write_keepsInbound station init_station answeredRun hrun.stepsMeet⟩

/-- The scout of another station arrives, and is acknowledged, after the write has found the line
idle. -/
def racedRun : List NetEvent :=
  (called (.write 5 0#32 []) 6 ++ fromPeer [0x80#8, 0x99#8] ++ handled ++
    List.replicate 10 SysEvent.thread).map Event.net

/-- The write then begins its own handshake over that of the scout. -/
theorem racedRun_loses_scout :
    Init station ∧
      ¬Machine.StepsMeet (Interrupted.step netKernel) InboundKept station
      (racedRun ++ [.thread]) := by
  have hrun : Machine.RunsTo (Interrupted.step netKernel) (fun _ _ => True)
      (fun y => y.threadNext = some (.txScout ⟨0x99#8, 0#8, 1#8⟩) ∧
        y.shared.vars.handshakeState = 1#32)
      station racedRun := by
    decide +kernel
  obtain ⟨hnext, hstate⟩ := hrun.run
  refine ⟨init_station, fun h => ?_⟩
  have hlast := ((Machine.stepsMeet_append _ _).mp h).2.1.1
  have h0 := (hlast _ hnext _ rfl).1
  exact absurd (hstate.symm.trans h0) (by decide)

end Filestick.RawEconet
