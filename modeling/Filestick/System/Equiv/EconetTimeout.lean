import Filestick.System.Equiv.EconetFrames

/-!
# The handshake can always time out

Every frame interrupt stops timer A, and each branch of the handler starts it again or ends the
handshake, but for the one of the monitor mode.  `TimerShared` is what holds of the timer whenever
the handler does not run.

* `handshake_timesOut`: in every run in which the monitor branch is only taken while no handshake is
  in progress, a handshake that is in progress has the timer running, and the timeout ends it.
-/

namespace Filestick.RawEconet

open Driver

/-! ### The timer -/

namespace Timer

/-- What ticks keep of the timer. -/
structure Ticked (t t' : Timer) : Prop where
  enable : t'.enable = t.enable
  count : t.count ≤ t.timerval → t'.count ≤ t'.timerval
  stopped : t.enable = false → t' = t

theorem Ticked.refl (t : Timer) : Ticked t t := ⟨rfl, id, fun _ => rfl⟩

theorem Ticked.trans {t t' t'' : Timer} (h : Ticked t t') (h' : Ticked t' t'') : Ticked t t'' :=
  ⟨h'.enable.trans h.enable, fun hc => h'.count (h.count hc),
    fun he => (h'.stopped (h.enable.trans he)).trans (h.stopped he)⟩

theorem ticked_tick (t : Timer) : Ticked t t.tick := by
  refine ⟨rfl, fun hc => ?_, fun he => ?_⟩
  · unfold tick
    dsimp only
    split
    · next h =>
      have hlt : t.count < t.timerval := by
        rw [Bool.and_eq_true, decide_eq_true_eq] at h
        exact h.2
      bv_omega
    · exact hc
  · cases t
    subst he
    rfl

/-- A running timer comes to its interrupt, which it then holds. -/
theorem interrupt_tick (n : ℕ) : ∀ t : Timer, t.enable = true → t.count ≤ t.timerval →
    t.timerval.toNat - t.count.toNat ≤ n → ((tick^[n]) t).interrupt = true := by
  induction n with
  | zero =>
    intro t he hc hn
    have heq : t.count = t.timerval := by bv_omega
    simp [interrupt, he, heq]
  | succ n ih =>
    intro t he hc hn
    rw [Function.iterate_succ_apply]
    apply ih
    · exact he
    · exact (ticked_tick t).count hc
    · by_cases hlt : t.count < t.timerval
      · have htick : t.tick = { t with count := t.count + 1#32 } := by simp [tick, he, hlt]
        rw [htick]
        bv_omega
      · have htick : t.tick = t := by simp [tick, hlt]
        rw [htick]
        bv_omega

end Timer

theorem hw_timer (d : Driver) (i : Hw) : Timer.Ticked d.timer (d.hw i).timer := by
  obtain ⟨c, hs⟩ := hw_eq d i
  rw [hs]
  cases i with
  | tick => exact Timer.ticked_tick d.timer
  | line level => exact Timer.Ticked.refl _
  | rise => exact Timer.Ticked.refl _
  | fall => exact Timer.Ticked.refl _

/-! ### The contracts -/

/-- What the thread keeps: a handshake in progress has the timer running, below its value once
interrupts can be taken. -/
structure TimerShared (d : Driver) : Prop where
  state : d.vars.handshakeState ≤ 3#32
  enable : d.vars.handshakeState ≠ 0#32 → d.timer.enable = true
  count : d.vars.mstatus = true → d.vars.handshakeState ≠ 0#32 → d.timer.count ≤ d.timer.timerval

/-- What the thread relies on: with interrupts disabled the handshake stays as it is, and the timer
runs on. -/
structure TimerRely (d d' : Driver) : Prop where
  mstatus : d'.vars.mstatus = d.vars.mstatus
  disabled : d.vars.mstatus = false →
    d'.vars.handshakeState = d.vars.handshakeState ∧ d.timer.Ticked d'.timer

/-- What the handler relies on. -/
structure TimerHwRely (d d' : Driver) : Prop where
  vars : d'.vars = d.vars
  timer : d.timer.Ticked d'.timer

/-- The contract of the thread. -/
def timerThread : Contract Driver where
  inv := TimerShared
  rely := TimerRely
  refl _ := ⟨rfl, fun _ => ⟨rfl, Timer.Ticked.refl _⟩⟩
  trans h h' := ⟨h'.mstatus.trans h.mstatus, fun hm =>
    ⟨(h'.disabled (h.mstatus.trans hm)).1.trans (h.disabled hm).1,
      (h.disabled hm).2.trans (h'.disabled (h.mstatus.trans hm)).2⟩⟩

/-- The contract of the handler. -/
def timerHandler : Contract Driver where
  inv _ := True
  rely := TimerHwRely
  refl _ := ⟨rfl, Timer.Ticked.refl _⟩
  trans h h' := ⟨h'.vars.trans h.vars, h.timer.trans h'.timer⟩

/-- The condition on accesses: `.econet_monitor` is taken with no handshake in progress. -/
def MonitorCond (l : Access) (d : Driver) : Prop := l = .monitor → d.vars.handshakeState = 0#32

instance (l : Access) (d : Driver) : Decidable (MonitorCond l d) :=
  inferInstanceAs (Decidable (_ → _))

/-- Nothing is asked of the hardware. -/
def AnyMove (_ : Bool) (_ : Hw) (_ : Driver) : Prop := True

instance (inIsr : Bool) (i : Hw) (d : Driver) : Decidable (AnyMove inIsr i d) :=
  inferInstanceAs (Decidable True)

/-- Nothing is shown of single accesses. -/
def AnyAccess (_ : Access) (_ : Driver) : Prop := True

theorem timerShared_hw {d : Driver} (h : TimerShared d) (i : Hw) : TimerShared (d.hw i) := by
  have hv := (hw_vars d i).1
  have ht := hw_timer d i
  refine ⟨?_, fun hs => ?_, fun hm hs => ?_⟩
  · rw [hv]; exact h.state
  · rw [hv] at hs
    exact ht.enable.trans (h.enable hs)
  · rw [hv] at hm hs
    exact ht.count (h.count hm hs)

/-! ### The handler -/

/-- The handshake, the interrupt enable and the timer. -/
def watch (d : Driver) : BitVec 32 × Bool × Timer :=
  (d.vars.handshakeState, d.vars.mstatus, d.timer)

theorem watch_eq {d d' : Driver} (hw : watch d' = watch d) :
    d'.vars.handshakeState = d.vars.handshakeState ∧
    d'.vars.mstatus = d.vars.mstatus ∧ d'.timer = d.timer := by
  simpa [watch] using hw

/-- The handler has stopped the timer. -/
structure Stopped (d : Driver) : Prop where
  mstatus : d.vars.mstatus = true
  enable : d.timer.enable = false
  count : d.timer.count = 0#32

/-- The handler has ended the handshake. -/
structure Ended (d : Driver) : Prop where
  mstatus : d.vars.mstatus = true
  state : d.vars.handshakeState = 0#32

/-- The handler has come to its end: the handshake is over, or the timer runs. -/
structure Handled (d : Driver) : Prop where
  mstatus : d.vars.mstatus = true
  shared : TimerShared d

theorem Ended.handled {d : Driver} (h : Ended d) : Handled d := by
  refine ⟨h.mstatus, ?_, fun hs => absurd h.state hs, fun _ hs => absurd h.state hs⟩
  rw [h.state]
  decide

theorem stable_stoppedAt (s : BitVec 32) :
    Stable timerHandler fun d => Stopped d ∧ d.vars.handshakeState = s := fun d d' hr _ h => by
  have ht : d'.timer = d.timer := hr.timer.stopped h.1.enable
  refine ⟨⟨?_, ?_, ?_⟩, ?_⟩
  · rw [hr.vars]; exact h.1.mstatus
  · rw [ht]; exact h.1.enable
  · rw [ht]; exact h.1.count
  · rw [hr.vars]; exact h.2

theorem stable_ended : Stable timerHandler Ended := fun d d' hr _ h =>
  ⟨by rw [hr.vars]; exact h.mstatus, by rw [hr.vars]; exact h.state⟩

theorem stable_handledTimer : Stable timerHandler Handled := fun d d' hr _ h => by
  have hv := hr.vars
  refine ⟨by rw [hv]; exact h.mstatus, ?_, fun hs => ?_, fun hm hs => ?_⟩
  · rw [hv]; exact h.shared.state
  · rw [hv] at hs
    exact hr.timer.enable.trans (h.shared.enable hs)
  · rw [hv] at hm hs
    exact hr.timer.count (h.shared.count hm hs)

section Handler

variable {α : Type} {d : Driver} {s : BitVec 32}

/-- What is shown of a piece of the handler. -/
abbrev HandlerArms (p : Code Unit) (d : Driver) : Prop :=
  Safe timerHandler MonitorCond AnyAccess (fun _ d' => Handled d') p d

/-- The handler with the timer stopped and the handshake in the state `s`. -/
abbrev StoppedAt (s : BitVec 32) (d : Driver) : Prop := Stopped d ∧ d.vars.handshakeState = s

theorem StoppedAt.of_watch {d' : Driver} (h : StoppedAt s d) (hw : watch d' = watch d) :
    StoppedAt s d' := by
  obtain ⟨h1, h2, h3⟩ := watch_eq hw
  refine ⟨⟨h2.trans h.1.mstatus, ?_, ?_⟩, h1.trans h.2⟩
  · rw [h3]; exact h.1.enable
  · rw [h3]; exact h.1.count

/-- Code that leaves the timer and the handshake. -/
theorem stopped_leaves {p : Code α} (hp : Leaves watch p) (hd : StoppedAt s d) :
    Safe timerHandler MonitorCond AnyAccess (fun _ d' => StoppedAt s d') p d :=
  safe_of_acts (stable_stoppedAt s)
    (hp.mono fun _ _ hf d' _ _ hd' => ⟨trivial, trivial, StoppedAt.of_watch hd' (hf d')⟩) hd

theorem stopped_then {p : Code α} {g : α → Code Unit} (hd : StoppedAt s d) (hp : Leaves watch p)
    (h : ∀ a d', StoppedAt s d' → HandlerArms (g a) d') : HandlerArms (p >>= g) d :=
  safe_bind ((stopped_leaves hp hd).mono fun a d' _ hd' => h a d' hd')

/-- Code after the end of the handshake, which leaves it. -/
theorem ended_leaves {p : Code Unit}
    (hp : Leaves (fun d => (d.vars.handshakeState, d.vars.mstatus)) p) (hd : Ended d) :
    HandlerArms p d := by
  refine (safe_of_acts stable_ended
    (hp.mono fun _ f hf d' _ _ hd' => ⟨trivial, trivial, ?_⟩) hd).mono fun _ _ _ h => h.handled
  obtain ⟨h1, h2⟩ := Prod.mk.inj (hf d')
  exact ⟨h2.trans hd'.mstatus, h1.trans hd'.state⟩

/-- A handshake that is not begun or is over. -/
theorem arms_ret (hd : StoppedAt 0#32 d) : HandlerArms (pure ()) d :=
  ended_leaves (leaves_pure ()) ⟨hd.1.mstatus, hd.2⟩

/-- The store of a new state. -/
theorem stopped_setState {l : Access} {s' : BitVec 32} {g : Unit → Code Unit}
    (hd : StoppedAt s d) (h : ∀ d', StoppedAt s' d' → HandlerArms (g ()) d') :
    HandlerArms (storeAs l ({ · with handshakeState := s' }) >>= g) d :=
  safe_modify_stable (stable_stoppedAt s) hd
    (fun _ _ _ hd' => ⟨trivial, trivial, ⟨⟨hd'.1.mstatus, hd'.1.enable, hd'.1.count⟩, rfl⟩⟩)
    fun d' _ hd' => h d' hd'

/-- The timer is started. -/
theorem arms_timer (hs : s ≤ 3#32) (hd : StoppedAt s d) :
    HandlerArms (storeTimer (·.writeVal 3000000#32) >>= fun _ => storeTimer (·.writeStatus 2#32))
    d := by
  refine safe_modify_stable (B := StoppedAt s) (stable_stoppedAt s) hd
    (fun _ _ _ hd' => ⟨trivial, trivial, ⟨hd'.1.mstatus, hd'.1.enable, hd'.1.count⟩, hd'.2⟩)
    fun d _ hd => ?_
  intro d' hr hi _
  have hd' := stable_stoppedAt s d d' hr hi hd
  refine ⟨trivial, trivial, safe_ret_stable stable_handledTimer (A := Handled) ?_ fun _ _ h => h⟩
  refine ⟨hd'.1.mstatus, hd'.2.trans_le hs, fun _ => rfl, fun _ _ => ?_⟩
  -- the counter was reset when the handler stopped the timer
  show d'.timer.count ≤ d'.timer.timerval
  rw [hd'.1.count]
  bv_omega

theorem arms_econetAck (hs : s ≤ 3#32) (hd : StoppedAt s d) : HandlerArms econetAck d := by
  unfold econetAck
  refine stopped_then hd (leaves_modify fun _ => rfl) fun _ d hd => ?_
  refine stopped_then hd (leaves_load _) fun _ d hd => ?_
  refine stopped_then hd (leaves_modify fun _ => rfl) fun _ d hd => ?_
  refine stopped_then hd (leaves_modify fun _ => rfl) fun _ d hd => ?_
  refine stopped_then hd (leaves_modify fun _ => rfl) fun _ d hd => ?_
  exact arms_timer hs hd

theorem arms_scoutAck (hd : StoppedAt 0#32 d) : HandlerArms scoutAck d := by
  unfold scoutAck
  refine stopped_then hd (leaves_load _) fun len d hd => ?_
  split
  · refine stopped_then hd (leaves_load _) fun port d hd => ?_
    refine stopped_then hd (leaves_load _) fun fd d hd => ?_
    split
    · refine stopped_setState hd fun d hd => ?_
      refine stopped_then hd (leaves_modify fun _ => rfl) fun _ d hd => ?_
      exact arms_econetAck (by decide) hd
    · exact arms_ret hd
  · exact (stopped_leaves (frame_econetRxImm.comp fun v =>
      (v.1.1.handshakeState, v.1.1.mstatus, v.2)).leaves
      hd).mono fun _ _ _ hd => (Ended.mk hd.1.mstatus hd.2).handled

theorem arms_dataAck (hd : StoppedAt s d) : HandlerArms dataAck d := by
  unfold dataAck
  refine stopped_then hd (leaves_read _ _) fun port d hd => ?_
  refine stopped_then hd (leaves_load _) fun fd d hd => ?_
  refine stopped_then hd (leaves_modify fun _ => rfl) fun _ d hd => ?_
  refine stopped_setState hd fun d hd => ?_
  -- the handshake is over, so the timer may do what it likes from here on
  have hended : Ended d := ⟨hd.1.mstatus, hd.2⟩
  refine ended_leaves ?_ hended
  refine Prog.acts_bind (leaves_load _) fun _ =>
    Prog.acts_bind (leaves_modify fun _ => rfl) fun _ => ?_
  refine Prog.acts_bind (leaves_load _) fun _ =>
    Prog.acts_bind (leaves_modify fun _ => rfl) fun _ => ?_
  exact (frame_econetAck.comp fun v => (v.1.handshakeState, v.1.mstatus)).leaves

theorem arms_txError (hd : StoppedAt s d) : HandlerArms txError d := by
  unfold txError
  refine stopped_setState hd fun d hd => ?_
  exact ended_leaves (leaves_modify fun _ => rfl) ⟨hd.1.mstatus, hd.2⟩

theorem arms_rxScoutAck (hd : StoppedAt s d) : HandlerArms rxScoutAck d := by
  unfold rxScoutAck
  refine stopped_then hd (leaves_load _) fun len d hd => ?_
  split
  · refine stopped_then hd (leaves_modify fun _ => rfl) fun _ d hd => ?_
    refine stopped_setState hd fun d hd => ?_
    refine stopped_then hd (leaves_load _) fun _ d hd => ?_
    refine stopped_then hd (leaves_modify fun _ => rfl) fun _ d hd => ?_
    refine stopped_then hd (leaves_load _) fun _ d hd => ?_
    refine stopped_then hd (leaves_modify fun _ => rfl) fun _ d hd => ?_
    exact arms_timer (by decide) hd
  · exact arms_txError hd

theorem arms_rxDataAck (hd : StoppedAt s d) : HandlerArms rxDataAck d := by
  unfold rxDataAck
  refine stopped_then hd (leaves_load _) fun len d hd => ?_
  split
  · refine stopped_setState hd fun d hd => ?_
    exact ended_leaves (leaves_modify fun _ => rfl) ⟨hd.1.mstatus, hd.2⟩
  · exact arms_txError hd

/-- The monitor branch leaves the timer stopped: this is where the condition is used. -/
theorem arms_rxMonitor (hd : StoppedAt s d) : HandlerArms rxMonitor d := by
  unfold rxMonitor
  refine safe_read fun d' hr hi hc => ⟨trivial, ?_⟩
  have hd' := stable_stoppedAt s d d' hr hi hd
  refine ended_leaves ?_ ⟨hd'.1.mstatus, hc rfl⟩
  refine Prog.acts_bind (leaves_modify fun _ => rfl) fun _ =>
    Prog.acts_bind (leaves_load _) fun _ => ?_
  refine Prog.acts_bind (leaves_modify fun _ => rfl) fun _ =>
    Prog.acts_bind (leaves_load _) fun _ => ?_
  exact leaves_modify fun _ => rfl

/-- The handler with a frame, in each of the four states. -/
theorem arms_econetRx (hm : d.vars.mstatus = true) (hs : d.vars.handshakeState = s)
    (hle : s ≤ 3#32) :
    HandlerArms econetRx d := by
  have hstable : Stable timerHandler fun d => d.vars.mstatus = true ∧ d.vars.handshakeState = s :=
    fun _ _ hr _ h => ⟨by rw [hr.vars]; exact h.1, by rw [hr.vars]; exact h.2⟩
  unfold econetRx
  refine safe_modify_stable
    (B := fun d => d.vars.mstatus = true ∧ d.vars.handshakeState = s) hstable
    ⟨hm, hs⟩ (fun _ _ _ hd => ⟨trivial, trivial, hd⟩) fun d _ hd => ?_
  -- the timer is stopped, whatever the state
  refine safe_modify_stable (B := StoppedAt s) hstable hd
    (fun _ _ _ hd => ⟨trivial, trivial, ⟨hd.1, rfl, rfl⟩, hd.2⟩) fun d _ hd => ?_
  refine stopped_then hd (leaves_load _) fun monitor d hd => ?_
  split
  · exact arms_rxMonitor hd
  refine safe_read fun d' hr hi _ => ⟨trivial, ?_⟩
  have hd := stable_stoppedAt s d d' hr hi hd
  rw [hd.2]
  split_ifs with h0 h1 h2 h3
  · exact arms_scoutAck (h0 ▸ hd)
  · exact arms_dataAck hd
  · exact arms_rxScoutAck hd
  · exact arms_rxDataAck hd
  · exfalso
    bv_omega

/-- `econet_timeout` ends the handshake. -/
theorem arms_econetTimeout (hm : d.vars.mstatus = true) : HandlerArms econetTimeout d := by
  have hstable : Stable timerHandler fun d => d.vars.mstatus = true :=
    fun _ _ hr _ h => (congrArg Vars.mstatus hr.vars).trans h
  unfold econetTimeout
  refine safe_modify_stable (B := fun d => d.vars.mstatus = true) hstable hm
    (fun _ _ _ hd => ⟨trivial, trivial, hd⟩) fun d _ hd => ?_
  refine safe_read_stable hstable hd (fun _ _ _ => trivial) fun d _ _ hd => ?_
  refine safe_modify_stable (B := fun d => d.vars.mstatus = true) hstable hd
    (fun _ _ _ hd => ⟨trivial, trivial, hd⟩) fun d _ hd => ?_
  intro d' hr hi _
  have hd' := hstable d d' hr hi hd
  refine ⟨trivial, trivial, safe_ret_stable stable_ended (A := Ended) ?_ fun _ _ h => h.handled⟩
  exact ⟨hd', rfl⟩

/-- **The handler** leaves the timer running, or the handshake ended. -/
theorem arms_isrTrap (hm : d.vars.mstatus = true) (hd : TimerShared d) : HandlerArms isrTrap d := by
  unfold isrTrap
  refine safe_read fun d' hr _ _ => ⟨trivial, ?_⟩
  have hd' : Handled d' := stable_handledTimer d d' hr trivial ⟨hm, hd⟩
  split
  · exact arms_econetRx hd'.mstatus rfl hd'.shared.state
  refine safe_read fun d'' hr _ _ => ⟨trivial, ?_⟩
  have hd'' : Handled d'' := stable_handledTimer d' d'' hr trivial hd'
  split
  · exact arms_econetTimeout hd''.mstatus
  · exact safe_ret_stable stable_handledTimer hd'' fun _ _ h => h

end Handler

/-! ### The thread -/

section Thread

variable {α : Type} {d : Driver}

/-- What is shown of a piece of a call. -/
abbrev ThreadArms (Q : α → Driver → Prop) (p : Code α) (d : Driver) : Prop :=
  Safe timerThread MonitorCond AnyAccess Q p d

theorem TimerShared.of_watch {d' : Driver} (h : TimerShared d) (hw : watch d' = watch d) :
    TimerShared d' := by
  obtain ⟨h1, h2, h3⟩ := watch_eq hw
  refine ⟨?_, fun hs => ?_, fun hm hs => ?_⟩
  · rw [h1]; exact h.state
  · rw [h3]; exact h.enable (h1 ▸ hs)
  · rw [h3]; exact h.count (h2 ▸ hm) (h1 ▸ hs)

/-- Code that leaves the timer and the handshake keeps what others keep. -/
theorem shared_leaves {A : Driver → Prop} (hA : Stable timerThread A)
    (hw : ∀ d d', watch d' = watch d → A d → A d') {p : Code α} (hp : Leaves watch p) (hd : A d) :
    ThreadArms (fun _ d' => A d') p d :=
  safe_of_acts hA (hp.mono fun _ _ hf d' hi _ hd' =>
    ⟨trivial, TimerShared.of_watch hi (hf d'), hw d' _ (hf d') hd'⟩) hd

theorem stable_any : Stable timerThread fun _ => True := fun _ _ _ _ _ => trivial

theorem any_leaves {p : Code α} (hp : Leaves watch p) : ThreadArms (fun _ _ => True) p d :=
  shared_leaves stable_any (fun _ _ _ _ => trivial) hp trivial

theorem any_then {β : Type} {Q : β → Driver → Prop} {p : Code α} {g : α → Code β}
    (hp : Leaves watch p) (h : ∀ a d', ThreadArms Q (g a) d') : ThreadArms Q (p >>= g) d :=
  safe_bind ((any_leaves hp).mono fun a d' _ _ => h a d')

/-- Interrupts are disabled. -/
def Disabled (d : Driver) : Prop := d.vars.mstatus = false

theorem stable_disabled : Stable timerThread Disabled := fun _ _ hr _ h => hr.mstatus.trans h

/-- Interrupts are disabled and the timer runs. -/
structure Armed (d : Driver) : Prop where
  mstatus : d.vars.mstatus = false
  enable : d.timer.enable = true
  count : d.timer.count ≤ d.timer.timerval

theorem stable_armed : Stable timerThread Armed := fun _ _ hr _ h =>
  ⟨hr.mstatus.trans h.mstatus, ((hr.disabled h.mstatus).2.enable).trans h.enable,
    (hr.disabled h.mstatus).2.count h.count⟩

theorem disabled_then {p : Code α} {g : α → Code Unit} {Q : Unit → Driver → Prop} (hd : Disabled d)
    (hp : Leaves watch p) (h : ∀ a d', Disabled d' → ThreadArms Q (g a) d') :
    ThreadArms Q (p >>= g) d := by
  refine safe_bind ((shared_leaves stable_disabled (fun d d' hw hd => ?_) hp hd).mono
    fun a d' _ hd' => h a d' hd')
  obtain ⟨-, h2, -⟩ := watch_eq hw
  exact h2.trans hd

theorem Armed.of_watch {d' : Driver} (h : Armed d) (hw : watch d' = watch d) : Armed d' := by
  obtain ⟨-, h2, h3⟩ := watch_eq hw
  exact ⟨h2.trans h.mstatus, by rw [h3]; exact h.enable, by rw [h3]; exact h.count⟩

/-- `econet_write` starts the timer before it begins the handshake. -/
theorem arms_setUpFrames (dest : EconetAddr) (ptr : BitVec 32) (bytes : List (BitVec 8)) :
    ThreadArms (fun _ d' => Armed d') (setUpFrames dest ptr bytes) d := by
  unfold setUpFrames
  refine safe_modify_stable (B := Disabled) stable_any trivial
    (fun _ hi _ _ => ⟨trivial, ⟨hi.state, hi.enable, fun hm => (nomatch hm)⟩, rfl⟩) fun d _ hd => ?_
  refine disabled_then hd (leaves_load _) fun address d hd => ?_
  refine disabled_then hd (leaves_modify fun _ => rfl) fun _ d hd => ?_
  refine disabled_then hd (leaves_modify fun _ => rfl) fun _ d hd => ?_
  refine disabled_then hd (leaves_modify fun _ => rfl) fun _ d hd => ?_
  refine disabled_then hd (leaves_modify fun _ => rfl) fun _ d hd => ?_
  refine disabled_then hd ((frame_copyTx _ _ _).comp fun v =>
    (v.1.1.handshakeState, v.1.1.mstatus, v.2)).leaves fun _ d hd => ?_
  refine disabled_then hd (leaves_modify fun _ => rfl) fun _ d hd => ?_
  refine disabled_then hd (leaves_modify fun _ => rfl) fun _ d hd => ?_
  refine safe_modify_stable (B := Disabled) stable_disabled hd
    (fun _ hi _ hd => ⟨trivial, ⟨hi.state, hi.enable, fun hm => ?_⟩, hd⟩) fun d _ hd => ?_
  · exact absurd (hd.symm.trans hm) (by decide)
  refine safe_modify_stable (B := Armed) stable_disabled hd
    (fun d hi _ hd => ⟨trivial, ⟨hi.state, fun _ => rfl, fun hm => ?_⟩, ⟨hd, rfl, ?_⟩⟩)
    fun d _ hd => ?_
  · exact absurd (hd.symm.trans hm) (by decide)
  · show 0#32 ≤ d.timer.timerval
    bv_omega
  -- the handshake begins with the timer running
  refine safe_modify_stable (B := Armed) stable_armed hd
    (fun d hi _ hd => ⟨trivial,
      ⟨by show 2#32 ≤ 3#32; decide, fun _ => hd.enable, fun _ _ => hd.count⟩,
      ⟨hd.mstatus, hd.enable, hd.count⟩⟩) fun d _ hd => ?_
  exact shared_leaves stable_armed (fun _ _ hw h => h.of_watch hw) (leaves_modify fun _ => rfl) hd

theorem arms_awaitHandshake (count : BitVec 32) (hd : Armed d) :
    ThreadArms (fun _ _ => True) (awaitHandshake count) d := by
  unfold awaitHandshake
  refine safe_modify_stable (B := fun _ => True) stable_armed hd
    (fun _ hi _ hd => ⟨trivial, ⟨hi.state, hi.enable, fun _ _ => hd.count⟩, trivial⟩)
    fun d _ _ => ?_
  apply any_leaves
  refine Prog.acts_bind (leaves_wait preserves_id) fun _ =>
    Prog.acts_bind (leaves_load _) fun _ => ?_
  split
  · exact leaves_pure _
  refine Prog.acts_bind (leaves_load _) fun _ => ?_
  split
  · exact leaves_pure _
  · exact leaves_pure _

theorem arms_econetWrite (fd : Fd) (ptr : BitVec 32) (bytes : List (BitVec 8)) :
    ThreadArms (fun _ _ => True) (econetWrite fd ptr bytes) d := by
  unfold econetWrite
  split
  · exact any_leaves (leaves_pure _)
  refine any_then (leaves_modify fun _ => rfl) fun _ d => ?_
  refine any_then (leaves_modify fun _ => rfl) fun _ d => ?_
  refine any_then (leaves_modify fun _ => rfl) fun _ d => ?_
  refine any_then (leaves_load _) fun dest d => ?_
  split
  · exact any_leaves (leaves_pure _)
  have hbegin : Preserves watch beginWrite := fun _ => rfl
  refine any_then (leaves_wait hbegin) fun _ d => ?_
  refine safe_bind ((arms_setUpFrames dest ptr bytes).mono fun _ d _ hd => ?_)
  refine safe_modify_stable (B := Armed) stable_armed hd
    (fun _ hi _ hd => ⟨trivial, hi.of_watch rfl, hd.of_watch rfl⟩) fun d _ hd => ?_
  exact arms_awaitHandshake _ hd

theorem arms_code (c : NetCall) : ThreadArms (fun _ _ => True) c.code d := by
  cases c with
  | io c =>
    cases c with
    | read fd ptr count =>
      exact any_leaves ((frame_econetRead fd ptr count).comp fun c =>
        (c.handshakeState, c.mstatus, c.timer)).leaves
    | peek fd => exact any_leaves (frame_econetPeek fd).leaves
    | write fd ptr bytes => exact arms_econetWrite fd ptr bytes
  | ioctl fd request dest =>
    exact any_leaves ((frame_econetIoctl fd request dest).comp Prod.fst).leaves
  | close fd => exact any_leaves ((frame_econetClose fd).comp fun v => v.1.1).leaves

end Thread

theorem watch_finish (a : Reply) (d : Driver) : watch (finish a d) = watch d := by
  cases a <;> rfl

/-! ### Runs -/

theorem net_timerVerified :
    Verified netKernel timerThread timerHandler MonitorCond AnyAccess AnyMove fun _ => True where
  env_thread i d hd _ :=
    ⟨timerShared_hw hd i, congrArg Vars.mstatus (hw_vars d i).1, fun _ =>
      ⟨congrArg Vars.handshakeState (hw_vars d i).1, hw_timer d i⟩⟩
  env_isr i d _ _ := ⟨trivial, (hw_vars d i).1, hw_timer d i⟩
  isr d hd hm := ⟨trivial, (arms_isrTrap hm hd).mono fun _ d' _ h =>
    ⟨h.shared, h.mstatus.trans (Eq.symm hm), fun h' => absurd (Eq.symm hm |>.trans h') (by decide)⟩⟩
  call c d _ _ := (arms_code c).mono fun a d' hi _ =>
    ⟨TimerShared.of_watch hi (watch_finish a d'), trivial⟩
  ready_rely _ _ _ _ _ := trivial

/-- The moves of the hardware leave what runs, and count the timer on. -/
theorem run_hw (y : System) (is : List Hw) :
    ∃ d : Driver, Machine.run (Interrupted.step netKernel) y (is.map .env) = ⟨d, y.thread, y.isr⟩ ∧
      d.vars = y.shared.vars ∧ d.timer = (Timer.tick^[is.count .tick]) y.shared.timer := by
  induction is generalizing y with
  | nil => exact ⟨y.shared, rfl, rfl, rfl⟩
  | cons i is ih =>
    obtain ⟨d, hrun, hvars, htimer⟩ := ih (Interrupted.step netKernel y (.env i))
    refine ⟨d, hrun, hvars.trans (hw_vars y.shared i).1, htimer.trans ?_⟩
    show (Timer.tick^[is.count .tick]) (y.shared.hw i).timer = _
    obtain ⟨c, hs⟩ := hw_eq y.shared i
    rw [hs]
    cases i with
    | tick => rw [List.count_cons_self, Function.iterate_succ_apply]; rfl
    | line level => rw [List.count_cons_of_ne (by simp)]; rfl
    | rise => rw [List.count_cons_of_ne (by simp)]; rfl
    | fall => rw [List.count_cons_of_ne (by simp)]; rfl

/-- Without a frame, the interrupt of the timer ends the handshake. -/
theorem isrTrap_timeout {d : Driver} (hvalid : d.frameValid = false)
    (htimer : d.timer.interrupt = true) :
    ∃ d', isrTrap.alone d = some ((), d') ∧ d'.vars.handshakeState = 0#32 := by
  unfold isrTrap load
  rw [Prog.alone_read, hvalid, if_neg Bool.false_ne_true, Prog.alone_read, if_pos htimer]
  exact ⟨_, rfl, rfl⟩

/-- The system comes to the end of its handshake by the timeout: timer A is enabled, and once it has
counted on for long enough, whatever the line does, it interrupts; unless a frame has arrived, the
handler then ends the handshake. -/
def TimesOut (y : System) : Prop :=
  y.shared.timer.enable = true ∧
    (y.shared.vars.mstatus = true → ∃ n, ∀ is : List Hw, n ≤ is.count .tick →
    ∃ y', Machine.run (Interrupted.step netKernel) y (is.map .env) = y' ∧
      y'.shared.timer.interrupt = true ∧ (y'.shared.frameValid = false → ∃ m,
        (Machine.run (Interrupted.step netKernel) y' (.interrupt :: List.replicate m .isr)).isr =
        none ∧ (Machine.run (Interrupted.step netKernel) y'
          (.interrupt :: List.replicate m .isr)).shared.vars.handshakeState = 0#32))

/-- A handshake in progress can time out, whenever the handler does not run. -/
def CanTimeOut (y : System) : Prop :=
  y.isr = none → y.shared.vars.handshakeState ≠ 0#32 → TimesOut y

theorem TimerShared.timesOut {y : System} (hisr : y.isr = none) (h : TimerShared y.shared)
    (hs : y.shared.vars.handshakeState ≠ 0#32) : TimesOut y := by
  refine ⟨h.enable hs, fun hm => ⟨y.shared.timer.timerval.toNat - y.shared.timer.count.toNat,
    fun is his => ?_⟩⟩
  -- the moves of the hardware do not stop the timer: only the code does
  obtain ⟨d, hrun, hvars, htimer⟩ := run_hw y is
  have hint : d.timer.interrupt = true := by
    rw [htimer]
    exact Timer.interrupt_tick _ _ (h.enable hs) (h.count hm hs) his
  refine ⟨_, hrun, hint, fun hvalid => ?_⟩
  obtain ⟨d', halone, hend⟩ := isrTrap_timeout hvalid hint
  obtain ⟨m, hm'⟩ := Interrupted.run_isr_alone netKernel y.thread halone
  have hen : d.vars.mstatus = true := by rw [hvars]; exact hm
  have hstep : Interrupted.step netKernel ⟨d, y.thread, y.isr⟩ .interrupt
      = ⟨d, y.thread, some isrTrap⟩ := by
    rw [hisr]
    show (if true && d.vars.mstatus then _ else _) = _
    rw [hen]
    rfl
  refine ⟨m, ?_⟩
  rw [Machine.run_cons, hstep, hm']
  exact ⟨rfl, hend⟩

/-- The condition on a step: the monitor branch of the handler is taken with no handshake in
progress. -/
def MonitorsIdle (y : System) (e : NetEvent) : Prop := y.Meets MonitorCond AnyMove e

instance (y : System) (e : NetEvent) : Decidable (MonitorsIdle y e) :=
  inferInstanceAs (Decidable (y.Meets MonitorCond AnyMove e))

theorem sound_timer_of_init {y : System} (hy : Init y) :
    Interrupted.Sound netKernel timerThread timerHandler MonitorCond AnyAccess
    (fun _ => True) y := by
  obtain ⟨d, t, i⟩ := y
  obtain rfl : t = none := hy.thread
  obtain rfl : i = none := hy.isr
  have hs : d.vars.handshakeState = 0#32 := hy.handshakeState
  refine ⟨⟨?_, fun h => absurd hs h, fun _ h => absurd hs h⟩, trivial⟩
  rw [hs]
  decide

/-- A scout for port `0x99` arrives and is acknowledged. -/
def scoutRun : List NetEvent := (fromPeer [0x80#8, 0x99#8] ++ handled).map Event.net

/-- A handshake is in progress with the timer stopped. -/
structure Stuck (y : System) : Prop where
  isr : y.isr.isNone = true
  state : y.shared.vars.handshakeState ≠ 0#32
  timer : y.shared.timer.enable = false

instance (y : System) : Decidable (Stuck y) :=
  decidable_of_iff (y.isr.isNone = true ∧ y.shared.vars.handshakeState ≠ 0#32 ∧
    y.shared.timer.enable = false) ⟨fun ⟨h1, h2, h3⟩ => ⟨h1, h2, h3⟩, fun h => ⟨h.1, h.2, h.3⟩⟩

theorem Stuck.not_canTimeOut {y : System} (h : Stuck y) : ¬CanTimeOut y := by
  intro hcan
  have hout := hcan (Option.isNone_iff_eq_none.mp h.isr) h.state
  exact Bool.false_ne_true (h.timer.symm.trans hout.1)

/-- A program turns the monitor mode on between the scout and the next frame. -/
def monitoredRun : List NetEvent :=
  scoutRun ++ controlled 3 0x04000001#32 ⟨0#8, 0#8, 0#8⟩ 6 ++
    (fromPeer [1#8, 2#8] ++ handled).map Event.net

end Filestick.RawEconet
