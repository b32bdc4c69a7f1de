import Filestick.Rtl.Equiv.EconetTx

/-!
# Handing a request over to `econet_tx`

`econet_tx_buffered` tells `econet_tx` to start with a pulse of one clock on `start_frame`, and then
waits for it to ask for bytes.  `econet_tx` looks at the pulse in its idle state only, and a new
request is accepted while it still sends the closing flag of the last frame.

* `transmitter_not_wedged`: when no pulse falls into a closing flag, the two never wait for each
  other.
* `lostStart_wedges`: when one does, they do, as soon as the flag is sent.
-/

namespace Filestick

namespace EconetTxBuffered

/-- What can happen to the transmitter, edge by edge. -/
inductive Edge where
  | negedge (receiving : Bool)
  | posedge
  | receivingEdge
  | writeBuf (sysAddr : BitVec 10) (sysWe : BitVec 4) (sysWdata : BitVec 32)
  | writeStart (sysWdata : BitVec 32)
  | writeEnd (sysWdata : BitVec 32)
  | writeControl (sysWdata : BitVec 32)
  | reset

/-- The state after an edge or a store. -/
def stepEdge (s : EconetTxBuffered) : Edge → EconetTxBuffered
  | .negedge receiving => s.negedge receiving
  | .posedge => s.posedge
  | .receivingEdge => s.receivingEdge
  | .writeBuf sysAddr sysWe sysWdata => s.writeBuf sysAddr sysWe sysWdata
  | .writeStart sysWdata => s.writeStart sysWdata
  | .writeEnd sysWdata => s.writeEnd sysWdata
  | .writeControl sysWdata => s.writeControl sysWdata
  | .reset => s.reset

/-- `STATE_TX`, `STATE_FCS_1`, `STATE_FCS_2` or `STATE_TX_END`. -/
def feeding (s : EconetTxBuffered) : Bool :=
  match s.state with
  | .tx | .fcs1 | .fcs2 | .txEnd => true
  | .idle | .rxwait | .txStart => false

/-- `econet_tx_buffered` waits for `econet_tx`, which waits for `start_frame`. -/
def Wedged (s : EconetTxBuffered) : Prop :=
  s.feeding = true ∧ s.transmitter.state = .idle ∧ s.startFrame = false

/-- On a falling edge, `start_frame` is not high while `econet_tx` sends a closing flag. -/
def StartSeen (s : EconetTxBuffered) : Edge → Prop
  | .negedge _ => s.startFrame = true → s.transmitter.state ≠ .endSync
  | _ => True

instance (s : EconetTxBuffered) : ∀ e, Decidable (StartSeen s e)
  | .negedge _ => inferInstanceAs (Decidable (s.startFrame = true → s.transmitter.state ≠ .endSync))
  | .posedge | .receivingEdge | .writeBuf _ _ _ | .writeStart _ | .writeEnd _ | .writeControl _
  | .reset => isTrue trivial

instance (s : EconetTxBuffered) : Decidable (Wedged s) :=
  inferInstanceAs (Decidable (_ ∧ _ ∧ _))

end EconetTxBuffered

open EconetTxBuffered

/-- How the two state machines go together while every pulse is seen. -/
structure InStep (s : EconetTxBuffered) : Prop where
  startFrame : s.startFrame = true → s.state = .tx
  endFrame : s.endFrame = true → s.state = .txEnd ∨ s.state = .idle
  sending : s.feeding = true → s.startFrame = false →
    s.transmitter.state = .startSync ∨ s.transmitter.state = .transmit

namespace InStep

variable {s : EconetTxBuffered}

theorem not_wedged (h : InStep s) : ¬Wedged s := by
  rintro ⟨hfeed, hidle, hstart⟩
  rcases h.sending hfeed hstart with hs | hs
  · exact absurd (hidle.symm.trans hs) (by decide)
  · exact absurd (hidle.symm.trans hs) (by decide)

theorem reset (s : EconetTxBuffered) : InStep s.reset :=
  ⟨fun h => Bool.noConfusion h, fun h => Bool.noConfusion h, fun h => Bool.noConfusion h⟩

/-- The opening flag is followed by data. -/
theorem step_startSync {p : TxPhy} (hp : p.state = .startSync) (b : BitVec 8) (start fin : Bool) :
    (p.step b start fin).state = .startSync ∨ (p.step b start fin).state = .transmit := by
  simp only [TxPhy.step, hp, TxPhy.stepFlag]
  split_ifs <;> simp

/-- The pulse is seen unless a closing flag is being sent. -/
theorem step_started {p : TxPhy} (hp : p.state = .idle) (b : BitVec 8) (fin : Bool) :
    (p.step b true fin).state = .startSync := by
  simp [TxPhy.step, hp, TxPhy.stepIdle]

/-- Data is followed by a closing flag when a byte is complete and `end_frame` is high. -/
theorem step_transmit {p : TxPhy} (hp : p.state = .transmit) (b : BitVec 8) (start fin : Bool) :
    (p.step b start fin).state = .transmit ∨ p.requestByte = true ∧ fin = true := by
  simp only [TxPhy.step, hp, TxPhy.stepTransmit, TxPhy.requestByte]
  split_ifs <;> simp_all

/-- While bytes are asked for, only the end of the frame ends the sending. -/
theorem step_sending {p : TxPhy} (hp : p.state = .startSync ∨ p.state = .transmit) (b : BitVec 8)
    (start fin : Bool) :
    ((p.step b start fin).state = .startSync ∨ (p.step b start fin).state = .transmit) ∨
      p.requestByte = true ∧ fin = true := by
  rcases hp with hp | hp
  · exact Or.inl (step_startSync hp b start fin)
  · rcases step_transmit hp b start fin with h | h
    · exact Or.inl (Or.inr h)
    · exact Or.inr h

theorem negedge (h : InStep s) (r : Bool) (hseen : StartSeen s (.negedge r)) :
    InStep (s.negedge r) := by
  have hstate : (s.negedge r).state = (s.stepState r).state := rfl
  have hstart : (s.negedge r).startFrame = (s.stepState r).startFrame := rfl
  have hend : (s.negedge r).endFrame = (s.stepState r).endFrame := rfl
  have hphy : (s.negedge r).transmitter = s.transmitter.step s.txByte s.startFrame s.endFrame := rfl
  have hno : s.state ≠ .tx → s.startFrame = false := fun hne => by
    by_contra hst
    exact hne (h.startFrame (by simpa using hst))
  have hne : s.state ≠ .txEnd → s.state ≠ .idle → s.endFrame = false := fun h1 h2 => by
    by_contra hfin
    rcases h.endFrame (by simpa using hfin) with h' | h'
    · exact h1 h'
    · exact h2 h'
  refine ⟨?_, ?_, ?_⟩
  · rw [hstart, hstate, stepState]
    have := h.startFrame
    split <;> simp_all
  · rw [hend, hstate, stepState]
    have := h.endFrame
    split <;> simp_all
  · rw [feeding, hstart, hstate, hphy]
    intro hfeed hst
    -- outside `STATE_TX_END` the frame does not end
    have hgoes : s.endFrame = false →
      s.transmitter.state = .startSync ∨ s.transmitter.state = .transmit →
        (s.transmitter.step s.txByte s.startFrame s.endFrame).state = .startSync ∨
          (s.transmitter.step s.txByte s.startFrame s.endFrame).state = .transmit :=
          fun hfin hp => by
      rcases step_sending hp s.txByte s.startFrame s.endFrame with h' | ⟨-, h'⟩
      · exact h'
      · exact absurd (hfin.symm.trans h') (by decide)
    have hsend := h.sending
    rw [feeding] at hsend
    cases hs : s.state with
    | idle =>
      rw [stepState, hs] at hfeed
      dsimp only at hfeed
      split_ifs at hfeed
    | rxwait =>
      rw [stepState, hs] at hfeed
      dsimp only at hfeed
      split_ifs at hfeed
    | txStart =>
      rw [stepState, hs] at hst
      exact Bool.noConfusion hst
    | tx =>
      have hfin := hne (by rw [hs]; decide) (by rw [hs]; decide)
      cases hpulse : s.startFrame with
      | false =>
        rw [hs] at hsend
        rw [← hpulse]
        exact hgoes hfin (hsend rfl hpulse)
      | true =>
        cases hp : s.transmitter.state with
        | idle => exact Or.inl (step_started hp _ _)
        | startSync => exact step_startSync hp _ _ _
        | transmit =>
          rw [← hpulse]
          exact hgoes hfin (Or.inr hp)
        | endSync => exact absurd hp (hseen hpulse)
    | fcs1 =>
      rw [hs] at hsend
      exact hgoes (hne (by rw [hs]; decide) (by rw [hs]; decide))
        (hsend rfl (hno (by rw [hs]; decide)))
    | fcs2 =>
      rw [hs] at hsend
      exact hgoes (hne (by rw [hs]; decide) (by rw [hs]; decide))
        (hsend rfl (hno (by rw [hs]; decide)))
    | txEnd =>
      rw [hs] at hsend
      have hp := hsend rfl (hno (by rw [hs]; decide))
      rcases step_sending hp s.txByte s.startFrame s.endFrame with h' | ⟨hreq, -⟩
      · exact h'
      · -- the closing flag starts on the edge on which the state machine goes idle
        rw [stepState, hs] at hfeed
        simp only [hreq, if_true] at hfeed
        exact absurd hfeed (by decide)

theorem stepEdge (h : InStep s) (e : Edge) (hseen : StartSeen s e) : InStep (s.stepEdge e) := by
  cases e with
  | negedge r => exact h.negedge r hseen
  | reset => exact InStep.reset s
  | posedge => exact ⟨h.startFrame, h.endFrame, h.sending⟩
  | receivingEdge => exact ⟨h.startFrame, h.endFrame, h.sending⟩
  | writeBuf a we d => exact ⟨h.startFrame, h.endFrame, h.sending⟩
  | writeStart d => exact ⟨h.startFrame, h.endFrame, h.sending⟩
  | writeEnd d => exact ⟨h.startFrame, h.endFrame, h.sending⟩
  | writeControl d => exact ⟨h.startFrame, h.endFrame, h.sending⟩

end InStep

/-- **The transmitter does not wedge**, for every timing of the stores and every behaviour of
`receiving` after a reset, as long as `start_frame` is not raised while `econet_tx` sends a closing
flag. -/
theorem transmitter_not_wedged (s : EconetTxBuffered) (es : List Edge)
    (hes : Machine.StepsMeet stepEdge StartSeen s.reset es) :
    ¬Wedged (Machine.run stepEdge s.reset es) := by
  have h := Machine.run_invariant (I := InStep) (fun _ e h hseen => h.stepEdge e hseen) es s.reset
    (InStep.reset s) hes
  exact h.not_wedged

/-- A clock of the closing flag, with a request handed over: `econet_tx` asks for no byte. -/
theorem closing_period {s : EconetTxBuffered} (hstate : s.state = .tx)
    (hphy : s.transmitter.state = .endSync) (r : Bool) :
    (s.period r).state = .tx ∧ (s.period r).startFrame = false ∧
      (s.period r).transmitter.bitcount = s.transmitter.bitcount + 1#3 ∧
      (s.period r).transmitter.state =
        if s.transmitter.bitcount = 7#3 then .idle else .endSync := by
  have hst : (s.period r).state = (s.stepState r).state := rfl
  have hstart : (s.period r).startFrame = (s.stepState r).startFrame := rfl
  have htr : (s.period r).transmitter = s.transmitter.step s.txByte s.startFrame s.endFrame := rfl
  have hreq : s.transmitter.requestByte = false := by simp [TxPhy.requestByte, hphy]
  refine ⟨?_, ?_, ?_, ?_⟩
  · rw [hst, stepState, hstate]
    simp [hreq]
  · rw [hstart, stepState, hstate]
  · rw [htr]
    simp [TxPhy.step, hphy, TxPhy.stepFlag]
  · rw [htr]
    simp only [TxPhy.step, hphy, TxPhy.stepFlag]
    split_ifs <;> simp_all
    bv_omega

/-- **A pulse that falls into a closing flag is lost**: once the flag is sent the transmitter is
wedged. -/
theorem lostStart_wedges {s : EconetTxBuffered} (hstate : s.state = .tx)
    (hphy : s.transmitter.state = .endSync) (r : ℕ → Bool) :
    Wedged (s.after r (8 - s.transmitter.bitcount.toNat)) := by
  have hclosing : ∀ n, s.transmitter.bitcount.toNat + n < 8 →
      (s.after r n).state = .tx ∧ (s.after r n).transmitter.state = .endSync ∧
        (s.after r n).transmitter.bitcount.toNat = s.transmitter.bitcount.toNat + n := by
    intro n
    induction n with
    | zero => exact fun _ => ⟨hstate, hphy, rfl⟩
    | succ n ih =>
      intro hn
      obtain ⟨h1, h2, h3⟩ := ih (by omega)
      obtain ⟨hs, -, hb, hp⟩ := closing_period h1 h2 (r n)
      have hseven : (s.after r n).transmitter.bitcount ≠ 7#3 := by
        intro h7
        rw [h7] at h3
        simp at h3
        omega
      rw [if_neg hseven] at hp
      refine ⟨hs, hp, ?_⟩
      rw [show s.after r (n + 1) = (s.after r n).period (r n) from rfl, hb, BitVec.toNat_add, h3]
      simp
      omega
  have hlt := s.transmitter.bitcount.isLt
  obtain ⟨h1, h2, h3⟩ := hclosing (7 - s.transmitter.bitcount.toNat) (by omega)
  obtain ⟨hs, hstart, -, hp⟩ := closing_period h1 h2 (r (7 - s.transmitter.bitcount.toNat))
  rw [if_pos (BitVec.eq_of_toNat_eq (by rw [h3]; simp; omega))] at hp
  rw [show 8 - s.transmitter.bitcount.toNat = (7 - s.transmitter.bitcount.toNat) + 1 by omega]
  refine ⟨?_, hp, hstart⟩
  show feeding (period _ _) = true
  rw [feeding, hs]

/-- A transmitter with everything cleared. -/
def clearedTransmitter : EconetTxBuffered :=
  ⟨fun _ => 0#32, 0#32, 0#4, false, 0#11, 0#11, 0#11, .idle, false, false, false,
    ⟨.idle, 0#8, 0#3, 0#3, true, false⟩, 0#16⟩

/-- A reply of one byte, and another one after `n` clocks. -/
def twoReplies (n : ℕ) : List Edge :=
  [.writeControl 1#32, .writeEnd 0#32] ++ (List.replicate n [.negedge false, .posedge]).flatten ++
    [.writeEnd 0#32] ++ (List.replicate 20 [.negedge false, .posedge]).flatten

/-- The first reply takes 43 clocks. -/
theorem twoReplies_not_wedged :
    ¬Wedged (Machine.run stepEdge clearedTransmitter.reset (twoReplies 50)) :=
  transmitter_not_wedged clearedTransmitter (twoReplies 50) (by decide +kernel)

/-- The second reply is requested while the first one is closed. -/
theorem twoReplies_wedged :
    Wedged (Machine.run stepEdge clearedTransmitter.reset (twoReplies 38)) := by
  decide +kernel

end Filestick
