import Filestick.System.EconetFd
import Filestick.System.Equiv.EconetFrames
import Filestick.System.Equiv.Flashdisc

/-!
# The ports of the Econet driver

`econet_port_list` has the descriptor of each port, with its ready flag, and `fd_rx_portmap` the
port of each descriptor.  A descriptor that is bound twice, a port that is bound twice, or a
descriptor that is closed between a scout and its data bring the two apart.

* `portTable_run`: in every run without these, the two tables agree whenever no call is in progress.
-/

namespace Filestick.RawEconet

open Driver

/-! ### The tables -/

/-- The descriptor is one of `/dev/econet` that is open. -/
abbrev IsEconet (s : FdTable.Sys) (fd : Fd) : Prop := FdTable.sysDevice s fd = some .econet

/-- An open descriptor that is bound to the port. -/
def Bound (z : FdState) (fd : Fd) (port : BitVec 8) : Prop :=
  IsEconet z.2 fd ∧ z.1.vars.fdRxPortmap fd = port

/-- The low seven bits of the entry of a port. -/
def lowBits (entry : BitVec 8) : ℕ := (entry.extractLsb' 0 7).toNat

/-- The two tables agree: the low bits of the entry of a port are the descriptor that is bound to
it, and an entry is 0 when there is none, so that scouts are acknowledged for bound ports only. -/
structure PortTable (z : FdState) : Prop where
  entry : ∀ port, port ≠ 0#8 → ∀ n, lowBits (z.1.vars.portList port) = n ∧ n ≠ 0 ↔
    ∃ fd : Fd, fd.val = n ∧ Bound z fd port
  free : ∀ port, port ≠ 0#8 → (∀ fd, ¬Bound z fd port) → z.1.vars.portList port = 0#8
  listens : ∀ port, port ≠ 0#8 → (z.1.vars.portList port ≠ 0#8 ↔ ∃ fd, Bound z fd port)

theorem lowBits_ready (entry : BitVec 8) : lowBits (entry ||| 0x80#8) = lowBits entry := by
  revert entry
  decide

theorem lowBits_ofNat (fd : Fd) : lowBits (BitVec.ofNat 8 fd.val) = fd.val := by
  revert fd
  decide

theorem lowBits_zero : lowBits 0#8 = 0 := rfl

/-- The entry of one port: no descriptor is bound to it, or one is. -/
def EntryOk (d : Driver) (port : BitVec 8) : Prop :=
  (d.vars.portList port = 0#8 ∧ ∀ fd, d.vars.fdRxPortmap fd ≠ port) ∨
    ∃ fd : Fd, d.vars.fdRxPortmap fd = port ∧ (∀ fd', d.vars.fdRxPortmap fd' = port → fd' = fd) ∧
      lowBits (d.vars.portList port) = fd.val

/-- Only open descriptors of `/dev/econet` are bound. -/
def BoundOpen (z : FdState) : Prop := ∀ fd, z.1.vars.fdRxPortmap fd ≠ 0#8 → IsEconet z.2 fd

/-- What holds between two calls. -/
structure PortInv (z : FdState) : Prop where
  entry : ∀ port, port ≠ 0#8 → EntryOk z.1 port
  bound : BoundOpen z
  table : FdTable.Consistent z.2

/-- An Econet descriptor is none of the first three. -/
theorem three_le_of_econet {s : FdTable.Sys} (hs : FdTable.Consistent s) {fd : Fd}
    (h : IsEconet s fd) :
    3 ≤ fd.val := by
  by_contra hlt
  obtain ⟨hflags, hf⟩ := hs.console fd (by omega)
  unfold IsEconet FdTable.sysDevice at h
  rw [if_pos hflags, hf] at h
  exact absurd h (by decide)

theorem PortInv.portTable {z : FdState} (h : PortInv z) : PortTable z := by
  have hbound : ∀ {fd : Fd} {port : BitVec 8}, port ≠ 0#8 → z.1.vars.fdRxPortmap fd = port →
      Bound z fd port := fun hp hfd => ⟨h.bound _ (hfd ▸ hp), hfd⟩
  have hentry : ∀ port, port ≠ 0#8 → ∀ n, lowBits (z.1.vars.portList port) = n ∧ n ≠ 0 ↔
      ∃ fd : Fd, fd.val = n ∧ Bound z fd port := by
    intro port hp n
    obtain ⟨hzero, hnone⟩ | ⟨fd, hfd, huniq, hlow⟩ := h.entry port hp
    · constructor
      · rintro ⟨rfl, hn⟩
        rw [hzero] at hn
        exact absurd lowBits_zero hn
      · rintro ⟨fd, -, hb⟩
        exact absurd hb.2 (hnone fd)
    · constructor
      · rintro ⟨rfl, -⟩
        exact ⟨fd, hlow.symm, hbound hp hfd⟩
      · rintro ⟨fd', rfl, hb⟩
        obtain rfl := huniq fd' hb.2
        have h3 := three_le_of_econet h.table hb.1
        exact ⟨hlow, by omega⟩
  have hfree : ∀ port, port ≠ 0#8 → (∀ fd, ¬Bound z fd port) → z.1.vars.portList port = 0#8 := by
    intro port hp hnone
    obtain ⟨hzero, -⟩ | ⟨fd, hfd, -, -⟩ := h.entry port hp
    · exact hzero
    · exact absurd (hbound hp hfd) (hnone fd)
  refine ⟨hentry, hfree, fun port hp => ⟨fun hne => ?_, ?_⟩⟩
  · by_contra hnone
    exact hne (hfree port hp fun fd hb => hnone ⟨fd, hb⟩)
  · rintro ⟨fd, hb⟩ hzero
    obtain ⟨hlow, hn⟩ := (hentry port hp fd.val).mpr ⟨fd, rfl, hb⟩
    rw [hzero, lowBits_zero] at hlow
    exact hn hlow.symm

/-! ### The contracts -/

/-- What the thread relies on: the handler sets ready flags, of entries that are in use. -/
structure PortRely (z z' : FdState) : Prop where
  table : z'.2 = z.2
  portmap : z'.1.vars.fdRxPortmap = z.1.vars.fdRxPortmap
  entry : ∀ port, z'.1.vars.portList port = z.1.vars.portList port ∨
    (z'.1.vars.portList port = z.1.vars.portList port ||| 0x80#8 ∧
      (port ≠ 0#8 → z.1.vars.portList port ≠ 0#8))

theorem PortRely.refl (z : FdState) : PortRely z z := ⟨rfl, rfl, fun _ => Or.inl rfl⟩

theorem PortRely.trans {z z' z'' : FdState} (h : PortRely z z') (h' : PortRely z' z'') :
    PortRely z z'' := by
  refine ⟨h'.table.trans h.table, h'.portmap.trans h.portmap, fun port => ?_⟩
  obtain he | ⟨he, hne⟩ := h.entry port
  · rw [← he]
    exact h'.entry port
  · right
    refine ⟨?_, hne⟩
    obtain he' | ⟨he', -⟩ := h'.entry port
    · exact he'.trans he
    · rw [he', he, BitVec.or_assoc, BitVec.or_self]

/-- The contract of the thread. -/
def portThread : Contract FdState where
  inv _ := True
  rely := PortRely
  refl := PortRely.refl
  trans := PortRely.trans

/-- The contract of the handler. -/
def portHandler : Contract FdState where
  inv _ := True
  rely z z' := z'.1.vars = z.1.vars ∧ z'.2 = z.2
  refl _ := ⟨rfl, rfl⟩
  trans h h' := ⟨h'.1.trans h.1, h'.2.trans h.2⟩

/-- The conditions on accesses: a descriptor that is bound is not bound to another port, nor is
another descriptor bound to the port; and the port that is marked as ready is still bound. -/
def PortCond : Access → FdState → Prop
  | .bind fd port, z =>
    (z.1.vars.fdRxPortmap fd = 0#8 ∨ z.1.vars.fdRxPortmap fd = port) ∧
      (port ≠ 0#8 → ∀ fd', z.1.vars.fdRxPortmap fd' = port → fd' = fd)
  | .ready, z => z.1.vars.pendingPort.setWidth 8 ≠ 0#8 →
      z.1.vars.portList (z.1.vars.pendingPort.setWidth 8) ≠ 0#8
  | _, _ => True

/-- Nothing is asked of the hardware. -/
def AnyFdMove (_ : Bool) (_ : Hw) (_ : FdState) : Prop := True

/-- Nothing is shown of single accesses. -/
def AnyFdAccess (_ : Access) (_ : FdState) : Prop := True

theorem portRely_of_part {z : FdState} {d : Driver} (h : portPart d = portPart z.1) :
    PortRely z (d, z.2) := by
  obtain ⟨h1, h2⟩ := Prod.mk.inj h
  exact ⟨rfl, h2, fun port => Or.inl (congrFun h1 port)⟩

theorem portRely_of_vars {z z' : FdState} (h : z'.1.vars = z.1.vars ∧ z'.2 = z.2) : PortRely z z' :=
  ⟨h.2, congrArg Vars.fdRxPortmap h.1, fun port => Or.inl (congrArg (fun v => v.portList port) h.1)⟩

/-! ### The handler -/

section Handler

variable {α : Type} {z₀ z : FdState}

/-- What is shown of a piece of the handler. -/
abbrev HandlerPorts (z₀ : FdState) (p : Code Unit) (z : FdState) : Prop :=
  Safe portHandler PortCond AnyFdAccess (fun _ z' => True ∧ PortRely z₀ z') (onDriver id p) z

theorem stable_portRely : Stable portHandler (PortRely z₀) := fun _ _ hr _ h =>
  h.trans (portRely_of_vars hr)

/-- Code that leaves the tables. -/
theorem portRely_leaves {p : Code α} (hp : Leaves portPart p) (hz : PortRely z₀ z) {r : α → α} :
    Safe portHandler PortCond AnyFdAccess (fun _ z' => PortRely z₀ z') (onDriver r p) z := by
  refine safe_of_acts stable_portRely
    (Prog.acts_observe (fun _ _ _ _ _ hz => ⟨trivial, trivial, hz⟩) ?_ hp) hz
  intro l f hf z _ _ hz
  exact ⟨trivial, trivial, hz.trans (portRely_of_part (hf z.1))⟩

theorem handler_leaves {p : Code Unit} (hp : Leaves portPart p) (hz : PortRely z₀ z) :
    HandlerPorts z₀ p z :=
  (portRely_leaves hp hz).mono fun _ _ _ h => ⟨trivial, h⟩

theorem handler_then {p : Code α} {q : α → Code Unit} (hz : PortRely z₀ z) (hp : Leaves portPart p)
    (h : ∀ a z', PortRely z₀ z' → HandlerPorts z₀ (q a) z') : HandlerPorts z₀ (p >>= q) z :=
  safe_observe_bind ((portRely_leaves hp hz).mono fun a z' _ hz' => h a z' hz')

theorem StoresBy.leavesPorts {L : Access → Prop} {p : Code α} (hp : p.Acts (StoresBy L)) :
    Leaves portPart p :=
  hp.mono fun _ _ h => h.2

/-- The ready flag of an entry that is in use. -/
theorem portRely_ready {d : Driver} (port : BitVec 8)
    (hlist : d.vars.portList =
      Function.update z.1.vars.portList port (z.1.vars.portList port ||| 0x80#8))
    (hmap : d.vars.fdRxPortmap = z.1.vars.fdRxPortmap)
    (hne : port ≠ 0#8 → z.1.vars.portList port ≠ 0#8) : PortRely z (d, z.2) := by
  refine ⟨rfl, hmap, fun port' => ?_⟩
  by_cases hp : port' = port
  · subst hp
    right
    refine ⟨?_, hne⟩
    show d.vars.portList port' = _
    rw [hlist, Function.update_self]
  · left
    show d.vars.portList port' = _
    rw [hlist, Function.update_of_ne hp]

/-- The handler sets the ready flag of the pending port. -/
theorem dataAck_ports (hz : PortRely z₀ z) : HandlerPorts z₀ dataAck z := by
  unfold dataAck
  refine safe_observe_read fun z₁ hr _ _ => ⟨trivial, trivial, ?_⟩
  have hz := stable_portRely z z₁ hr trivial hz
  refine safe_observe_read fun z₂ hr₂ _ _ => ⟨trivial, trivial, ?_⟩
  have hz := stable_portRely z₁ z₂ hr₂ trivial hz
  refine safe_observe_modify fun z₃ hr₃ _ hc => ⟨trivial, trivial, ?_⟩
  have hz := stable_portRely z₂ z₃ hr₃ trivial hz
  -- no variable has changed since the two reads
  have hport : z₁.1.vars.pendingPort = z₃.1.vars.pendingPort := by rw [hr₃.1, hr₂.1]
  have hfd : z₂.1.vars.portList = z₃.1.vars.portList := by rw [hr₃.1]
  refine handler_leaves ?_ (hz.trans (portRely_ready (z₁.1.vars.pendingPort.setWidth 8) ?_ rfl ?_))
  rotate_left
  · rw [← hfd]
    rfl
  · rw [hport]
    exact hc
  refine Prog.acts_bind (leaves_modify fun _ => rfl) fun _ =>
    Prog.acts_bind (leaves_load _) fun start => ?_
  refine Prog.acts_bind (leaves_modify fun _ => rfl) fun _ =>
    Prog.acts_bind (leaves_load _) fun len => ?_
  exact Prog.acts_bind (leaves_modify fun _ => rfl) fun _ =>
    StoresBy.leavesPorts (stores_econetAck (L := Labelled))

/-- **The handler** only sets ready flags. -/
theorem isrTrap_ports : HandlerPorts z isrTrap z := by
  unfold isrTrap
  refine handler_then (PortRely.refl z) (leaves_load _) fun valid z' hz => ?_
  split
  · unfold econetRx
    refine handler_then hz (leaves_modify fun _ => rfl) fun _ z' hz => ?_
    refine handler_then hz (leaves_modify fun _ => rfl) fun _ z' hz => ?_
    refine handler_then hz (leaves_load _) fun monitor z' hz => ?_
    split
    · exact handler_leaves (StoresBy.leavesPorts stores_rxMonitor) hz
    refine handler_then hz (leaves_load _) fun state z' hz => ?_
    split_ifs
    · exact handler_leaves (StoresBy.leavesPorts stores_scoutAck) hz
    · exact dataAck_ports hz
    · exact handler_leaves (StoresBy.leavesPorts stores_rxScoutAck) hz
    · exact handler_leaves (StoresBy.leavesPorts stores_rxDataAck) hz
    · exact handler_leaves (leaves_pure ()) hz
  refine handler_then hz (leaves_load _) fun timeout z' hz => ?_
  split
  · exact handler_leaves (StoresBy.leavesPorts stores_econetTimeout) hz
  · exact handler_leaves (leaves_pure ()) hz

end Handler

/-! ### The thread -/

section Thread

variable {α β : Type} {z z' : FdState} {fd : Fd} {port : BitVec 8}

theorem EntryOk.rely (hp : port ≠ 0#8) (h : EntryOk z.1 port) (hr : PortRely z z') :
    EntryOk z'.1 port := by
  obtain ⟨hzero, hnone⟩ | ⟨fd, hfd, huniq, hlow⟩ := h
  · left
    refine ⟨?_, fun fd => by rw [hr.portmap]; exact hnone fd⟩
    obtain he | ⟨-, hne⟩ := hr.entry port
    · exact he.trans hzero
    · exact absurd hzero (hne hp)
  · right
    refine ⟨fd, by rw [hr.portmap]; exact hfd, fun fd' => by rw [hr.portmap]; exact huniq fd', ?_⟩
    obtain he | ⟨he, -⟩ := hr.entry port
    · rw [he]; exact hlow
    · rw [he, lowBits_ready]; exact hlow

theorem BoundOpen.rely (h : BoundOpen z) (hr : PortRely z z') : BoundOpen z' := fun fd hfd => by
  rw [hr.table]
  rw [hr.portmap] at hfd
  exact h fd hfd

theorem stable_portInv : Stable portThread PortInv := fun z z' hr _ h =>
  ⟨fun port hp => (h.entry port hp).rely hp hr, h.bound.rely hr, by rw [hr.table]; exact h.table⟩

/-- The invariant, and the port of a descriptor. -/
structure BoundTo (fd : Fd) (port : BitVec 8) (z : FdState) : Prop where
  inv : PortInv z
  portmap : z.1.vars.fdRxPortmap fd = port

theorem stable_boundTo : Stable portThread (BoundTo fd port) := fun z z' hr hi h =>
  ⟨stable_portInv z z' hr hi h.inv, by rw [hr.portmap]; exact h.portmap⟩

/-- The invariant, but for the entry of the port of a descriptor, which is the only one with that
port. -/
structure Binding (fd : Fd) (port : BitVec 8) (z : FdState) : Prop where
  entry : ∀ p, p ≠ 0#8 → p ≠ port → EntryOk z.1 p
  bound : BoundOpen z
  table : FdTable.Consistent z.2
  portmap : z.1.vars.fdRxPortmap fd = port
  unique : port ≠ 0#8 → ∀ fd', z.1.vars.fdRxPortmap fd' = port → fd' = fd

theorem stable_binding : Stable portThread (Binding fd port) := fun z z' hr _ h => by
  refine ⟨fun p hp hne => (h.entry p hp hne).rely hp hr, h.bound.rely hr, ?_, ?_, ?_⟩
  · rw [hr.table]; exact h.table
  · rw [hr.portmap]; exact h.portmap
  · rw [hr.portmap]; exact h.unique

/-- `econet_close` has cleared the entry. -/
structure Closing (fd : Fd) (port : BitVec 8) (z : FdState) : Prop where
  ne : port ≠ 0#8
  binding : Binding fd port z
  free : z.1.vars.portList port = 0#8

theorem stable_closing : Stable portThread (Closing fd port) := fun z z' hr hi h => by
  refine ⟨h.ne, stable_binding z z' hr hi h.binding, ?_⟩
  obtain he | ⟨-, hne⟩ := hr.entry port
  · exact he.trans h.free
  · exact absurd h.free (hne h.ne)

/-- An entry that is not stored to, of a port that the same descriptors are bound to. -/
theorem EntryOk.congr {d d' : Driver} {p : BitVec 8} (h : EntryOk d p)
    (hlist : d'.vars.portList p = d.vars.portList p)
    (hmap : ∀ fd, d'.vars.fdRxPortmap fd = p ↔ d.vars.fdRxPortmap fd = p) : EntryOk d' p := by
  unfold EntryOk at h ⊢
  simp only [ne_eq, hmap, hlist]
  exact h

/-- A store to one entry leaves the others. -/
theorem EntryOk.of_update {d d' : Driver} {p port : BitVec 8} {e : BitVec 8} (h : EntryOk d p)
    (hne : p ≠ port) (hlist : d'.vars.portList = Function.update d.vars.portList port e)
    (hmap : d'.vars.fdRxPortmap = d.vars.fdRxPortmap) : EntryOk d' p :=
  h.congr (by rw [hlist, Function.update_of_ne hne]) fun fd => by rw [hmap]

/-- A descriptor that changes its port leaves those that are bound to another one. -/
theorem bound_update {m : Fd → BitVec 8} {fd : Fd} {p q : BitVec 8} (hold : m fd ≠ p) (hnew : q ≠ p)
    (fd' : Fd) :
    Function.update m fd q fd' = p ↔ m fd' = p := by
  by_cases hf : fd' = fd
  · subst hf
    rw [Function.update_self]
    exact iff_of_false hnew hold
  · rw [Function.update_of_ne hf]

/-- The entry of the port is stored. -/
theorem Binding.portInv (h : Binding fd port z) {d : Driver}
    (hlist : d.vars.portList = Function.update z.1.vars.portList port (BitVec.ofNat 8 fd.val))
    (hmap : d.vars.fdRxPortmap = z.1.vars.fdRxPortmap) : PortInv (d, z.2) := by
  refine ⟨fun p hp => ?_, fun fd' hfd' => h.bound fd' (by rw [← hmap]; exact hfd'), h.table⟩
  by_cases hpp : p = port
  · subst hpp
    right
    refine ⟨fd, ?_, ?_, ?_⟩
    · rw [hmap]; exact h.portmap
    · rw [hmap]; exact h.unique hp
    · rw [hlist, Function.update_self, lowBits_ofNat]
  · exact (h.entry p hp hpp).of_update hpp hlist hmap

theorem BoundTo.binding (h : BoundTo fd port z) : Binding fd port z := by
  refine ⟨fun p hp _ => h.inv.entry p hp, h.inv.bound, h.inv.table, h.portmap,
    fun hp fd' hfd' => ?_⟩
  obtain ⟨-, hnone⟩ | ⟨fd₀, -, huniq, -⟩ := h.inv.entry port hp
  · exact absurd h.portmap (hnone fd)
  · rw [huniq fd' hfd', huniq fd h.portmap]

/-- The port of a descriptor is stored. -/
theorem PortInv.binding (h : PortInv z) (hfd : IsEconet z.2 fd) (hc : PortCond (.bind fd port) z)
    {d : Driver} (hlist : d.vars.portList = z.1.vars.portList)
    (hmap : d.vars.fdRxPortmap = Function.update z.1.vars.fdRxPortmap fd port) :
    Binding fd port (d, z.2) := by
  obtain ⟨hold, huniq⟩ := hc
  refine ⟨fun p hp hne => ?_, fun fd' hfd' => ?_, h.table, ?_, fun hp fd' hfd' => ?_⟩
  · -- the descriptor was not bound to `p`, and is not bound to it now
    have hfree : z.1.vars.fdRxPortmap fd ≠ p := by
      obtain h0 | h1 := hold
      · rw [h0]; exact hp.symm
      · rw [h1]; exact hne.symm
    refine (h.entry p hp).congr (by rw [hlist]) fun fd' => ?_
    rw [hmap]
    exact bound_update hfree hne.symm fd'
  · rw [hmap] at hfd'
    by_cases hf : fd' = fd
    · subst hf; exact hfd
    · rw [Function.update_of_ne hf] at hfd'
      exact h.bound fd' hfd'
  · rw [hmap, Function.update_self]
  · rw [hmap] at hfd'
    by_contra hf
    rw [Function.update_of_ne hf] at hfd'
    exact hf (huniq hp fd' hfd')

/-- The entry of the port is cleared. -/
theorem BoundTo.closing (h : BoundTo fd port z) (hp : port ≠ 0#8) {d : Driver}
    (hlist : d.vars.portList = Function.update z.1.vars.portList port 0#8)
    (hmap : d.vars.fdRxPortmap = z.1.vars.fdRxPortmap) : Closing fd port (d, z.2) := by
  have hb := h.binding
  refine ⟨hp, ⟨fun p hp hne => (hb.entry p hp hne).of_update hne hlist hmap,
    fun fd' hfd' => ?_, hb.table, ?_, ?_⟩, ?_⟩
  · rw [hmap] at hfd'
    exact hb.bound fd' hfd'
  · rw [hmap]; exact hb.portmap
  · rw [hmap]; exact hb.unique
  · rw [hlist, Function.update_self]

/-- The descriptor is no longer bound. -/
theorem Closing.boundTo (h : Closing fd port z) {d : Driver}
    (hlist : d.vars.portList = z.1.vars.portList)
    (hmap : d.vars.fdRxPortmap = Function.update z.1.vars.fdRxPortmap fd 0#8) :
    BoundTo fd 0#8 (d, z.2) := by
  refine ⟨⟨fun p hp => ?_, fun fd' hfd' => ?_, h.binding.table⟩, by rw [hmap, Function.update_self]⟩
  · by_cases hpp : p = port
    · subst hpp
      left
      refine ⟨by rw [hlist]; exact h.free, fun fd' hfd' => ?_⟩
      rw [hmap] at hfd'
      by_cases hf : fd' = fd
      · subst hf
        rw [Function.update_self] at hfd'
        exact hp hfd'.symm
      · rw [Function.update_of_ne hf] at hfd'
        exact hf (h.binding.unique hp fd' hfd')
    · refine (h.binding.entry p hp hpp).congr (by rw [hlist]) fun fd' => ?_
      rw [hmap]
      refine bound_update ?_ hp.symm fd'
      rw [h.binding.portmap]
      exact Ne.symm hpp
  · rw [hmap] at hfd'
    by_cases hf : fd' = fd
    · subst hf
      rw [Function.update_self] at hfd'
      exact absurd rfl hfd'
    · rw [Function.update_of_ne hf] at hfd'
      exact h.binding.bound fd' hfd'

/-! ### Calls -/

/-- What is shown of a piece of a call. -/
abbrev ThreadPorts (r : α → β) (Q : β → FdState → Prop) (p : Code α) (z : FdState) : Prop :=
  Safe portThread PortCond AnyFdAccess Q (onDriver r p) z

/-- Code that leaves the tables keeps what the others keep. -/
theorem ports_leaves {A : FdState → Prop} (hA : Stable portThread A) {p : Code α}
    (hp : Leaves portPart p) {r : α → β} (hz : A z) : ThreadPorts r (fun _ z' => A z') p z := by
  refine safe_of_acts hA (Prog.acts_observe (fun _ _ _ _ _ hz => ⟨trivial, trivial, hz⟩) ?_ hp) hz
  intro l f hf z _ _ hz
  exact ⟨trivial, trivial, hA z _ (portRely_of_part (hf z.1)) trivial hz⟩

theorem ports_then {A : FdState → Prop} (hA : Stable portThread A) {α' : Type} {p : Code α'}
    {q : α' → Code α} {r : α → β} {Q : β → FdState → Prop} (hz : A z) (hp : Leaves portPart p)
    (h : ∀ a z', A z' → ThreadPorts r Q (q a) z') : ThreadPorts r Q (p >>= q) z :=
  safe_observe_bind ((ports_leaves hA hp hz).mono fun a z' _ hz' => h a z' hz')

/-- Between two calls. -/
abbrev KeepsPorts (r : α → β) (p : Code α) (z : FdState) : Prop :=
  ThreadPorts r (fun _ z' => PortInv z') p z

/-- `econet_read` stores the entry of its descriptor without the ready flag. -/
theorem copyOut_ports (ptr count : BitVec 32) (hz : BoundTo fd port z) {r : Reply → β} :
    KeepsPorts r (copyOut fd port ptr count) z := by
  unfold copyOut
  refine ports_then stable_boundTo hz (frame_copySize _).leaves fun copySz z hz => ?_
  refine ports_then stable_boundTo hz (leaves_load _) fun start z hz => ?_
  refine ports_then stable_boundTo hz (frame_copyRx _ _).leaves fun bytes z hz => ?_
  refine ports_then stable_boundTo hz (leaves_load _) fun len z hz => ?_
  split
  · refine (ports_leaves stable_boundTo ?_ hz).mono fun _ _ _ h => h.inv
    refine Prog.acts_bind (leaves_load _) fun _ =>
      Prog.acts_bind (leaves_modify fun _ => rfl) fun _ => ?_
    refine Prog.acts_bind (leaves_load _) fun _ =>
      Prog.acts_bind (leaves_modify fun _ => rfl) fun _ => ?_
    exact leaves_pure _
  refine safe_observe_modify fun z' hr hi _ => ⟨trivial, trivial, ?_⟩
  have hz' := stable_boundTo z z' hr hi hz
  exact ports_leaves (p := pure _) stable_portInv (leaves_pure _) (hz'.binding.portInv rfl rfl)

theorem econetRead_ports (fd : Fd) (ptr count : BitVec 32) (hz : PortInv z) {r : Reply → β} :
    KeepsPorts r (econetRead fd ptr count) z := by
  unfold econetRead
  refine ports_then stable_portInv hz (leaves_load _) fun monitor z hz => ?_
  split
  · exact ports_leaves stable_portInv ((frame_econetMonitor ptr count).comp fun v =>
      (v.2, v.1.fdRxPortmap)).leaves hz
  refine safe_observe_read fun z' hr hi _ => ⟨trivial, trivial, ?_⟩
  have hz' : BoundTo fd (z'.1.vars.fdRxPortmap fd) z' := ⟨stable_portInv z z' hr hi hz, rfl⟩
  split
  · exact ports_leaves stable_portInv (leaves_pure _) hz'.inv
  have hbegin : Preserves portPart beginRead := fun _ => rfl
  exact ports_then stable_boundTo hz' (leaves_wait hbegin) fun _ z hz => copyOut_ports ptr count hz

theorem callCode_ports (c : Call) (hz : PortInv z) {r : Reply → β} : KeepsPorts r c.code z := by
  cases c with
  | read fd ptr count => exact econetRead_ports fd ptr count hz
  | peek fd => exact ports_leaves stable_portInv (frame_econetPeek fd).leaves hz
  | write fd ptr bytes =>
    exact ports_leaves stable_portInv (StoresBy.leavesPorts (stores_econetWrite fd ptr bytes)) hz

/-- The invariant, in a call on an Econet descriptor. -/
structure OnEconet (fd : Fd) (z : FdState) : Prop where
  inv : PortInv z
  device : IsEconet z.2 fd

theorem stable_onEconet : Stable portThread (OnEconet fd) := fun z z' hr hi h =>
  ⟨stable_portInv z z' hr hi h.inv, by rw [hr.table]; exact h.device⟩

theorem econetSetRxPort_ports (port : BitVec 8) (hz : OnEconet fd z) {r : Reply → β} :
    KeepsPorts r (econetSetRxPort fd port) z := by
  unfold econetSetRxPort
  refine safe_observe_modify fun z' hr hi hc => ⟨trivial, trivial, ?_⟩
  have hz' := stable_onEconet z z' hr hi hz
  -- between the two stores the entry of the port is not yet the descriptor
  have hb := hz'.inv.binding hz'.device hc (d := { z'.1 with vars := { z'.1.vars with
    fdRxPortmap := Function.update z'.1.vars.fdRxPortmap fd port } }) rfl rfl
  refine safe_observe_modify fun z'' hr hi _ => ⟨trivial, trivial, ?_⟩
  have hb := stable_binding _ z'' hr hi hb
  exact ports_leaves (p := pure _) stable_portInv (leaves_pure _) (hb.portInv rfl rfl)

theorem econetIoctl_ports (request : BitVec 32) (dest : EconetAddr) (hz : OnEconet fd z)
    {r : Reply → β} :
    KeepsPorts r (econetIoctl fd request dest) z := by
  unfold econetIoctl
  dsimp only
  split_ifs
  · refine ports_leaves stable_portInv ?_ hz.inv
    refine Prog.acts_bind (leaves_modify fun _ => rfl) fun _ => ?_
    exact Prog.acts_bind (leaves_modify fun _ => rfl) fun _ => leaves_pure _
  · exact econetSetRxPort_ports _ hz
  · refine ports_leaves stable_portInv ?_ hz.inv
    refine Prog.acts_bind (leaves_modify fun _ => rfl) fun _ => ?_
    refine Prog.acts_bind (leaves_modify fun _ => rfl) fun _ => ?_
    exact Prog.acts_bind (leaves_modify fun _ => rfl) fun _ => leaves_pure _
  · refine ports_leaves stable_portInv ?_ hz.inv
    refine Prog.acts_bind (leaves_modify fun _ => rfl) fun _ => ?_
    refine Prog.acts_bind (leaves_modify fun _ => rfl) fun _ => ?_
    exact Prog.acts_bind (leaves_modify fun _ => rfl) fun _ => leaves_pure _
  · exact ports_leaves stable_portInv (leaves_pure _) hz.inv
  · exact ports_leaves stable_portInv (Prog.acts_bind (leaves_load _) fun _ => leaves_pure _) hz.inv
  · exact ports_leaves stable_portInv (leaves_pure _) hz.inv
  · exact ports_leaves stable_portInv (leaves_pure _) hz.inv
  · exact ports_leaves stable_portInv (leaves_pure _) hz.inv

/-- `econet_close` leaves the descriptor without a port. -/
theorem econetClose_ports (fd : Fd) (hz : PortInv z) {r : Reply → β} :
    ThreadPorts r (fun _ z' => BoundTo fd 0#8 z') (econetClose fd) z := by
  unfold econetClose
  refine safe_observe_read fun z' hr hi _ => ⟨trivial, trivial, ?_⟩
  have hz' : BoundTo fd (z'.1.vars.fdRxPortmap fd) z' := ⟨stable_portInv z z' hr hi hz, rfl⟩
  split
  · next hne =>
    refine safe_observe_modify fun z₁ hr hi _ => ⟨trivial, trivial, ?_⟩
    -- the entry is cleared first, so a scout in between is not acknowledged
    have hz₁ := (stable_boundTo z' z₁ hr hi hz').closing hne
      (d := { z₁.1 with vars := { z₁.1.vars with
      portList := Function.update z₁.1.vars.portList (z'.1.vars.fdRxPortmap fd) 0#8 } }) rfl rfl
    refine safe_observe_modify fun z₂ hr hi _ => ⟨trivial, trivial, ?_⟩
    have hz₂ := stable_closing _ z₂ hr hi hz₁
    exact ports_leaves (p := pure _) stable_boundTo (leaves_pure _) (hz₂.boundTo rfl rfl)
  · next heq =>
    rw [not_not] at heq
    have hz₀ : BoundTo fd 0#8 z' := ⟨hz'.inv, heq⟩
    exact ports_leaves stable_boundTo (Prog.acts_bind (leaves_pure _) fun _ => leaves_pure _) hz₀

end Thread

/-! ### The table of descriptors -/

section Table

variable {z : FdState} {fd : Fd}

theorem sysDevice_congr {s s' : FdTable.Sys} (h : s'.fdtable fd = s.fdtable fd) :
    FdTable.sysDevice s' fd = FdTable.sysDevice s fd := by
  unfold FdTable.sysDevice
  rw [h]

/-- A change to the table that leaves the descriptors that are bound. -/
theorem PortInv.of_table (h : PortInv z) {s : FdTable.Sys} (hs : FdTable.Consistent s)
    (hkeep : ∀ fd, z.1.vars.fdRxPortmap fd ≠ 0#8 → s.fdtable fd = z.2.fdtable fd) :
    PortInv (z.1, s) := by
  refine ⟨h.entry, fun fd hfd => ?_, hs⟩
  unfold IsEconet
  rw [sysDevice_congr (hkeep fd hfd)]
  exact h.bound fd hfd

theorem flags_of_econet {s : FdTable.Sys} (h : IsEconet s fd) : (s.fdtable fd).flags ≠ 0#32 := by
  intro hzero
  unfold IsEconet FdTable.sysDevice at h
  rw [if_neg (not_not.mpr hzero)] at h
  exact absurd h (by simp)

theorem PortInv.opened (h : PortInv z) {s : FdTable.Sys} {r : Except FdTable.Errno Fd}
    (hr : FdTable.OpenResult z.2 s r) : PortInv (z.1, s) :=
  h.of_table (h.table.opened hr) fun fd hfd => hr.keepsUsed.1 fd (flags_of_econet (h.bound fd hfd))

theorem PortInv.closed (h : PortInv z) (hfd : z.1.vars.fdRxPortmap fd = 0#8) {s : FdTable.Sys}
    (hr : FdTable.CloseResult z.2 s fd) : PortInv (z.1, s) := by
  refine h.of_table (h.table.closed hr) fun fd' hfd' => ?_
  have hne : fd' ≠ fd := fun heq => hfd' (heq ▸ hfd)
  cases hr with
  | kept hs => rw [hs]
  | closed _ _ hfdtable _ _ => rw [hfdtable, Function.update_of_ne hne]

/-- What holds when a call returns. -/
def ReturnsPorts (a : Option Reply) (z : FdState) : Prop :=
  portThread.inv (fdKernel.finish a z) ∧ PortInv (fdKernel.finish a z)

theorem PortInv.returns (h : PortInv z) (a : Option Reply) : ReturnsPorts a z := by
  have hpart : portPart (a.elim z.1 fun reply => finish reply z.1) = portPart z.1 := by
    cases a with
    | none => rfl
    | some reply => cases reply <;> rfl
  exact ⟨trivial, stable_portInv z _ (portRely_of_part hpart) trivial h⟩

/-- What is shown of a call. -/
abbrev CallPorts (p : Prog FdState Access (Option Reply)) (z : FdState) : Prop :=
  Safe portThread PortCond AnyFdAccess ReturnsPorts p z

theorem sysCall_ports {p : Code Reply} (hz : PortInv z)
    (hp : ∀ z', OnEconet fd z' → KeepsPorts some p z') : CallPorts (sysCall fd p) z := by
  unfold sysCall
  refine safe_read fun z' hr hi _ => ⟨trivial, ?_⟩
  have hz' := stable_portInv z z' hr hi hz
  split
  · next hdev => exact (hp z' ⟨hz', hdev⟩).mono fun a _ _ h => h.returns a
  · exact safe_ret_stable stable_portInv hz' fun _ _ h => h.returns none

/-- The last access of `SYS_close`. -/
theorem closeTable_ports (res : FdTable.FResult) (a : Option Reply) (hz : BoundTo fd 0#8 z) :
    CallPorts (Prog.modify .plain (fun z => (z.1, (FdTable.closeFd z.2 fd res).1)) >>= fun _ =>
      pure a) z := by
  refine safe_modify fun z' hr hi _ => ⟨trivial, trivial, ?_⟩
  have hz' := stable_boundTo z z' hr hi hz
  have hclosed := hz'.inv.closed hz'.portmap (FdTable.closeFd_result z'.2 fd res)
  exact safe_ret_stable stable_portInv hclosed fun _ _ h => h.returns a

theorem sysCloseCode_ports (fd : Fd) (res : FdTable.FResult) (hz : PortInv z) :
    CallPorts (sysCloseCode fd res) z := by
  unfold sysCloseCode
  refine safe_read fun z' hr hi _ => ⟨trivial, ?_⟩
  have hz' := stable_portInv z z' hr hi hz
  split
  · refine safe_bind ((econetClose_ports fd hz').mono fun reply z _ hz => ?_)
    exact closeTable_ports res reply hz
  · next hdev =>
    -- a descriptor of another device is not bound
    have hfd : z'.1.vars.fdRxPortmap fd = 0#8 := by
      by_contra hne
      have heco := hz'.bound fd hne
      exact hdev ⟨three_le_of_econet hz'.table heco, heco⟩
    exact closeTable_ports res none ⟨hz', hfd⟩

theorem sysOpenCode_ports (pathname : List Char) (flags : BitVec 32) (res : FdTable.FResult)
    (hz : PortInv z) :
    CallPorts (sysOpenCode pathname flags res) z := by
  unfold sysOpenCode
  refine safe_modify fun z' hr hi _ => ⟨trivial, trivial, ?_⟩
  have hz' := stable_portInv z z' hr hi hz
  have hopened := hz'.opened (FdTable.sysOpen_result z'.2 pathname flags res)
  exact safe_ret_stable stable_portInv hopened fun _ _ h => h.returns none

theorem fdCode_ports (c : FdCall) (hz : PortInv z) : CallPorts c.code z := by
  cases c with
  | «open» pathname flags res => exact sysOpenCode_ports pathname flags res hz
  | close fd res => exact sysCloseCode_ports fd res hz
  | io c => exact sysCall_ports hz fun _ h => callCode_ports c h.inv
  | ioctl fd request dest => exact sysCall_ports hz fun _ h => econetIoctl_ports request dest h

end Table

/-! ### Runs -/

theorem fd_portsVerified :
    Verified fdKernel portThread portHandler PortCond AnyFdAccess AnyFdMove PortInv where
  env_thread i z _ _ := ⟨trivial, portRely_of_vars ⟨(hw_vars z.1 i).1, rfl⟩⟩
  env_isr i z _ _ := ⟨trivial, (hw_vars z.1 i).1, rfl⟩
  isr _ _ _ := ⟨trivial, isrTrap_ports⟩
  call c _ _ hz := fdCode_ports c hz
  ready_rely z z' hi hz hr := stable_portInv z z' hr hi hz

instance (z : FdState) : ∀ l : Access, Decidable (PortCond l z)
  | .bind fd port => inferInstanceAs (Decidable
    ((z.1.vars.fdRxPortmap fd = 0#8 ∨ z.1.vars.fdRxPortmap fd = port) ∧
      (port ≠ 0#8 → ∀ fd', z.1.vars.fdRxPortmap fd' = port → fd' = fd)))
  | .ready => inferInstanceAs (Decidable (_ → _))
  | .plain | .txStore | .lineStatus | .lineIdle | .dataAck | .rxRead | .monitor | .scoutState
  | .scoutPort ..
  | .txScout .. | .ackScout | .dataState | .ackData | .errorState | .timeoutState => isTrue trivial

instance (inIsr : Bool) (i : Hw) (z : FdState) : Decidable (AnyFdMove inIsr i z) :=
  inferInstanceAs (Decidable True)

/-- The condition on a step: ports and descriptors are bound one to one, and a port that is marked
as ready is still bound. -/
def BindsOnce (y : FdSystem) (e : FdEvent) : Prop := y.Meets PortCond AnyFdMove e

instance (y : FdSystem) (e : FdEvent) : Decidable (BindsOnce y e) :=
  inferInstanceAs (Decidable (y.Meets PortCond AnyFdMove e))

/-- The tables agree between two calls, when the handler does not run. -/
def PortsAgree (y : FdSystem) : Prop := y.thread = none → y.isr = none → PortTable y.shared

theorem portInv_of_init {y : FdSystem} (hy : FdInit y) : PortInv y.shared := by
  refine ⟨fun port hp => Or.inl ⟨hy.portList port, fun fd hfd => ?_⟩, fun fd hfd => ?_, ?_⟩
  · rw [hy.portmap fd] at hfd
    exact hp hfd.symm
  · exact absurd (hy.portmap fd) hfd
  · obtain ⟨flash, hflash⟩ := hy.table
    rw [hflash]
    exact FdTable.consistent_boot flash

/-- **The port table**: in every run in which ports and descriptors are bound one to one, and a
descriptor is not closed between a scout and its data, the two tables agree. -/
theorem portTable_run (y : FdSystem) (hy : FdInit y) (es : List FdEvent)
    (hes : Machine.StepsMeet (Interrupted.step fdKernel) BindsOnce y es) :
    PortsAgree (Machine.run (Interrupted.step fdKernel) y es) := by
  have hstart : Interrupted.Sound fdKernel portThread portHandler PortCond AnyFdAccess
      PortInv y := by
    have hinv := portInv_of_init hy
    obtain ⟨z, t, i⟩ := y
    obtain rfl : t = none := hy.thread
    obtain rfl : i = none := hy.isr
    exact ⟨trivial, hinv⟩
  have hsound := Interrupted.run_sound fd_portsVerified hstart es hes
  intro ht hi
  unfold Interrupted.Sound at hsound
  rw [hi, ht] at hsound
  exact PortInv.portTable hsound.2

/-- A descriptor is bound to port `0x99`, and the data of a scout for it arrives. -/
def boundRun : List FdEvent :=
  openEconet ++ bindPort 3 0x99#8 ++
    (fromPeer [0x80#8, 0x99#8] ++ handled ++ fromPeer [1#8, 2#8] ++ handled).map Event.fd

theorem boundRun_agrees :
    (Machine.run (Interrupted.step fdKernel) bootStation boundRun).shared.1.vars.portList 0x99#8 =
    0x83#8 ∧
      PortsAgree (Machine.run (Interrupted.step fdKernel) bootStation boundRun) := by
  have hrun : Machine.RunsTo (Interrupted.step fdKernel) BindsOnce
      (fun y => y.shared.1.vars.portList 0x99#8 = 0x83#8) bootStation boundRun := by
    decide +kernel
  exact ⟨hrun.run, portTable_run bootStation fdInit_bootStation boundRun hrun.stepsMeet⟩

/-- The tables disagree on a port: its low bits are a descriptor that is not bound to it or are not
the one that is, or there is an entry without any. -/
def Disagree (port : BitVec 8) (fd : Fd) (z : FdState) : Prop :=
  port ≠ 0#8 ∧ (fd.val ≠ 0 ∧ ¬(lowBits (z.1.vars.portList port) = fd.val ↔ Bound z fd port) ∨
    (∀ fd', ¬Bound z fd' port) ∧ z.1.vars.portList port ≠ 0#8)

instance (z : FdState) (fd : Fd) (port : BitVec 8) : Decidable (Bound z fd port) :=
  inferInstanceAs (Decidable (_ ∧ _))

instance (port : BitVec 8) (fd : Fd) (z : FdState) : Decidable (Disagree port fd z) :=
  inferInstanceAs (Decidable (_ ∧ _))

theorem Disagree.not_portTable {port : BitVec 8} {fd : Fd} {z : FdState} (h : Disagree port fd z) :
    ¬PortTable z := by
  intro hz
  obtain ⟨hp, ⟨hfd, hne⟩ | ⟨hnone, hlist⟩⟩ := h
  · refine hne ⟨fun hlow => ?_, fun hb => ?_⟩
    · obtain ⟨fd', hval, hb⟩ := (hz.entry port hp fd.val).mp ⟨hlow, hfd⟩
      rw [Fin.ext hval] at hb
      exact hb
    · exact ((hz.entry port hp fd.val).mpr ⟨fd, rfl, hb⟩).1
  · exact hlist (hz.free port hp hnone)

/-- A run after which the tables disagree. -/
theorem not_portsAgree {port : BitVec 8} {fd : Fd} {y : FdSystem}
    (h : y.thread.isNone = true ∧ y.isr.isNone = true ∧ Disagree port fd y.shared) :
    ¬PortsAgree y :=
  fun hy => h.2.2.not_portTable
    (hy (Option.isNone_iff_eq_none.mp h.1) (Option.isNone_iff_eq_none.mp h.2.1))

/-- A descriptor is bound to a second port. -/
def reboundRun : List FdEvent := openEconet ++ bindPort 3 0x99#8 ++ bindPort 3 0x9A#8

/-- Two descriptors are bound to one port. -/
def sharedRun : List FdEvent := openEconet ++ openEconet ++ bindPort 3 0x99#8 ++ bindPort 4 0x99#8

/-- A descriptor is closed between a scout and its data. -/
def closedRun : List FdEvent :=
  openEconet ++ bindPort 3 0x99#8 ++ (fromPeer [0x80#8, 0x99#8] ++ handled).map Event.fd ++
    systemCall (.close 3 .FR_OK) ++ (fromPeer [1#8, 2#8] ++ handled).map Event.fd

/-- Each of the three brings the tables apart: the first port keeps its entry, the first descriptor
loses its port, and the ready flag is set for no descriptor. -/
theorem ports_disagree :
    FdInit bootStation ∧
      ¬PortsAgree (Machine.run (Interrupted.step fdKernel) bootStation reboundRun) ∧
      ¬PortsAgree (Machine.run (Interrupted.step fdKernel) bootStation sharedRun) ∧
      ¬PortsAgree (Machine.run (Interrupted.step fdKernel) bootStation closedRun) := by
  have hrun : ∀ es, Machine.RunsTo (Interrupted.step fdKernel)
    (fun y e => y.Meets (fun _ _ => True) (fun _ i z =>
      i = .rise → z.1.accepts = true → z.1.frameValid = false) e) (fun y => y.thread.isNone = true ∧
      y.isr.isNone = true ∧ Disagree 0x99#8 3 y.shared) bootStation es →
      ¬PortsAgree (Machine.run (Interrupted.step fdKernel) bootStation es) := fun es h =>
        not_portsAgree h.run
  refine ⟨fdInit_bootStation, hrun _ ?_, hrun _ ?_, hrun _ ?_⟩
  · decide +kernel
  · decide +kernel
  · decide +kernel

end Filestick.RawEconet
