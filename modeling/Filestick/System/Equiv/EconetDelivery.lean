import Filestick.System.Equiv.RawEconet

/-!
# Delivery of acknowledged payloads

The handler acknowledges a data frame, notes where its payload is, and marks the port as ready; a
later `econet_read` copies the payload out of the receive buffer.  There is one place for the start
and the length, for all ports, and the receive buffer is filled by all the traffic on the line.

Two conditions on runs are treated together.  With `strict` no payload is lost: `.data_ack` finds no
port ready.  Without it `.data_ack` may replace what is not read for the same port.

* `econet_delivVerified`: the driver keeps its contracts.
* `delivered_intact`: with `strict`, what was acknowledged is what was returned and what can be
  read.
* `delivered_fromPort`: what is returned on a port was acknowledged for this port.
-/

namespace Filestick.RawEconet

open Driver

/-! ### Records -/

/-- The bytes recorded for a port. -/
def onPort (rs : List (BitVec 8 × List (BitVec 8))) (port : BitVec 8) : List (BitVec 8) :=
  (rs.filter fun r => r.1 == port).flatMap (·.2)

@[simp] theorem onPort_append (rs rs' : List (BitVec 8 × List (BitVec 8))) (port : BitVec 8) :
    onPort (rs ++ rs') port = onPort rs port ++ onPort rs' port := by
  simp [onPort]

@[simp] theorem onPort_singleton (q port : BitVec 8) (bytes : List (BitVec 8)) :
    onPort [(q, bytes)] port = if q = port then bytes else [] := by
  by_cases h : q = port <;> simp [onPort, h]

/-- What is not read of the payload acknowledged for a port. -/
def unreadOn (d : Driver) (port : BitVec 8) : List (BitVec 8) :=
  if d.flag port then d.deliv.unread else []

/-- What was returned on a port belongs to a payload acknowledged for it. -/
def FromPort (d : Driver) : Prop :=
  ∀ r ∈ d.deliv.returned, ∃ whole, (r.1, whole) ∈ d.deliv.acked ∧ r.2 <:+: whole

/-- What was returned on a port was acknowledged for it, in this order. -/
def InOrder (d : Driver) : Prop :=
  ∀ port, onPort d.deliv.returned port <+: onPort d.deliv.acked port

/-- All that was acknowledged is returned or not yet read. -/
def Complete (d : Driver) : Prop :=
  ∀ port, onPort d.deliv.acked port = onPort d.deliv.returned port ++ unreadOn d port

/-! ### The contracts -/

/-- The part of a payload that is not read is in the buffer, as far as the receiver has not come
round to it, and belongs to an acknowledged payload. -/
structure Unread (d : Driver) : Prop where
  tracked : Ring.Tracked d.rx.regs.econetBuf d.deliv.unreadStart d.deliv.unread d.log.unreadSince
    d.rx.regs.econetPtr
  acked : ∃ whole, (d.deliv.unreadPort, whole) ∈ d.deliv.acked ∧ d.deliv.unread <:+ whole

/-- `econet_buf_start` and `econet_buf_len` delimit it. -/
structure Linked (d : Driver) : Prop where
  start : d.vars.bufStart.setWidth 11 = d.deliv.unreadStart
  len : d.vars.bufLen.toNat = d.deliv.unread.length

/-- The invariant between two accesses of the thread. -/
structure DelivShared (strict : Bool) (d : Driver) : Prop where
  rx : RxShared d
  pending : d.frameValid = true → Pending d
  flags : ∀ q, d.flag q = true → q = d.deliv.unreadPort
  unread : d.flag d.deliv.unreadPort = true → Unread d
  linked : d.flag d.deliv.unreadPort = true → d.deliv.reading = false → Linked d
  reading : d.deliv.reading = true → d.flag d.deliv.unreadPort = true
  scout : d.vars.pendingPort = d.deliv.scoutPort.setWidth 32
  fits : strict = true → d.flag d.deliv.unreadPort = true → d.log.unreadSince ≤ 2048
  fromPort : FromPort d
  inOrder : strict = true → InOrder d

/-- The invariant in the handler. -/
structure DelivHandler (strict : Bool) (d : Driver) : Prop where
  rx : RxShared d
  fromPort : FromPort d
  inOrder : strict = true → InOrder d

/-- What `econet_read` works on while it copies. -/
structure Held (d d' : Driver) : Prop where
  portList : d'.vars.portList = d.vars.portList
  bufStart : d'.vars.bufStart = d.vars.bufStart
  bufLen : d'.vars.bufLen = d.vars.bufLen
  unreadPort : d'.deliv.unreadPort = d.deliv.unreadPort
  unread : d'.deliv.unread = d.deliv.unread
  unreadStart : d'.deliv.unreadStart = d.deliv.unreadStart

/-- What is not read stays: `econet_read` copies it, or, with `strict`, the port is ready. -/
def Fixed (strict : Bool) (d : Driver) : Prop :=
  d.deliv.reading = true ∨ strict = true ∧ d.flag d.deliv.unreadPort = true

/-- What the thread relies on. -/
structure DelivRely (strict : Bool) (d d' : Driver) : Prop where
  portmap : d'.vars.fdRxPortmap = d.vars.fdRxPortmap
  reading : d'.deliv.reading = d.deliv.reading
  returned : d'.deliv.returned = d.deliv.returned
  acked : d.deliv.acked <+: d'.deliv.acked
  held : Fixed strict d → Held d d'
  order : strict = true → ∀ xs port, onPort d.deliv.acked port = xs ++ unreadOn d port →
    onPort d'.deliv.acked port = xs ++ unreadOn d' port

/-- What the handler relies on: the hardware stores bytes, and accepts no frame. -/
structure DelivHw (strict : Bool) (d d' : Driver) : Prop where
  vars : d'.vars = d.vars
  deliv : d'.deliv = d.deliv
  valid : d'.frameValid = d.frameValid
  start : d'.rx.regs.validStart = d.rx.regs.validStart
  count : d'.rx.regs.validCnt = d.rx.regs.validCnt
  accepted : d'.log.accepted = d.log.accepted
  pending : Pending d → Pending d'
  unread : Unread d → Unread d'
  fits : strict = true → d.flag d.deliv.unreadPort = true → d.log.unreadSince ≤ 2048 →
    d'.log.unreadSince ≤ 2048

theorem Held.trans {d d' d'' : Driver} (h : Held d d') (h' : Held d' d'') : Held d d'' :=
  ⟨h'.portList.trans h.portList, h'.bufStart.trans h.bufStart, h'.bufLen.trans h.bufLen,
    h'.unreadPort.trans h.unreadPort, h'.unread.trans h.unread, h'.unreadStart.trans h.unreadStart⟩

theorem Fixed.held {strict : Bool} {d d' : Driver} (h : Fixed strict d)
    (hr : d'.deliv.reading = d.deliv.reading) (hd : Held d d') : Fixed strict d' := by
  rcases h with h | ⟨hs, hf⟩
  · exact Or.inl (hr.trans h)
  · refine Or.inr ⟨hs, ?_⟩
    rw [flag, hd.portList, hd.unreadPort]
    exact hf

/-- What delivery depends on of the variables and the record. -/
structure View where
  portList : BitVec 8 → BitVec 8
  bufStart : BitVec 32
  bufLen : BitVec 32
  pendingPort : BitVec 32
  fdRxPortmap : Fd → BitVec 8
  deliv : Delivery

/-- The view of a state. -/
def view (d : Driver) : View :=
  ⟨d.vars.portList, d.vars.bufStart, d.vars.bufLen, d.vars.pendingPort, d.vars.fdRxPortmap,
    { d.deliv with writing := false }⟩

theorem flag_of_view {d d' : Driver} (h : view d' = view d) (q : BitVec 8) :
    d'.flag q = d.flag q := by
  have : d'.vars.portList = d.vars.portList := congrArg View.portList h
  rw [flag, this, flag]

theorem flag_congr {d d' : Driver} (h : d'.vars = d.vars) (q : BitVec 8) :
    d'.flag q = d.flag q := by
  rw [flag, h, flag]

/-- The contract of the thread. -/
def delivThread (strict : Bool) : Contract Driver where
  inv := DelivShared strict
  rely := DelivRely strict
  refl _ := ⟨rfl, rfl, rfl, List.prefix_refl _, fun _ => ⟨rfl, rfl, rfl, rfl, rfl, rfl⟩,
    fun _ _ _ h => h⟩
  trans h h' := ⟨h'.portmap.trans h.portmap, h'.reading.trans h.reading,
    h'.returned.trans h.returned, h.acked.trans h'.acked,
    fun hf => (h.held hf).trans (h'.held (hf.held h.reading (h.held hf))),
    fun hs xs port heq => h'.order hs xs port (h.order hs xs port heq)⟩

/-- The contract of the handler. -/
def delivHandler (strict : Bool) : Contract Driver where
  inv := DelivHandler strict
  rely := DelivHw strict
  refl _ := ⟨rfl, rfl, rfl, rfl, rfl, rfl, id, id, fun _ _ h => h⟩
  trans {d d' _} h h' := ⟨h'.vars.trans h.vars, h'.deliv.trans h.deliv, h'.valid.trans h.valid,
    h'.start.trans h.start, h'.count.trans h.count, h'.accepted.trans h.accepted,
    fun hp => h'.pending (h.pending hp), fun hu => h'.unread (h.unread hu),
    fun hs hf hle => h'.fits hs (by rw [flag_congr h.vars, h.deliv]; exact hf) (h.fits hs hf hle)⟩

/-- The condition on accesses.  With `strict`: `.data_ack` finds no port ready, and when it marks
one, at most 2048 bytes have been stored since the first byte of the payload.  Without: `.data_ack`
finds no `econet_read` that copies, and no port ready but the one of the frame; and when the buffer
is read, at most 2048 bytes have been stored since the first byte that is not read. -/
def DelivCond (strict : Bool) (l : Access) (d : Driver) : Prop :=
  match l with
  | .dataAck =>
    if strict then ∀ q, d.flag q = false
    else d.deliv.reading = false ∧ ∀ q, d.flag q = true → q = d.vars.pendingPort.setWidth 8
  | .ready => strict = true → d.log.since ≤ 2050
  | .rxRead => strict = false → d.log.unreadSince ≤ 2048
  | _ => True

/-- The condition on the line: a frame is accepted outside the handler, with `data_strobe` low on
the clock that took in its opening flag, and it has from 4 to 2047 bytes.  With `strict` at most
2048 bytes are stored from the first byte that is not read on, while a port is ready. -/
def DelivEnv (strict inIsr : Bool) (i : Hw) (d : Driver) : Prop :=
  i = .rise →
    (d.accepts = true → inIsr = false ∧ d.log.frame.clean = true ∧ 4 ≤ d.log.frame.bytes.length ∧
      d.log.frame.bytes.length < 2048) ∧
    (strict = true → d.strobes = true → ∀ q, d.flag q = true → d.log.unreadSince < 2048)

/-- Nothing more is shown of an access. -/
def anyAccess : Access → Driver → Prop := fun _ _ => True

section

variable {strict : Bool} {d d' : Driver}

/-- The invariant, when only the receiver has moved. -/
theorem DelivShared.of_view (h : DelivShared strict d) (hview : view d' = view d)
    (hrx : RxShared d') (hp : d'.frameValid = true → Pending d') (hu : Unread d → Unread d')
    (hf : strict = true → d.flag d.deliv.unreadPort = true → d.log.unreadSince ≤ 2048 →
      d'.log.unreadSince ≤ 2048) : DelivShared strict d' := by
  have hflag := flag_of_view hview
  simp only [view, View.mk.injEq, Delivery.mk.injEq] at hview
  obtain ⟨-, hbs, hbl, hpp, -, hsp, hup, hun, hus, hack, hret, hrd, -⟩ := hview
  refine ⟨hrx, hp, ?_, ?_, ?_, ?_, ?_, ?_, ?_, ?_⟩
  · intro q hq
    rw [hflag] at hq
    rw [hup]
    exact h.flags q hq
  · intro hfl
    rw [hup, hflag] at hfl
    exact hu (h.unread hfl)
  · intro hfl hr
    rw [hup, hflag] at hfl
    rw [hrd] at hr
    obtain ⟨h1, h2⟩ := h.linked hfl hr
    exact ⟨by rw [hbs, hus]; exact h1, by rw [hbl, hun]; exact h2⟩
  · intro hr
    rw [hrd] at hr
    rw [hup, hflag]
    exact h.reading hr
  · rw [hpp, hsp]
    exact h.scout
  · intro hs hfl
    rw [hup, hflag] at hfl
    exact hf hs hfl (h.fits hs hfl)
  · rw [FromPort, hack, hret]
    exact h.fromPort
  · intro hs
    rw [InOrder, hack, hret]
    exact h.inOrder hs

theorem delivRely_of_view (hview : view d' = view d) : DelivRely strict d d' := by
  have hflag := flag_of_view hview
  simp only [view, View.mk.injEq, Delivery.mk.injEq] at hview
  obtain ⟨hpl, hbs, hbl, -, hpm, -, hup, hun, hus, hack, hret, hrd, -⟩ := hview
  refine ⟨hpm, hrd, hret, by rw [hack], fun _ => ⟨hpl, hbs, hbl, hup, hun, hus⟩, ?_⟩
  intro _ xs port heq
  rw [unreadOn, hflag, hun, hack]
  exact heq

theorem delivHandler_of_view (h : DelivHandler strict d) (hview : view d' = view d)
    (hrx : RxShared d') : DelivHandler strict d' := by
  simp only [view, View.mk.injEq, Delivery.mk.injEq] at hview
  obtain ⟨-, -, -, -, -, -, -, -, -, hack, hret, -⟩ := hview
  refine ⟨hrx, by rw [FromPort, hack, hret]; exact h.fromPort, fun hs => ?_⟩
  rw [InOrder, hack, hret]
  exact h.inOrder hs

theorem view_congr (hv : d'.vars = d.vars) (hg : d'.deliv = d.deliv) : view d' = view d := by
  rw [view, hv, hg, view]

/-- What the hardware does is what the thread relies on. -/
theorem DelivHw.thread (hr : DelivHw strict d d') (hi : DelivHandler strict d')
    (h : DelivShared strict d) : DelivShared strict d' ∧ DelivRely strict d d' :=
  ⟨h.of_view (view_congr hr.vars hr.deliv) hi.rx
    (fun hv => hr.pending (h.pending (hr.valid.symm.trans hv))) hr.unread hr.fits,
    delivRely_of_view (view_congr hr.vars hr.deliv)⟩

/-! ### The hardware -/

theorem hw_unreadSince (d : Driver) :
    (d.hw .rise).log.unreadSince = d.log.unreadSince + stored d := by
  rw [(hw_rise d).2]
  rfl

theorem hw_unread (h : Unread d) (i : Hw) : Unread (d.hw i) := by
  refine ⟨?_, by rw [(hw_vars d i).2]; exact h.acked⟩
  rw [(hw_vars d i).2]
  by_cases hi : i = .rise
  · subst hi
    rw [hw_unreadSince]
    exact rise_tracked h.tracked
  · rw [(hw_rx d hi).1, (hw_rx d hi).2]
    exact h.tracked

theorem hw_pending (h : Pending d) {i : Hw} (hno : i = .rise → d.accepts = false) :
    Pending (d.hw i) := by
  by_cases hi : i = .rise
  · subst hi
    obtain ⟨h1, h2, h3, h4⟩ := rise_regs (hno rfl)
    refine ⟨?_, ?_, ?_⟩
    · rw [h1, h3, h4]
      exact rise_tracked h.tracked
    · rw [h2, h3]
      exact h.count
    · rw [h3]
      exact h.le
  · obtain ⟨hrx, hlog⟩ := hw_rx d hi
    refine ⟨?_, ?_, ?_⟩
    · rw [hrx, hlog]
      exact h.tracked
    · rw [hrx, hlog]
      exact h.count
    · rw [hlog]
      exact h.le

theorem hw_fits {inIsr : Bool} {i : Hw} (he : DelivEnv strict inIsr i d) (hs : strict = true)
    {q : BitVec 8} (hf : d.flag q = true) (hle : d.log.unreadSince ≤ 2048) :
    (d.hw i).log.unreadSince ≤ 2048 := by
  by_cases hi : i = .rise
  · subst hi
    rw [hw_unreadSince, stored]
    cases hst : d.strobes with
    | false => simpa using hle
    | true =>
      have := (he rfl).2 hs hst q hf
      rw [if_pos rfl]
      omega
  · rw [(hw_rx d hi).2]
    exact hle

theorem delivEnv_thread (i : Hw) (d : Driver) (hd : DelivShared strict d)
    (he : DelivEnv strict false i d) :
    DelivShared strict (d.hw i) ∧ DelivRely strict d (d.hw i) := by
  have hview := view_congr (hw_vars d i).1 (hw_vars d i).2
  refine ⟨hd.of_view hview (hd.rx.hw i) (fun hval => ?_) (fun hu => hw_unread hu i)
    (fun hs hf hle => hw_fits he hs hf hle), delivRely_of_view hview⟩
  by_cases hacc : i = .rise ∧ d.accepts = true
  · obtain ⟨rfl, hacc⟩ := hacc
    obtain ⟨-, hclean, h4, hlen⟩ := (he rfl).1 hacc
    exact rise_accepts hd.rx hacc hclean h4 hlen
  · have hno : i = .rise → d.accepts = false := fun hi => by
      by_contra h
      exact hacc ⟨hi, by simpa using h⟩
    rw [hw_frameValid, Bool.or_eq_true, Bool.and_eq_true, beq_iff_eq] at hval
    rcases hval with hval | hval
    · exact hw_pending (hd.pending hval) hno
    · exact absurd hval hacc

theorem delivEnv_isr (i : Hw) (d : Driver) (hd : DelivHandler strict d)
    (he : DelivEnv strict true i d) :
    DelivHandler strict (d.hw i) ∧ DelivHw strict d (d.hw i) := by
  obtain ⟨hv, hg⟩ := hw_vars d i
  have hno : i = .rise → d.accepts = false := fun hi => by
    by_contra h
    exact absurd ((he hi).1 (by simpa using h)).1 (by decide)
  have hregs : (d.hw i).rx.regs.validStart = d.rx.regs.validStart ∧
      (d.hw i).rx.regs.validCnt = d.rx.regs.validCnt ∧
      (d.hw i).log.accepted = d.log.accepted := by
    by_cases hi : i = .rise
    · subst hi
      obtain ⟨h1, h2, h3, -⟩ := rise_regs (hno rfl)
      exact ⟨h1, h2, h3⟩
    · rw [(hw_rx d hi).1, (hw_rx d hi).2]
      exact ⟨rfl, rfl, rfl⟩
  have hvalid : (d.hw i).frameValid = d.frameValid := by
    rw [hw_frameValid]
    by_cases hi : i = .rise
    · rw [hno hi, Bool.and_false, Bool.or_false]
    · rw [beq_false_of_ne hi, Bool.false_and, Bool.or_false]
  exact ⟨delivHandler_of_view hd (view_congr hv hg) (hd.rx.hw i),
    ⟨hv, hg, hvalid, hregs.1, hregs.2.1, hregs.2.2, fun hp => hw_pending hp hno,
      fun hu => hw_unread hu i, fun hs hf hle => hw_fits he hs hf hle⟩⟩

end

/-! ### The handler -/

section Handler

variable {strict : Bool} {d₀ d : Driver} {α : Type}

/-- The handler has kept to what the thread relies on. -/
structure Kept (strict : Bool) (d₀ d : Driver) : Prop where
  shared : DelivShared strict d
  rely : DelivRely strict d₀ d

theorem stable_kept (d₀ : Driver) : Stable (delivHandler strict) (Kept strict d₀) := by
  intro d d' hr hi h
  obtain ⟨h1, h2⟩ := hr.thread hi h.shared
  exact ⟨h1, (delivThread strict).trans h.rely h2⟩

/-- The handler has taken a frame, and kept to what the thread relies on. -/
structure Taken (strict : Bool) (d₀ d : Driver) : Prop extends Kept strict d₀ d where
  pending : Pending d

theorem stable_delivTaken (d₀ : Driver) : Stable (delivHandler strict) (Taken strict d₀) :=
  fun d d' hr hi h => ⟨stable_kept d₀ d d' hr hi h.toKept, hr.pending h.pending⟩

/-- An access that delivery does not depend on. -/
structure Apart (f : Driver → Driver) : Prop where
  rx : ∀ d, (f d).rx = d.rx
  log : ∀ d, (f d).log = d.log
  view : ∀ d, view (f d) = view d

theorem Apart.rxShared {f : Driver → Driver} (hf : Apart f) (h : RxShared d) : RxShared (f d) :=
  ⟨by rw [hf.rx, hf.log]; exact h.inv, by rw [hf.rx]; exact h.monitorMode⟩

theorem Apart.pending {f : Driver → Driver} (hf : Apart f) (h : Pending d) : Pending (f d) :=
  ⟨by rw [hf.rx, hf.log]; exact h.tracked, by rw [hf.rx, hf.log]; exact h.count,
    by rw [hf.log]; exact h.le⟩

theorem Apart.unread {f : Driver → Driver} (hf : Apart f) (h : Unread d) : Unread (f d) := by
  have hview := hf.view d
  simp only [RawEconet.view, View.mk.injEq, Delivery.mk.injEq] at hview
  obtain ⟨-, -, -, -, -, -, hup, hun, hus, hack, -⟩ := hview
  exact ⟨by rw [hf.rx, hf.log, hun, hus]; exact h.tracked, by rw [hup, hun, hack]; exact h.acked⟩

theorem Apart.shared {f : Driver → Driver} (hf : Apart f) (h : DelivShared strict d) :
    DelivShared strict (f d) ∧ DelivRely strict d (f d) := by
  refine ⟨h.of_view (hf.view d) (hf.rxShared h.rx) (fun hv => ?_) hf.unread
    (fun _ _ hle => by rw [hf.log]; exact hle), delivRely_of_view (hf.view d)⟩
  rw [frameValid, hf.rx] at hv
  exact hf.pending (h.pending hv)

theorem Apart.handler {f : Driver → Driver} (hf : Apart f) (h : DelivHandler strict d) :
    DelivHandler strict (f d) :=
  delivHandler_of_view h (hf.view d) (hf.rxShared h.rx)

theorem Apart.kept {f : Driver → Driver} (hf : Apart f) (h : Kept strict d₀ d) :
    Kept strict d₀ (f d) :=
  ⟨(hf.shared h.shared).1, (delivThread strict).trans h.rely (hf.shared h.shared).2⟩

/-- What is shown of a piece of the handler. -/
abbrev HandlerKeeps (strict : Bool) (d₀ : Driver) (p : Code α) (d : Driver) : Prop :=
  Safe (delivHandler strict) (DelivCond strict) anyAccess (fun _ d' => Kept strict d₀ d') p d

/-- Code that delivery does not depend on. -/
theorem kept_apart {p : Code α} (hp : p.Acts fun _ f => Apart f) (hd : Kept strict d₀ d) :
    HandlerKeeps strict d₀ p d :=
  safe_of_acts (stable_kept d₀)
    (hp.mono fun _ _ hf _ hi _ hd' => ⟨trivial, hf.handler hi, hf.kept hd'⟩) hd

end Handler

theorem apart_id : Apart id := ⟨fun _ => rfl, fun _ => rfl, fun _ => rfl⟩

theorem apart_read {α : Type} (l : Access) (f : Driver → α) :
    (Prog.read l f : Code α).Acts fun _ f => Apart f := ⟨apart_id, fun _ => trivial⟩

theorem apart_load {α : Type} (f : Driver → α) : (load f).Acts fun _ f => Apart f := apart_read _ f

theorem apart_modify {l : Access} {f : Driver → Driver} (hf : Apart f) :
    (Prog.modify l f : Code Unit).Acts fun _ f => Apart f := ⟨hf, fun _ => trivial⟩

/-- A store to a variable that delivery does not depend on. -/
theorem apart_storeAs {l : Access} {f : Vars → Vars}
    (hf : ∀ v, (f v).portList = v.portList ∧ (f v).bufStart = v.bufStart ∧ (f v).bufLen = v.bufLen ∧
      (f v).pendingPort = v.pendingPort ∧ (f v).fdRxPortmap = v.fdRxPortmap) :
    (storeAs l f).Acts fun _ f => Apart f := by
  refine apart_modify ⟨fun _ => rfl, fun _ => rfl, fun d => ?_⟩
  obtain ⟨h1, h2, h3, h4, h5⟩ := hf d.vars
  simp only [view, h1, h2, h3, h4, h5]

theorem apart_store {f : Vars → Vars}
    (hf : ∀ v, (f v).portList = v.portList ∧ (f v).bufStart = v.bufStart ∧ (f v).bufLen = v.bufLen ∧
      (f v).pendingPort = v.pendingPort ∧ (f v).fdRxPortmap = v.fdRxPortmap) :
    (store f).Acts fun _ f => Apart f :=
  apart_storeAs (l := .plain) hf

theorem apart_storeTimer (f : Timer → Timer) : (storeTimer f).Acts fun _ f => Apart f :=
  apart_modify ⟨fun _ => rfl, fun _ => rfl, fun _ => rfl⟩

theorem apart_storeTx (f : EconetTxBuffered → EconetTxBuffered) :
    (storeTx f).Acts fun _ f => Apart f :=
  apart_modify ⟨fun _ => rfl, fun _ => rfl, fun _ => rfl⟩

theorem apart_storeTxStatus (v : BitVec 32) : (storeTxStatus v).Acts fun _ f => Apart f :=
  apart_modify ⟨fun _ => rfl, fun _ => rfl, fun _ => rfl⟩

theorem apart_econetAck : econetAck.Acts fun _ f => Apart f := by
  refine Prog.acts_bind (apart_storeTxStatus _) fun _ => Prog.acts_bind (apart_load _) fun _ => ?_
  refine Prog.acts_bind (apart_storeTx _) fun _ => Prog.acts_bind (apart_storeTx _) fun _ => ?_
  refine Prog.acts_bind (apart_storeTx _) fun _ => Prog.acts_bind (apart_storeTimer _) fun _ => ?_
  exact apart_storeTimer _

theorem apart_econetRxImm : econetRxImm.Acts fun _ f => Apart f := by
  refine Prog.acts_bind (apart_load _) fun _ => ?_
  split
  · refine Prog.acts_bind (apart_load _) fun _ => ?_
    split
    · refine Prog.acts_bind (apart_storeTxStatus _) fun _ =>
        Prog.acts_bind (apart_load _) fun _ => ?_
      refine Prog.acts_bind (apart_storeTx _) fun _ => Prog.acts_bind (apart_storeTx _) fun _ => ?_
      exact Prog.acts_bind (apart_storeTx _) fun _ => apart_storeTx _
    · trivial
  · trivial

theorem apart_txError : txError.Acts fun _ f => Apart f :=
  Prog.acts_bind (apart_storeAs fun _ => ⟨rfl, rfl, rfl, rfl, rfl⟩) fun _ =>
    apart_store fun _ => ⟨rfl, rfl, rfl, rfl, rfl⟩

theorem apart_rxScoutAck : rxScoutAck.Acts fun _ f => Apart f := by
  refine Prog.acts_bind (apart_load _) fun _ => ?_
  split
  · refine Prog.acts_bind (apart_storeTxStatus _) fun _ => ?_
    refine Prog.acts_bind (apart_storeAs fun _ => ⟨rfl, rfl, rfl, rfl, rfl⟩) fun _ => ?_
    refine Prog.acts_bind (apart_load _) fun _ => Prog.acts_bind (apart_storeTx _) fun _ => ?_
    refine Prog.acts_bind (apart_load _) fun _ => Prog.acts_bind (apart_storeTx _) fun _ => ?_
    exact Prog.acts_bind (apart_storeTimer _) fun _ => apart_storeTimer _
  · exact apart_txError

theorem apart_rxDataAck : rxDataAck.Acts fun _ f => Apart f := by
  refine Prog.acts_bind (apart_load _) fun _ => ?_
  split
  · exact Prog.acts_bind (apart_storeAs fun _ => ⟨rfl, rfl, rfl, rfl, rfl⟩) fun _ =>
      apart_store fun _ => ⟨rfl, rfl, rfl, rfl, rfl⟩
  · exact apart_txError

theorem apart_econetTimeout : econetTimeout.Acts fun _ f => Apart f := by
  refine Prog.acts_bind (apart_storeTimer _) fun _ => Prog.acts_bind (apart_load _) fun _ => ?_
  exact Prog.acts_bind (apart_store fun _ => ⟨rfl, rfl, rfl, rfl, rfl⟩) fun _ =>
    apart_storeAs fun _ => ⟨rfl, rfl, rfl, rfl, rfl⟩

section Handler

variable {strict : Bool} {d₀ d d' : Driver}

/-- A scout names the port of the handshake. -/
theorem Kept.scout (h : Kept strict d₀ d) (port : BitVec 8) :
    Kept strict d₀ { d with
      vars := { d.vars with pendingPort := port.setWidth 32 }
      deliv := { d.deliv with scoutPort := port } } := by
  obtain ⟨hs, hr⟩ := h
  refine ⟨⟨⟨hs.rx.inv, hs.rx.monitorMode⟩, fun hv => ?_, hs.flags, fun hf => ?_, fun hf hrd => ?_,
    hs.reading, rfl, hs.fits, hs.fromPort, hs.inOrder⟩,
    ⟨hr.portmap, hr.reading, hr.returned, hr.acked, fun h => ?_, hr.order⟩⟩
  · exact ⟨(hs.pending hv).tracked, (hs.pending hv).count, (hs.pending hv).le⟩
  · exact ⟨(hs.unread hf).tracked, (hs.unread hf).acked⟩
  · exact ⟨(hs.linked hf hrd).start, (hs.linked hf hrd).len⟩
  · obtain ⟨h1, h2, h3, h4, h5, h6⟩ := hr.held h
    exact ⟨h1, h2, h3, h4, h5, h6⟩

theorem scoutAck_keeps (hd : Kept strict d₀ d) : HandlerKeeps strict d₀ scoutAck d := by
  refine safe_bind ((kept_apart (apart_load _) hd).mono fun len d _ hd => ?_)
  split
  · refine safe_bind ((kept_apart (apart_load _) hd).mono fun port d _ hd => ?_)
    refine safe_bind ((kept_apart (apart_load _) hd).mono fun fd d _ hd => ?_)
    split
    · have hstore : (storeAs .scoutState ({ · with handshakeState := 1#32 })).Acts
          fun _ f => Apart f :=
        apart_storeAs fun _ => ⟨rfl, rfl, rfl, rfl, rfl⟩
      refine safe_bind ((kept_apart hstore hd).mono fun _ d _ hd => ?_)
      refine safe_modify_stable (stable_kept d₀) hd (fun d' hi _ hd' => ?_)
        fun d' _ hd' => kept_apart apart_econetAck hd'
      exact ⟨trivial, ⟨⟨hi.rx.inv, hi.rx.monitorMode⟩, hi.fromPort, hi.inOrder⟩, hd'.scout port⟩
    · exact kept_apart (p := pure ()) trivial hd
  · exact kept_apart apart_econetRxImm hd

/-! ### `.data_ack` -/

/-- A state with the note that `econet_read` copies: nothing is said of `econet_buf_start` and
`econet_buf_len` then. -/
def unlinked (d : Driver) : Driver := { d with deliv := { d.deliv with reading := true } }

/-- The port is marked as ready; `econet_buf_start` and `econet_buf_len` are yet to be stored. -/
structure Marked (strict : Bool) (d₀ d : Driver) : Prop where
  shared : DelivShared strict (unlinked d)
  reading : d.deliv.reading = false
  loose : ¬Fixed strict d₀
  rely : DelivRely strict d₀ d
  start : d.deliv.unreadStart = d.rx.regs.validStart + 2#11
  len : d.deliv.unread.length + 4 = d.rx.regs.validCnt.toNat

theorem view_unlinked (h : view d' = view d) : view (unlinked d') = view (unlinked d) := by
  simp only [view, View.mk.injEq, Delivery.mk.injEq] at h
  simp [view, unlinked, h]

theorem Marked.of_view (h : Marked strict d₀ d) (hview : view d' = view d) (hrx : RxShared d')
    (hp : d'.frameValid = true → Pending d') (hu : Unread d → Unread d')
    (hf : strict = true → d.flag d.deliv.unreadPort = true → d.log.unreadSince ≤ 2048 →
      d'.log.unreadSince ≤ 2048) (hvs : d'.rx.regs.validStart = d.rx.regs.validStart)
    (hvc : d'.rx.regs.validCnt = d.rx.regs.validCnt) : Marked strict d₀ d' := by
  have hview' := hview
  simp only [view, View.mk.injEq, Delivery.mk.injEq] at hview'
  obtain ⟨-, -, -, -, -, -, -, hun, hus, -, -, hrd, -⟩ := hview'
  refine ⟨?_, hrd.trans h.reading, h.loose,
    (delivThread strict).trans h.rely (delivRely_of_view hview), ?_, ?_⟩
  · refine h.shared.of_view (view_unlinked hview) ⟨hrx.inv, hrx.monitorMode⟩ (fun hv => ?_)
      (fun hu' => ?_) hf
    · exact ⟨(hp hv).tracked, (hp hv).count, (hp hv).le⟩
    · have := hu ⟨hu'.tracked, hu'.acked⟩
      exact ⟨this.tracked, this.acked⟩
  · rw [hus, hvs]
    exact h.start
  · rw [hun, hvc]
    exact h.len

theorem stable_marked (d₀ : Driver) : Stable (delivHandler strict) (Marked strict d₀) := by
  intro d d' hr hi h
  refine h.of_view (view_congr hr.vars hr.deliv) hi.rx (fun hv => ?_) hr.unread hr.fits
    hr.start hr.count
  have hp := h.shared.pending (hr.valid.symm.trans hv)
  exact hr.pending ⟨hp.tracked, hp.count, hp.le⟩

theorem marked_apart {α : Type} {p : Code α} (hp : p.Acts fun _ f => Apart f)
    (hd : Marked strict d₀ d) :
    Safe (delivHandler strict) (DelivCond strict) anyAccess
      (fun _ d' => Marked strict d₀ d') p d := by
  refine safe_of_acts (stable_marked d₀) (hp.mono fun _ f hf d' hi _ hd' => ?_) hd
  refine ⟨trivial, hf.handler hi,
    hd'.of_view (hf.view d') (hf.rxShared hi.rx) (fun hv => ?_) hf.unread
    (fun _ _ hle => by rw [hf.log]; exact hle) (by rw [hf.rx]) (by rw [hf.rx])⟩
  rw [frameValid, hf.rx] at hv
  have hp := hd'.shared.pending hv
  exact hf.pending ⟨hp.tracked, hp.count, hp.le⟩

/-- A store to `econet_buf_start` or `econet_buf_len`. -/
theorem Marked.store (h : Marked strict d₀ d) (bufStart bufLen : BitVec 32) :
    Marked strict d₀ { d with vars := { d.vars with bufStart := bufStart, bufLen := bufLen } } := by
  obtain ⟨hs, hrd, hloose, hr, hstart, hlen⟩ := h
  refine ⟨⟨⟨hs.rx.inv, hs.rx.monitorMode⟩, fun hv => ?_, hs.flags, fun hf => ?_,
    fun _ h => Bool.noConfusion h, hs.reading, hs.scout, hs.fits, hs.fromPort, hs.inOrder⟩,
    hrd, hloose,
    ⟨hr.portmap, hr.reading, hr.returned, hr.acked, fun h => absurd h hloose, hr.order⟩,
      hstart, hlen⟩
  · exact ⟨(hs.pending hv).tracked, (hs.pending hv).count, (hs.pending hv).le⟩
  · exact ⟨(hs.unread hf).tracked, (hs.unread hf).acked⟩

/-- With both stored the handler is done with the payload. -/
theorem Marked.kept (h : Marked strict d₀ d) (hl : Linked d) : Kept strict d₀ d := by
  obtain ⟨hs, hrd, -, hr, -, -⟩ := h
  refine ⟨⟨⟨hs.rx.inv, hs.rx.monitorMode⟩, fun hv => ?_, hs.flags, fun hf => ?_, fun _ _ => hl,
    fun h => absurd (hrd.symm.trans h) (by decide), hs.scout, hs.fits, hs.fromPort, hs.inOrder⟩, hr⟩
  · exact ⟨(hs.pending hv).tracked, (hs.pending hv).count, (hs.pending hv).le⟩
  · exact ⟨(hs.unread hf).tracked, (hs.unread hf).acked⟩

/-- An assertion, and a fact of the variables and the record, which the hardware does not touch. -/
theorem stable_with {A : Driver → Prop} (hA : Stable (delivHandler strict) A)
    (P : Vars → Delivery → Prop) :
    Stable (delivHandler strict) fun d => A d ∧ P d.vars d.deliv := by
  intro d d' hr hi h
  refine ⟨hA d d' hr hi h.1, ?_⟩
  rw [hr.vars, hr.deliv]
  exact h.2

/-- A load in the handler. -/
theorem handler_load {α : Type} {A : Driver → Prop} (hA : Stable (delivHandler strict) A) (hd : A d)
    {f : Driver → α} {g : α → Code Unit}
    (h : ∀ d, A d → HandlerKeeps strict d₀ (g (f d)) d) : HandlerKeeps strict d₀ (load f >>= g) d :=
  safe_read_stable hA hd (fun _ _ _ => trivial) fun d' _ _ hd' => h d' hd'

/-- What `.data_ack` knows of the port when it has read it. -/
structure AckPort (strict : Bool) (port : BitVec 8) (v : Vars) (g : Delivery) : Prop where
  scout : g.scoutPort = port
  pending : v.pendingPort.setWidth 8 = port
  reading : g.reading = false
  flags : ∀ q, (v.portList q).getLsbD 7 = true → q = port
  none : strict = true → ∀ q, (v.portList q).getLsbD 7 = false

/-- The condition on the first access of `.data_ack`. -/
theorem ackPort_of_cond (h : DelivShared strict d) (hc : DelivCond strict .dataAck d) :
    AckPort strict (d.vars.pendingPort.setWidth 8) d.vars d.deliv := by
  have hport : d.deliv.scoutPort = d.vars.pendingPort.setWidth 8 := by
    rw [h.scout]
    simp
  cases strict with
  | true =>
    have hno : ∀ q, d.flag q = false := hc
    refine ⟨hport, rfl, ?_, fun q hq => absurd ((hno q).symm.trans hq) (by decide), fun _ => hno⟩
    by_contra hr
    exact absurd ((hno _).symm.trans (h.reading (by simpa using hr))) (by decide)
  | false =>
    have hc' : d.deliv.reading = false ∧
        ∀ q, d.flag q = true → q = d.vars.pendingPort.setWidth 8 := hc
    exact ⟨hport, rfl, hc'.1, hc'.2, fun h => Bool.noConfusion h⟩

/-- The flag of a port once it is set for one port. -/
theorem update_flag (portList : BitVec 8 → BitVec 8) (port fd q : BitVec 8) :
    (Function.update portList port (fd ||| 0x80#8) q).getLsbD 7
      = (decide (q = port) || (portList q).getLsbD 7) := by
  by_cases hq : q = port
  · subst hq
    simp
  · simp [hq]

theorem length_payload {frame : List (BitVec 8)} (h : 4 ≤ frame.length) :
    (payload frame).length + 4 = frame.length := by
  rw [payload, List.length_take, List.length_drop]
  omega

/-- The store that marks the port. -/
theorem Taken.marked {port : BitVec 8} (h : Taken strict d₀ d)
    (hp : AckPort strict port d.vars d.deliv)
    (hsince : strict = true → d.log.since ≤ 2050) (fd : BitVec 8) :
    Marked strict d₀ (acknowledge { d with
      vars :=
        { d.vars with portList := Function.update d.vars.portList port (fd ||| 0x80#8) } }) := by
  obtain ⟨⟨hs, hr⟩, hpend⟩ := h
  obtain ⟨hscout, hpending, hrd, hflags, hnone⟩ := hp
  have hloose : ¬Fixed strict d₀ := fun hfix => by
    rcases hfix.held hr.reading (hr.held hfix) with h | ⟨hst, h⟩
    · exact absurd (hrd.symm.trans h) (by decide)
    · exact absurd ((hnone hst _).symm.trans h) (by decide)
  refine ⟨⟨⟨hs.rx.inv, hs.rx.monitorMode⟩, fun _ => ⟨hpend.tracked, hpend.count, hpend.le⟩, ?_,
    fun _ => ?_,
    fun _ h => Bool.noConfusion h, fun _ => ?_, hs.scout, fun hst _ => ?_, ?_, fun hst q => ?_⟩,
    hrd, hloose, ⟨hr.portmap, hr.reading, hr.returned, hr.acked.trans (List.prefix_append _ _),
      fun h => absurd h hloose, ?_⟩, rfl, ?_⟩
  · intro q hq
    have hq' : (Function.update d.vars.portList port (fd ||| 0x80#8) q).getLsbD 7 = true := hq
    rw [update_flag, Bool.or_eq_true, decide_eq_true_eq] at hq'
    show q = d.vars.pendingPort.setWidth 8
    rw [hpending]
    exact hq'.elim id (hflags q)
  · -- the payload is the frame without the address before it and the check sequence behind it
    constructor
    · exact (hpend.tracked.drop (k := 2) (by have := hpend.le; omega)).take _
    · refine ⟨payload d.log.accepted, ?_, List.suffix_refl _⟩
      show (d.vars.pendingPort.setWidth 8, _) ∈ d.deliv.acked ++ [(d.deliv.scoutPort, _)]
      rw [hpending, hscout]
      exact List.mem_append_right _ List.mem_cons_self
  · show (Function.update d.vars.portList port (fd ||| 0x80#8)
      (d.vars.pendingPort.setWidth 8)).getLsbD 7 = true
    rw [update_flag, hpending]
    simp
  · show d.log.since - 2 ≤ 2048
    have := hsince hst
    omega
  · intro r hret
    obtain ⟨whole, hmem, hin⟩ := hs.fromPort r hret
    exact ⟨whole, List.mem_append_left _ hmem, hin⟩
  · show onPort d.deliv.returned q <+: onPort (d.deliv.acked ++ [(d.deliv.scoutPort, _)]) q
    rw [onPort_append]
    exact (hs.inOrder hst q).trans (List.prefix_append _ _)
  · intro hst xs q heq
    -- no port was ready, so all that was acknowledged before is in `xs`
    have hold := hr.order hst xs q heq
    rw [unreadOn, show d.flag q = false from hnone hst q, if_neg (by decide), List.append_nil]
      at hold
    show onPort (d.deliv.acked ++ [(d.deliv.scoutPort, payload d.log.accepted)]) q
      = xs ++ if (Function.update d.vars.portList port (fd ||| 0x80#8) q).getLsbD 7 then
          payload d.log.accepted else []
    rw [onPort_append, hold, onPort_singleton, update_flag, hnone hst q, Bool.or_false, hscout]
    simp only [decide_eq_true_eq, @eq_comm _ port q]
  · show (payload d.log.accepted).length + 4 = d.rx.regs.validCnt.toNat
    rw [length_payload hpend.le, hpend.count]

/-- `.data_ack` notes the payload of the frame that it acknowledges. -/
theorem dataAck_keeps (hd : Taken strict d₀ d) : HandlerKeeps strict d₀ dataAck d := by
  refine safe_read_stable (stable_delivTaken d₀) hd (fun _ _ _ => trivial) fun d _ hc hd => ?_
  have hport := ackPort_of_cond hd.shared hc
  generalize d.vars.pendingPort.setWidth 8 = port at hport
  have hstable := stable_with (stable_delivTaken d₀ : Stable (delivHandler strict) _)
    (AckPort strict port)
  refine handler_load hstable ⟨hd, hport⟩ fun d hd => ?_
  generalize d.vars.portList port = fd
  refine safe_modify_stable hstable hd
    (fun d hi hc hd => ⟨trivial, ⟨⟨hi.rx.inv, hi.rx.monitorMode⟩, ?_, fun hs => ?_⟩,
      hd.1.marked hd.2 hc fd⟩) fun d _ hd => ?_
  · exact (hd.1.marked hd.2 hc fd).shared.fromPort
  · exact (hd.1.marked hd.2 hc fd).shared.inOrder hs
  have hstore : (store ({ · with handshakeState := 0#32 })).Acts fun _ f => Apart f :=
    apart_store fun _ => ⟨rfl, rfl, rfl, rfl, rfl⟩
  refine safe_bind ((marked_apart hstore hd).mono fun _ d _ hd => ?_)
  -- `econet_buf_start` is the start of the frame without its first two bytes
  refine handler_load (stable_marked d₀) hd fun d hd => ?_
  have hstart : (d.rx.regs.validStart.setWidth 32 + 2#32).setWidth 11 = d.deliv.unreadStart := by
    rw [hd.start]
    bv_omega
  generalize d.rx.regs.validStart.setWidth 32 = start at hstart
  refine safe_modify_stable (B := fun d => Marked strict d₀ d ∧
      d.vars.bufStart.setWidth 11 = d.deliv.unreadStart)
    (stable_with (stable_marked d₀) fun _ g => (start + 2#32).setWidth 11 = g.unreadStart)
    ⟨hd, hstart⟩
    (fun d hi _ hd => ⟨trivial, ⟨⟨hi.rx.inv, hi.rx.monitorMode⟩, hi.fromPort, hi.inOrder⟩,
      hd.1.store (start + 2#32) d.vars.bufLen, hd.2⟩) fun d _ hd => ?_
  -- and `econet_buf_len` its length without these and the check sequence
  have hstable' := stable_with (stable_marked d₀ : Stable (delivHandler strict) _)
    fun v g => v.bufStart.setWidth 11 = g.unreadStart
  refine handler_load hstable' hd fun d hd => ?_
  have hlen : (rxLen d - 4#32).toNat = d.deliv.unread.length := by
    have := hd.1.len
    have hcnt := d.rx.regs.validCnt.isLt
    rw [rxLen, BitVec.toNat_sub, BitVec.toNat_setWidth]
    simp
    omega
  generalize rxLen d = len at hlen
  refine safe_modify_stable (B := Kept strict d₀)
    (stable_with hstable' fun _ g => (len - 4#32).toNat = g.unread.length) ⟨hd, hlen⟩
    (fun d hi _ hd => ⟨trivial, ⟨⟨hi.rx.inv, hi.rx.monitorMode⟩, hi.fromPort, hi.inOrder⟩, ?_⟩)
    fun d _ hd => kept_apart apart_econetAck hd
  exact (hd.1.1.store d.vars.bufStart (len - 4#32)).kept ⟨hd.1.2, hd.2⟩

/-! ### `econet_rx` -/

/-- The handler takes the frame. -/
theorem Taken.sysWrite (h : Taken strict d₀ d) :
    Taken strict d₀ { d with rx := d.rx.step (.sysWrite 7#4 1#4 1#32) } := by
  obtain ⟨⟨hs, hr⟩, hp⟩ := h
  refine ⟨⟨⟨⟨hs.rx.inv.sysWrite _ _ _, hs.rx.monitorMode⟩, fun hv => Bool.noConfusion hv, hs.flags,
    fun hf => ?_, fun hf hrd => ?_, hs.reading, hs.scout, hs.fits, hs.fromPort, hs.inOrder⟩,
    ⟨hr.portmap, hr.reading, hr.returned, hr.acked, fun h => ?_, hr.order⟩⟩,
    ⟨hp.tracked, hp.count, hp.le⟩⟩
  · exact ⟨(hs.unread hf).tracked, (hs.unread hf).acked⟩
  · exact ⟨(hs.linked hf hrd).start, (hs.linked hf hrd).len⟩
  · obtain ⟨h1, h2, h3, h4, h5, h6⟩ := hr.held h
    exact ⟨h1, h2, h3, h4, h5, h6⟩

theorem Apart.taken {f : Driver → Driver} (hf : Apart f) (h : Taken strict d₀ d) :
    Taken strict d₀ (f d) :=
  ⟨hf.kept h.toKept, hf.pending h.pending⟩

theorem econetRx_keeps (hd : Taken strict d₀ d) : HandlerKeeps strict d₀ econetRx d := by
  refine safe_modify_stable (stable_delivTaken d₀) hd
    (fun d hi _ hd => ⟨trivial,
      ⟨⟨hi.rx.inv.sysWrite _ _ _, hi.rx.monitorMode⟩, hi.fromPort, hi.inOrder⟩,
      hd.sysWrite⟩) fun d _ hd => ?_
  have htimer : Apart fun d => { d with timer := d.timer.writeStatus 1#32 } :=
    ⟨fun _ => rfl, fun _ => rfl, fun _ => rfl⟩
  refine safe_modify_stable (stable_delivTaken d₀) hd
    (fun d hi _ hd => ⟨trivial, htimer.handler hi, htimer.taken hd⟩) fun d _ hd => ?_
  refine handler_load (stable_delivTaken d₀) hd fun d hd => ?_
  rw [hd.shared.rx.monitorMode, if_neg (by decide)]
  refine handler_load (stable_delivTaken d₀) hd fun d hd => ?_
  split_ifs
  · exact scoutAck_keeps hd.toKept
  · exact dataAck_keeps hd
  · exact kept_apart apart_rxScoutAck hd.toKept
  · exact kept_apart apart_rxDataAck hd.toKept
  · exact kept_apart (p := pure ()) trivial hd.toKept

/-- **The handler** keeps to what the thread relies on. -/
theorem isrTrap_keeps (hd : DelivShared strict d) :
    HandlerKeeps strict d isrTrap d := by
  have hkept : Kept strict d d := ⟨hd, (delivThread strict).refl d⟩
  refine handler_load (stable_kept d) hkept fun d' hd' => ?_
  cases hv : d'.frameValid with
  | true => exact econetRx_keeps ⟨hd', hd'.shared.pending hv⟩
  | false =>
    refine kept_apart (Prog.acts_bind (apart_load _) fun timeout => ?_) hd'
    split
    · exact apart_econetTimeout
    · trivial

end Handler

/-! ### Calls -/

section Calls

variable {strict : Bool} {d : Driver} {α : Type} {past : List (BitVec 8 × List (BitVec 8))}

/-- No `econet_read` copies, with `strict` nothing is lost, and at least `past` is returned. -/
structure DelivIdle (strict : Bool) (past : List (BitVec 8 × List (BitVec 8))) (d : Driver) :
    Prop where
  reading : d.deliv.reading = false
  complete : strict = true → Complete d
  past : past <+: d.deliv.returned

/-- What is shown of a call. -/
abbrev CallKeeps (strict : Bool) (past : List (BitVec 8 × List (BitVec 8))) (p : Code Reply)
    (d : Driver) : Prop :=
  Safe (delivThread strict) (DelivCond strict) anyAccess
    (fun a d' => DelivShared strict (finish a d') ∧ DelivIdle strict past (finish a d')) p d

theorem Complete.rely {d' : Driver} (hs : strict = true) (h : Complete d)
    (hr : DelivRely strict d d') :
    Complete d' := by
  intro port
  rw [hr.returned]
  exact hr.order hs _ port (h port)

theorem stable_delivIdle : Stable (delivThread strict) (DelivIdle strict past) :=
  fun _ _ hr _ h => ⟨hr.reading.trans h.reading, fun hs => (h.complete hs).rely hs hr,
    by rw [hr.returned]; exact h.past⟩

/-- Code that delivery does not depend on. -/
theorem idle_apart {p : Code α} (hp : p.Acts fun _ f => Apart f) (hd : DelivIdle strict past d) :
    Safe (delivThread strict) (DelivCond strict) anyAccess
    (fun _ d' => DelivIdle strict past d') p d := by
  refine safe_of_acts stable_delivIdle (hp.mono fun _ f hf d' hi _ hd' => ?_) hd
  obtain ⟨h1, h2⟩ := hf.shared hi
  exact ⟨trivial, h1, stable_delivIdle d' (f d') h2 h1 hd'⟩

/-- A reply that gives no bytes. -/
theorem idle_pure {a : Reply} (ha : ∀ d, finish a d = d) (hd : DelivIdle strict past d) :
    CallKeeps strict past (pure a) d := by
  refine safe_ret_stable stable_delivIdle hd fun d' hi hd' => ?_
  rw [ha]
  exact ⟨hi, hd'⟩

theorem apart_wait {cs : List (Access × (Driver → Bool))} {last : Access × (Driver → Bool)}
    {exit : Driver → Driver} (hexit : Apart exit) :
    (Prog.wait cs last exit).Acts fun _ f => Apart f :=
  ⟨fun _ _ => apart_id, fun _ _ => apart_id, hexit, trivial⟩

theorem econetPeek_keeps (fd : Fd) (hd : DelivIdle strict past d) :
    CallKeeps strict past (econetPeek fd) d := by
  have hcount : ∀ {d : Driver}, DelivIdle strict past d →
      CallKeeps strict past (load (·.vars.bufLen) >>= fun n => pure (.count n)) d := fun hd =>
    safe_bind ((idle_apart (apart_load _) hd).mono fun _ _ _ hd => idle_pure (fun _ => rfl) hd)
  refine safe_bind ((idle_apart (apart_load _) hd).mono fun monitor d _ hd => ?_)
  split
  · exact hcount hd
  refine safe_bind ((idle_apart (apart_load _) hd).mono fun port d _ hd => ?_)
  split
  · exact idle_pure (fun _ => rfl) hd
  refine safe_bind ((idle_apart (apart_load _) hd).mono fun ready d _ hd => ?_)
  split
  · exact hcount hd
  · exact idle_pure (fun _ => rfl) hd

theorem apart_copyTx (cs : List ℕ) (offset : ℕ) (bytes : List (BitVec 8)) :
    (copyTx cs offset bytes).Acts fun _ f => Apart f := by
  induction cs generalizing offset bytes with
  | nil => trivial
  | cons c cs ih => exact Prog.acts_bind (apart_storeTx _) fun _ => ih _ _

theorem apart_setUpFrames (dest : EconetAddr) (ptr : BitVec 32) (bytes : List (BitVec 8)) :
    (setUpFrames dest ptr bytes).Acts fun _ f => Apart f := by
  refine Prog.acts_bind (apart_store fun _ => ⟨rfl, rfl, rfl, rfl, rfl⟩) fun _ => ?_
  refine Prog.acts_bind (apart_load _) fun address => Prog.acts_bind (apart_storeTx _) fun _ => ?_
  refine Prog.acts_bind (apart_storeTx _) fun _ => Prog.acts_bind (apart_storeTx _) fun _ => ?_
  refine Prog.acts_bind (apart_storeTx _) fun _ => Prog.acts_bind (apart_copyTx _ _ _) fun _ => ?_
  refine Prog.acts_bind (apart_store fun _ => ⟨rfl, rfl, rfl, rfl, rfl⟩) fun _ => ?_
  refine Prog.acts_bind (apart_store fun _ => ⟨rfl, rfl, rfl, rfl, rfl⟩) fun _ => ?_
  refine Prog.acts_bind (apart_storeTimer _) fun _ =>
    Prog.acts_bind (apart_storeTimer _) fun _ => ?_
  refine Prog.acts_bind (apart_storeAs fun _ => ⟨rfl, rfl, rfl, rfl, rfl⟩) fun _ => ?_
  exact apart_storeTx _

theorem awaitHandshake_keeps (count : BitVec 32) (hd : DelivIdle strict past d) :
    CallKeeps strict past (awaitHandshake count) d := by
  have hstore : (store ({ · with mstatus := true })).Acts fun _ f => Apart f :=
    apart_store fun _ => ⟨rfl, rfl, rfl, rfl, rfl⟩
  refine safe_bind ((idle_apart hstore hd).mono fun _ d _ hd => ?_)
  refine safe_bind ((idle_apart (apart_wait apart_id) hd).mono fun _ d _ hd => ?_)
  refine safe_bind ((idle_apart (apart_load _) hd).mono fun status d _ hd => ?_)
  split
  · exact idle_pure (fun _ => rfl) hd
  refine safe_bind ((idle_apart (apart_load _) hd).mono fun timeout d _ hd => ?_)
  split
  · exact idle_pure (fun _ => rfl) hd
  · exact idle_pure (fun _ => rfl) hd

theorem econetWrite_keeps (fd : Fd) (ptr : BitVec 32) (bytes : List (BitVec 8))
    (hd : DelivIdle strict past d) : CallKeeps strict past (econetWrite fd ptr bytes) d := by
  have htxStatus : (store ({ · with txStatus := 0#32 })).Acts fun _ f => Apart f :=
    apart_store fun _ => ⟨rfl, rfl, rfl, rfl, rfl⟩
  have htimeout : (store ({ · with timeoutState := 0#32 })).Acts fun _ f => Apart f :=
    apart_store fun _ => ⟨rfl, rfl, rfl, rfl, rfl⟩
  have hbegin : Apart Driver.beginWrite := ⟨fun _ => rfl, fun _ => rfl, fun _ => rfl⟩
  have hrequest : Apart fun d =>
      { d with tx := d.tx.writeEnd 5#32, deliv := { d.deliv with writing := false } } :=
    ⟨fun _ => rfl, fun _ => rfl, fun _ => rfl⟩
  unfold econetWrite
  split
  · exact idle_pure (fun _ => rfl) hd
  refine safe_bind ((idle_apart htxStatus hd).mono fun _ d _ hd => ?_)
  refine safe_bind ((idle_apart htimeout hd).mono fun _ d _ hd => ?_)
  refine safe_bind ((idle_apart (apart_storeTxStatus _) hd).mono fun _ d _ hd => ?_)
  refine safe_bind ((idle_apart (apart_load _) hd).mono fun dest d _ hd => ?_)
  split
  · exact idle_pure (fun _ => rfl) hd
  refine safe_bind ((idle_apart (apart_wait hbegin) hd).mono fun _ d _ hd => ?_)
  refine safe_bind ((idle_apart (apart_setUpFrames dest ptr bytes) hd).mono fun _ d _ hd => ?_)
  refine safe_bind ((idle_apart (apart_modify hrequest) hd).mono fun _ d _ hd => ?_)
  exact awaitHandshake_keeps _ hd

/-! ### `econet_read` -/

/-- What `econet_read` copies: the part of a payload of a port that is not read; and what was
returned before. -/
structure Job where
  port : BitVec 8
  unread : List (BitVec 8)
  unreadStart : BitVec 11
  bufStart : BitVec 32
  returned : List (BitVec 8 × List (BitVec 8))

/-- The variables delimit what `econet_read` copies. -/
structure Job.Linked (j : Job) (bufLen : BitVec 32) : Prop where
  start : j.bufStart.setWidth 11 = j.unreadStart
  len : bufLen.toNat = j.unread.length

/-- `econet_read` copies. -/
structure Copying (strict : Bool) (j : Job) (bufLen : BitVec 32) (d : Driver) : Prop where
  reading : d.deliv.reading = true
  port : d.deliv.unreadPort = j.port
  unread : d.deliv.unread = j.unread
  unreadStart : d.deliv.unreadStart = j.unreadStart
  bufStart : d.vars.bufStart = j.bufStart
  bufLen : d.vars.bufLen = bufLen
  returned : d.deliv.returned = j.returned
  complete : strict = true → Complete d

variable {j : Job} {bufLen n : BitVec 32}

theorem stable_copying : Stable (delivThread strict) (Copying strict j bufLen) := by
  intro d d' hr _ h
  obtain ⟨-, hbs, hbl, hup, hun, hus⟩ := hr.held (Or.inl h.reading)
  exact ⟨hr.reading.trans h.reading, hup.trans h.port, hun.trans h.unread, hus.trans h.unreadStart,
    hbs.trans h.bufStart, hbl.trans h.bufLen, hr.returned.trans h.returned,
    fun hs => (h.complete hs).rely hs hr⟩

/-- A load while `econet_read` copies. -/
theorem copying_load {β : Type} {f : Driver → α} {g : α → Code β} {Q : β → Driver → Prop}
    (hd : Copying strict j bufLen d)
    (h : ∀ d, Copying strict j bufLen d →
      Safe (delivThread strict) (DelivCond strict) anyAccess Q (g (f d)) d) :
    Safe (delivThread strict) (DelivCond strict) anyAccess Q (load f >>= g) d :=
  safe_read_stable stable_copying hd (fun _ _ _ => trivial) fun d' _ _ hd' => h d' hd'

/-- The start of the copy. -/
theorem copying_begin (hi : DelivShared strict d) (hd : DelivIdle strict past d) {port : BitVec 8}
    (hf : d.flag port = true) :
    let j : Job := ⟨port, d.deliv.unread, d.deliv.unreadStart, d.vars.bufStart, d.deliv.returned⟩
    j.Linked d.vars.bufLen ∧ DelivShared strict d.beginRead ∧
      Copying strict j d.vars.bufLen d.beginRead := by
  have hport := hi.flags port hf
  have hf' : d.flag d.deliv.unreadPort = true := by rwa [← hport]
  obtain ⟨h1, h2⟩ := hi.linked hf' hd.reading
  refine ⟨⟨h1, h2⟩, ?_, ⟨rfl, hport.symm, rfl, rfl, rfl, rfl, rfl, hd.complete⟩⟩
  refine ⟨⟨hi.rx.inv, hi.rx.monitorMode⟩, fun hv => ?_, hi.flags, fun _ => ?_,
    fun _ h => Bool.noConfusion h, fun _ => hf', hi.scout, hi.fits, hi.fromPort, hi.inOrder⟩
  · exact ⟨(hi.pending hv).tracked, (hi.pending hv).count, (hi.pending hv).le⟩
  · exact ⟨(hi.unread hf').tracked, (hi.unread hf').acked⟩

theorem copySize_copying (count : BitVec 32) (hd : Copying strict j bufLen d) :
    Safe (delivThread strict) (DelivCond strict) anyAccess
      (fun n d' => n.toNat = min count.toNat bufLen.toNat ∧ Copying strict j bufLen d')
      (copySize count) d := by
  refine copying_load hd fun d hd => ?_
  rw [hd.bufLen]
  split
  · next hlt =>
    refine safe_ret_stable stable_copying hd fun d _ hd => ⟨?_, hd⟩
    exact (min_eq_left (BitVec.le_of_lt hlt)).symm
  · next hge =>
    intro d' hr hi _
    have hd' := stable_copying d d' hr hi hd
    refine ⟨trivial, hi, safe_ret_stable stable_copying hd' fun _ _ hd'' => ⟨?_, hd''⟩⟩
    show d'.vars.bufLen.toNat = _
    rw [hd'.bufLen]
    exact (min_eq_right (BitVec.not_lt.mp hge)).symm

theorem sum_memcpyChunks (dest src : BitVec 32) (n : ℕ) : (memcpyChunks dest src n).sum = n := by
  unfold memcpyChunks
  split
  · rw [List.sum_append, List.sum_replicate_nat, List.sum_replicate_nat]
    omega
  · rw [List.sum_replicate_nat, mul_one]

/-- The bytes of the payload, `k` behind its start, as the buffer has them. -/
theorem Copying.slice_eq (hd : Copying strict j bufLen d) (hi : DelivShared strict d)
    (hc : DelivCond strict .rxRead d) {k c : ℕ} (hk : k + c ≤ j.unread.length) :
    Ring.slice d.rx.regs.econetBuf (j.unreadStart + BitVec.ofNat 11 k) c =
      (j.unread.drop k).take c := by
  have hf := hi.reading hd.reading
  have hsince : d.log.unreadSince ≤ 2048 := by
    cases strict with
    | true => exact hi.fits rfl hf
    | false => exact hc rfl
  have htracked := (hi.unread hf).tracked
  rw [hd.unread, hd.unreadStart] at htracked
  exact htracked.slice_eq hsince hk

theorem copyRx_copying (cs : List ℕ) {k : ℕ} {src : BitVec 32}
    (hsrc : src.setWidth 11 = j.unreadStart + BitVec.ofNat 11 k) (hk : k + cs.sum ≤ j.unread.length)
    (hd : Copying strict j bufLen d) :
    Safe (delivThread strict) (DelivCond strict) anyAccess
      (fun bytes d' => bytes = (j.unread.drop k).take cs.sum ∧ Copying strict j bufLen d')
      (copyRx cs src) d := by
  induction cs generalizing k src d with
  | nil => exact safe_ret_stable stable_copying hd fun d' _ hd' => ⟨by simp, hd'⟩
  | cons c cs ih =>
    rw [List.sum_cons] at hk
    refine safe_read_stable stable_copying hd (fun _ _ _ => trivial) fun d hi hc hd => ?_
    have hsrc' : (src + BitVec.ofNat 32 c).setWidth 11 =
        j.unreadStart + BitVec.ofNat 11 (k + c) := by
      rw [BitVec.setWidth_add _ _ (by decide), hsrc, BitVec.setWidth_ofNat_of_le (by decide),
        BitVec.ofNat_add, BitVec.add_assoc]
    have hfirst := hd.slice_eq hi hc (k := k) (c := c) (by omega)
    rw [← hsrc] at hfirst
    rw [hfirst]
    refine safe_bind ((ih hsrc' (by omega) hd).mono fun rest d' _ hd' => ?_)
    refine safe_ret_stable stable_copying hd'.2 fun d'' _ hd'' => ⟨?_, hd''⟩
    rw [hd'.1, List.sum_cons, List.take_add, List.drop_drop]

/-- `econet_read` is about to return these bytes. -/
structure Returning (strict : Bool) (past : List (BitVec 8 × List (BitVec 8))) (port : BitVec 8)
    (bytes : List (BitVec 8)) (d : Driver) : Prop where
  returned : d.deliv.returned = past
  reading : d.deliv.reading = false
  acked : ∃ whole, (port, whole) ∈ d.deliv.acked ∧ bytes <:+: whole
  complete : strict = true → ∀ q, onPort d.deliv.acked q
    = (onPort d.deliv.returned q ++ if port = q then bytes else []) ++ unreadOn d q

theorem stable_returning {port : BitVec 8} {bytes : List (BitVec 8)} :
    Stable (delivThread strict) (Returning strict past port bytes) := by
  intro d d' hr _ h
  obtain ⟨whole, hmem, hin⟩ := h.acked
  refine ⟨hr.returned.trans h.returned, hr.reading.trans h.reading,
    ⟨whole, hr.acked.subset hmem, hin⟩, fun hs q => ?_⟩
  rw [hr.returned]
  exact hr.order hs _ q (h.complete hs q)

/-- The record of the return. -/
theorem returning_finish {port : BitVec 8} {bytes : List (BitVec 8)} (hi : DelivShared strict d)
    (hd : Returning strict past port bytes d) :
    DelivShared strict (finish (.data port bytes) d) ∧
      DelivIdle strict (past ++ [(port, bytes)]) (finish (.data port bytes) d) := by
  have hret : ∀ q, onPort (finish (.data port bytes) d).deliv.returned q
      = onPort d.deliv.returned q ++ if port = q then bytes else [] := fun q => by
    rw [finish, onPort_append, onPort_singleton]
  refine ⟨⟨⟨hi.rx.inv, hi.rx.monitorMode⟩, fun hv => ?_, hi.flags, fun hf => ?_, fun hf hrd => ?_,
    hi.reading, hi.scout, hi.fits, fun r hr => ?_, fun hs q => ?_⟩,
    ⟨hd.reading, fun hs q => ?_, ?_⟩⟩
  · exact ⟨(hi.pending hv).tracked, (hi.pending hv).count, (hi.pending hv).le⟩
  · exact ⟨(hi.unread hf).tracked, (hi.unread hf).acked⟩
  · exact ⟨(hi.linked hf hrd).start, (hi.linked hf hrd).len⟩
  · rcases List.mem_append.mp hr with hr | hr
    · exact hi.fromPort r hr
    · rw [List.mem_singleton.mp hr]
      exact hd.acked
  · rw [hret]
    exact ⟨_, (hd.complete hs q).symm⟩
  · rw [hret]
    exact hd.complete hs q
  · show past ++ [(port, bytes)] <+: d.deliv.returned ++ [(port, bytes)]
    rw [hd.returned]

/-- Only the port of the call is ready. -/
theorem Copying.flag_eq (hd : Copying strict j bufLen d) (hi : DelivShared strict d)
    (q : BitVec 8) :
    d.flag q = decide (j.port = q) := by
  have hf := hi.reading hd.reading
  rw [hd.port] at hf
  by_cases hq : j.port = q
  · rw [decide_eq_true hq, ← hq, hf]
  · rw [decide_eq_false hq, Bool.eq_false_iff]
    exact fun h => hq (hd.port.symm.trans (hi.flags q h).symm)

/-- What was not read before the call, port by port. -/
theorem Copying.unreadOn_eq (hd : Copying strict j bufLen d) (hi : DelivShared strict d)
    (q : BitVec 8) :
    unreadOn d q = if j.port = q then j.unread else [] := by
  rw [unreadOn, hd.unread, hd.flag_eq hi]
  simp only [decide_eq_true_eq]

/-- What is copied belongs to a payload acknowledged for the port. -/
theorem Copying.taken_acked (hd : Copying strict j bufLen d) (hi : DelivShared strict d) (k : ℕ) :
    ∃ whole, (j.port, whole) ∈ d.deliv.acked ∧ j.unread.take k <:+: whole := by
  obtain ⟨whole, hmem, hsuf⟩ := (hi.unread (hi.reading hd.reading)).acked
  rw [hd.port] at hmem
  rw [hd.unread] at hsuf
  exact ⟨whole, hmem, (List.take_prefix k j.unread).isInfix.trans hsuf.isInfix⟩

/-- A part of the payload is left. -/
theorem Copying.keepRest (hl : j.Linked bufLen) (hn : n ≤ bufLen)
    (hd : Copying strict j (bufLen - n) d) (hi : DelivShared strict d) :
    let d' := Driver.keepRest { d with vars := { d.vars with bufStart := j.bufStart + n } } n
    DelivShared strict d' ∧ Returning strict j.returned j.port (j.unread.take n.toNat) d' := by
  intro d'
  have hf := hi.reading hd.reading
  have hlen : n.toNat ≤ j.unread.length := by
    rw [← hl.len]
    exact hn
  have hrest : d'.deliv.unread = j.unread.drop n.toNat := by
    rw [← hd.unread]
    rfl
  obtain ⟨htracked, whole, hmem, hsuf⟩ := hi.unread hf
  refine ⟨⟨⟨hi.rx.inv, hi.rx.monitorMode⟩, fun hv => ?_, hi.flags, fun _ =>
    ⟨?_, ?_⟩, fun _ _ => ⟨?_, ?_⟩,
    fun h => Bool.noConfusion h, hi.scout, fun hs hf' => ?_, hi.fromPort, hi.inOrder⟩,
    ⟨hd.returned, rfl, hd.taken_acked hi _, fun hs q => ?_⟩⟩
  · exact ⟨(hi.pending hv).tracked, (hi.pending hv).count, (hi.pending hv).le⟩
  · have hdrop := htracked.drop (k := n.toNat) (by rw [hd.unread]; exact hlen)
    rw [BitVec.ofNat_toNat] at hdrop
    exact hdrop
  · exact ⟨whole, hmem, (List.drop_suffix _ _).trans hsuf⟩
  · show (j.bufStart + n).setWidth 11 = d.deliv.unreadStart + n.setWidth 11
    rw [BitVec.setWidth_add _ _ (by decide), hl.start, hd.unreadStart]
  · show d.vars.bufLen.toNat = d'.deliv.unread.length
    rw [hrest, List.length_drop, ← hl.len, hd.bufLen, BitVec.toNat_sub_of_le hn]
  · show d.log.unreadSince - n.toNat ≤ 2048
    have := hi.fits hs hf'
    omega
  · -- what is returned and what is left make up what was not read
    have hleft : unreadOn d' q = if j.port = q then j.unread.drop n.toNat else [] := by
      rw [unreadOn, show d'.flag q = d.flag q from rfl, hd.flag_eq hi, hrest]
      simp only [decide_eq_true_eq]
    show onPort d.deliv.acked q = (onPort d.deliv.returned q ++ _) ++ unreadOn d' q
    rw [hd.complete hs q, hd.unreadOn_eq hi q, hleft, List.append_assoc]
    split
    · rw [List.take_append_drop]
    · rfl

/-- The entry of a port that holds a descriptor alone has its ready flag clear. -/
theorem descriptor_unflagged : ∀ fd : Fd, (BitVec.ofNat 8 fd.val).getLsbD 7 = false := by decide

/-- All of the payload is read. -/
theorem Copying.endRead (fd : Fd) (hd : Copying strict j bufLen d) (hi : DelivShared strict d) :
    let d' := Driver.endRead { d with vars := { d.vars with
      portList := Function.update d.vars.portList j.port (BitVec.ofNat 8 fd.val) } }
    DelivShared strict d' ∧ Returning strict j.returned j.port j.unread d' := by
  intro d'
  have hno : ∀ q, d'.flag q = false := by
    intro q
    show (Function.update d.vars.portList j.port (BitVec.ofNat 8 fd.val) q).getLsbD 7 = false
    by_cases hq : q = j.port
    · rw [hq, Function.update_self]
      exact descriptor_unflagged fd
    · rw [Function.update_of_ne hq]
      exact (hd.flag_eq hi q).trans (decide_eq_false (Ne.symm hq))
  refine ⟨⟨⟨hi.rx.inv, hi.rx.monitorMode⟩, fun hv => ?_, fun q hq => ?_, fun hf => ?_, fun hf => ?_,
    fun h => Bool.noConfusion h, hi.scout, fun _ hf => ?_, hi.fromPort, hi.inOrder⟩,
    ⟨hd.returned, rfl, ?_, fun hs q => ?_⟩⟩
  · exact ⟨(hi.pending hv).tracked, (hi.pending hv).count, (hi.pending hv).le⟩
  · exact absurd ((hno q).symm.trans hq) (by decide)
  · exact absurd ((hno _).symm.trans hf) (by decide)
  · exact absurd ((hno _).symm.trans hf) (by decide)
  · exact absurd ((hno _).symm.trans hf) (by decide)
  · have := hd.taken_acked hi j.unread.length
    rwa [List.take_length] at this
  · show onPort d.deliv.acked q = (onPort d.deliv.returned q ++ _) ++ unreadOn d' q
    have hnone : unreadOn d' q = [] := by
      rw [unreadOn, hno]
      rfl
    rw [hd.complete hs q, hd.unreadOn_eq hi q, hnone, List.append_nil]

/-- A store to `econet_buf_len` while `econet_read` copies. -/
theorem Copying.store (hd : Copying strict j bufLen d) (hi : DelivShared strict d) (n : BitVec 32) :
    let d' : Driver := { d with vars := { d.vars with bufLen := n } }
    DelivShared strict d' ∧ Copying strict j n d' := by
  intro d'
  refine ⟨⟨⟨hi.rx.inv, hi.rx.monitorMode⟩, fun hv => ?_, hi.flags, fun hf => ?_,
    fun _ h => ?_, hi.reading,
    hi.scout, hi.fits, hi.fromPort, hi.inOrder⟩, ⟨hd.reading, hd.port, hd.unread, hd.unreadStart,
    hd.bufStart, rfl, hd.returned, hd.complete⟩⟩
  · exact ⟨(hi.pending hv).tracked, (hi.pending hv).count, (hi.pending hv).le⟩
  · exact ⟨(hi.unread hf).tracked, (hi.unread hf).acked⟩
  · exact absurd (hd.reading.symm.trans h) (by decide)

/-- `econet_read` returns the next bytes of the payload. -/
theorem copyOut_keeps (fd : Fd) (ptr count : BitVec 32) (hl : j.Linked bufLen)
    (hd : Copying strict j bufLen d) :
    CallKeeps strict (j.returned ++ [(j.port, j.unread.take count.toNat)])
      (copyOut fd j.port ptr count) d := by
  refine safe_bind ((copySize_copying count hd).mono fun n d _ hd => ?_)
  obtain ⟨hn, hd⟩ := hd
  have htake : j.unread.take n.toNat = j.unread.take count.toNat := by
    rw [hn, hl.len, List.take_eq_take_min]
    simp
  have hle : n ≤ bufLen := by
    show n.toNat ≤ bufLen.toNat
    omega
  refine copying_load hd fun d hd => ?_
  rw [hd.bufStart]
  have hsrc : (0x810000#32 + j.bufStart).setWidth 11 = j.unreadStart + BitVec.ofNat 11 0 := by
    rw [← hl.start]
    bv_omega
  have hsum : 0 + (memcpyChunks ptr (0x810000#32 + j.bufStart) n.toNat).sum ≤ j.unread.length := by
    rw [sum_memcpyChunks, ← hl.len]
    omega
  refine safe_bind ((copyRx_copying _ hsrc hsum hd).mono fun bytes d _ hd => ?_)
  obtain ⟨hbytes, hd⟩ := hd
  rw [List.drop_zero, sum_memcpyChunks] at hbytes
  subst hbytes
  have hreturn : ∀ {d : Driver}, Returning strict j.returned j.port (j.unread.take n.toNat) d →
      CallKeeps strict (j.returned ++ [(j.port, j.unread.take count.toNat)])
        (pure (.data j.port (j.unread.take n.toNat))) d := fun hd => by
    rw [← htake]
    exact safe_ret_stable stable_returning hd fun d hi hd => returning_finish hi hd
  refine copying_load hd fun d hd => ?_
  rw [hd.bufLen]
  split
  · refine copying_load hd fun d hd => ?_
    rw [hd.bufLen]
    refine safe_modify_stable (B := Copying strict j (bufLen - n)) stable_copying hd
      (fun d hi _ hd => ⟨trivial, hd.store hi (bufLen - n)⟩) fun d _ hd => ?_
    refine copying_load hd fun d hd => ?_
    rw [hd.bufStart]
    exact safe_modify_stable (B := Returning strict j.returned j.port (j.unread.take n.toNat))
      stable_copying hd (fun d hi _ hd => ⟨trivial, hd.keepRest hl hle hi⟩) fun d _ hd => hreturn hd
  · next hge =>
    have hall : j.unread.take n.toNat = j.unread := by
      apply List.take_of_length_le
      rw [← hl.len]
      exact BitVec.not_lt.mp hge
    refine safe_modify_stable (B := Returning strict j.returned j.port (j.unread.take n.toNat))
      stable_copying hd (fun d hi _ hd => ⟨trivial, ?_⟩) fun d _ hd => hreturn hd
    rw [hall]
    exact hd.endRead fd hi

/-- `econet_read` under an assertion that the others keep. -/
theorem econetRead_safe (fd : Fd) (ptr count : BitVec 32) {A : Driver → Prop}
    (hA : Stable (delivThread strict) A) (hidle : ∀ d, A d → DelivIdle strict past d) (hd : A d)
    {Q : Reply → Driver → Prop}
    (herror : ∀ d, A d → d.vars.fdRxPortmap fd = 0#8 →
      Safe (delivThread strict) (DelivCond strict) anyAccess Q (pure (.error .einval)) d)
    (hdata : ∀ d, A d → d.flag (d.vars.fdRxPortmap fd) = true → ∀ a d',
      DelivShared strict (finish a d') → DelivIdle strict
        (d.deliv.returned ++ [(d.vars.fdRxPortmap fd, d.deliv.unread.take count.toNat)])
        (finish a d') →
      Q a d') :
    Safe (delivThread strict) (DelivCond strict) anyAccess Q (econetRead fd ptr count) d := by
  refine safe_read_stable hA hd (fun _ _ _ => trivial) fun d hi _ hd => ?_
  have hmonitor : d.rx.regs.monitorMode = false := hi.rx.monitorMode
  simp only [hmonitor, Bool.false_eq_true, if_false]
  refine safe_read_stable hA hd (fun _ _ _ => trivial) fun d _ _ hd => ?_
  split
  · next hport => exact herror d hd hport
  refine safe_wait fun d' hr hi _ => ⟨trivial, fun hpass => ?_⟩
  have hd' := hA d d' hr hi hd
  have hf : d'.flag (d.vars.fdRxPortmap fd) = true := by simpa using hpass
  obtain ⟨hl, hbegin, hcopy⟩ := copying_begin hi (hidle d' hd') hf
  refine ⟨hbegin, (copyOut_keeps fd ptr count hl hcopy).mono fun a d'' _ h => ?_⟩
  rw [← hr.portmap] at hf h
  exact hdata d' hd' hf a d'' h.1 h.2

theorem DelivIdle.mono {past' : List (BitVec 8 × List (BitVec 8))} (h : DelivIdle strict past d)
    (hle : past' <+: past) : DelivIdle strict past' d :=
  ⟨h.reading, h.complete, hle.trans h.past⟩

theorem econetRead_keeps (fd : Fd) (ptr count : BitVec 32) (hd : DelivIdle strict past d) :
    CallKeeps strict past (econetRead fd ptr count) d :=
  econetRead_safe fd ptr count stable_delivIdle (fun _ h => h) hd
    (fun _ hd _ => idle_pure (fun _ => rfl) hd)
    fun _ hd _ _ _ hi hd' => ⟨hi, hd'.mono (hd.past.trans (List.prefix_append _ _))⟩

/-- A port is ready, and what is not read stays as it is. -/
structure PortReady (d₀ : Driver) (d : Driver) : Prop where
  idle : DelivIdle true [] d
  flag : d.flag d.deliv.unreadPort = true
  portmap : d.vars.fdRxPortmap = d₀.vars.fdRxPortmap
  unread : d.deliv.unread = d₀.deliv.unread
  returned : d.deliv.returned = d₀.deliv.returned

theorem stable_portReady (d₀ : Driver) : Stable (delivThread true) (PortReady d₀) := by
  intro d d' hr hi h
  have hheld := hr.held (Or.inr ⟨rfl, h.flag⟩)
  refine ⟨stable_delivIdle d d' hr hi h.idle, ?_, hr.portmap.trans h.portmap,
    hheld.unread.trans h.unread, hr.returned.trans h.returned⟩
  rw [Driver.flag, hheld.portList, hheld.unreadPort]
  exact h.flag

/-- With `strict`, a call of `econet_read` for a ready port returns what is not read, whatever else
happens. -/
theorem econetRead_returns (fd : Fd) (ptr count : BitVec 32) (hi : DelivShared true d)
    (hd : DelivIdle true past d) (hport : d.vars.fdRxPortmap fd ≠ 0#8)
    (hf : d.flag (d.vars.fdRxPortmap fd) = true) :
    CallKeeps true (d.deliv.returned ++ [(d.vars.fdRxPortmap fd, d.deliv.unread.take count.toNat)])
      (econetRead fd ptr count) d := by
  have hready : PortReady d d :=
    ⟨hd.mono List.nil_prefix, by rw [← hi.flags _ hf]; exact hf, rfl, rfl, rfl⟩
  refine econetRead_safe fd ptr count (stable_portReady d) (fun _ h => h.idle) hready
    (fun d' hd' h0 => ?_) fun d' hd' _ a d'' hi' h => ?_
  · rw [hd'.portmap] at h0
    exact absurd h0 hport
  · rw [hd'.portmap, hd'.unread, hd'.returned] at h
    exact ⟨hi', h⟩

/-- **The driver keeps its contracts.** -/
theorem econet_delivVerified (strict : Bool) (past : List (BitVec 8 × List (BitVec 8))) :
    Verified econetKernel (delivThread strict) (delivHandler strict) (DelivCond strict) anyAccess
      (DelivEnv strict) (DelivIdle strict past) where
  env_thread := delivEnv_thread
  env_isr := delivEnv_isr
  isr d hd _ := ⟨⟨hd.rx, hd.fromPort, hd.inOrder⟩,
    (isrTrap_keeps hd).mono fun _ _ _ h => ⟨h.shared, h.rely⟩⟩
  call c d _ hd := by
    cases c with
    | read fd ptr count => exact econetRead_keeps fd ptr count hd
    | peek fd => exact econetPeek_keeps fd hd
    | write fd ptr bytes => exact econetWrite_keeps fd ptr bytes hd
  ready_rely d d' hi hd hr := stable_delivIdle d d' hr hi hd

end Calls

/-! ### Runs -/

/-- What the variables and the receive buffer have for a port. -/
def buffered (d : Driver) (port : BitVec 8) : List (BitVec 8) :=
  if d.flag port then
    Ring.slice d.rx.regs.econetBuf (d.vars.bufStart.setWidth 11) d.vars.bufLen.toNat
  else []

/-- With `strict` this is what is not read. -/
theorem DelivShared.buffered_eq {d : Driver} (h : DelivShared true d) (hr : d.deliv.reading = false)
    (port : BitVec 8) : buffered d port = unreadOn d port := by
  rw [buffered, unreadOn]
  split
  · next hf =>
    have hf' : d.flag d.deliv.unreadPort = true := by rw [← h.flags port hf]; exact hf
    have hslice := (h.unread hf').tracked.slice_eq (h.fits rfl hf') (k := 0)
      (c := d.deliv.unread.length) (by omega)
    rw [(h.linked hf' hr).start, (h.linked hf' hr).len]
    simpa using hslice
  · rfl

theorem copySize_alone (count : BitVec 32) (d : Driver) :
    ∃ n : BitVec 32, n.toNat = min count.toNat d.vars.bufLen.toNat ∧
      (copySize count).alone d = some (n, d) := by
  rw [copySize, load, Prog.alone_read]
  split
  · next hlt => exact ⟨count, (min_eq_left (BitVec.le_of_lt hlt)).symm, rfl⟩
  · next hge => exact ⟨d.vars.bufLen, (min_eq_right (BitVec.not_lt.mp hge)).symm, rfl⟩

theorem copyRx_alone (cs : List ℕ) (src : BitVec 32) (d : Driver) :
    (copyRx cs src).alone d =
    some (Ring.slice d.rx.regs.econetBuf (src.setWidth 11) cs.sum, d) := by
  induction cs generalizing src with
  | nil => rfl
  | cons c cs ih =>
    rw [copyRx, Prog.alone_read, Prog.alone_bind, ih, List.sum_cons, Ring.slice_add,
      BitVec.setWidth_add _ _ (by decide), BitVec.setWidth_ofNat_of_le (by decide)]
    rfl

/-- A call of `econet_read` for a ready port returns. -/
theorem econetRead_alone (fd : Fd) (ptr count : BitVec 32) {d : Driver}
    (hmonitor : d.rx.regs.monitorMode = false) (hport : d.vars.fdRxPortmap fd ≠ 0#8)
    (hf : d.flag (d.vars.fdRxPortmap fd) = true) :
    ∃ d', (econetRead fd ptr count).alone d
        = some (.data (d.vars.fdRxPortmap fd)
          ((buffered d (d.vars.fdRxPortmap fd)).take count.toNat), d') ∧
      d'.deliv.returned = d.deliv.returned := by
  obtain ⟨n, hn, hsize⟩ := copySize_alone count d.beginRead
  have hbytes : Ring.slice d.rx.regs.econetBuf ((0x810000#32 + d.vars.bufStart).setWidth 11) n.toNat
      = (buffered d (d.vars.fdRxPortmap fd)).take count.toNat := by
    have hsrc : (0x810000#32 + d.vars.bufStart).setWidth 11 = d.vars.bufStart.setWidth 11 := by
      bv_omega
    rw [buffered, if_pos hf, Ring.take_slice, hsrc, hn]
    rfl
  have hloop : (!d.flag (d.vars.fdRxPortmap fd)) = false := by rw [hf]; rfl
  rw [econetRead, load, Prog.alone_read, hmonitor, if_neg (by decide), load, Prog.alone_read,
    if_neg hport, Prog.alone_wait hloop, copyOut, Prog.alone_bind, hsize]
  simp only [Option.bind_some, load, store, Prog.alone_read, Prog.alone_bind _ _ d.beginRead,
    copyRx_alone, sum_memcpyChunks]
  rw [show d.beginRead.rx.regs.econetBuf = d.rx.regs.econetBuf from rfl,
    show d.beginRead.vars.bufStart = d.vars.bufStart from rfl, hbytes]
  split
  · exact ⟨_, rfl, rfl⟩
  · exact ⟨_, rfl, rfl⟩

/-- Payloads are acknowledged one at a time and read in time: the condition on the steps of a run
for `delivered_intact`. -/
def ReadInTime (y : System) (e : Event) : Prop := y.Meets (DelivCond true) (DelivEnv true) e

/-- No payload is acknowledged over one of another port: the condition on the steps of a run for
`delivered_fromPort`. -/
def OnePort (y : System) (e : Event) : Prop := y.Meets (DelivCond false) (DelivEnv false) e

instance (strict : Bool) (d : Driver) : ∀ l : Access, Decidable (DelivCond strict l d)
  | .dataAck => inferInstanceAs (Decidable (if strict then ∀ q, d.flag q = false
    else d.deliv.reading = false ∧ ∀ q, d.flag q = true → q = d.vars.pendingPort.setWidth 8))
  | .ready => inferInstanceAs (Decidable (strict = true → d.log.since ≤ 2050))
  | .rxRead => inferInstanceAs (Decidable (strict = false → d.log.unreadSince ≤ 2048))
  | .plain | .txStore | .lineStatus | .lineIdle | .monitor | .scoutState | .scoutPort ..
  | .txScout ..
  | .ackScout | .dataState | .ackData | .errorState | .timeoutState | .bind .. => isTrue trivial

instance (strict inIsr : Bool) (i : Hw) (d : Driver) : Decidable (DelivEnv strict inIsr i d) :=
  inferInstanceAs (Decidable (i = .rise → _ ∧ _))

instance (y : System) (e : Event) : Decidable (ReadInTime y e) :=
  inferInstanceAs (Decidable (y.Meets (DelivCond true) (DelivEnv true) e))

instance (y : System) (e : Event) : Decidable (OnePort y e) :=
  inferInstanceAs (Decidable (y.Meets (DelivCond false) (DelivEnv false) e))

/-- The invariant of a system. -/
abbrev DelivSound (strict : Bool) (past : List (BitVec 8 × List (BitVec 8))) (y : System) : Prop :=
  y.Sound econetKernel (delivThread strict) (delivHandler strict) (DelivCond strict) anyAccess
    (DelivIdle strict past)

theorem Init.delivSound (strict : Bool) {y : System} (hy : Init y) : DelivSound strict [] y := by
  obtain ⟨d, t, i⟩ := y
  obtain rfl : t = none := hy.thread
  obtain rfl : i = none := hy.isr
  have hdeliv : d.deliv = .empty := hy.deliv
  have hframe : d.log.frame = .empty := hy.frame
  have hno : ∀ q, d.flag q = false := hy.flag
  have hrx : RxShared d := ⟨by rw [hframe]; exact .afterReset hy.reset, hy.reset.monitorMode⟩
  refine ⟨⟨hrx, fun h => ?_, fun q h => ?_, fun h => ?_, fun h => ?_, fun h => ?_, ?_,
    fun _ h => ?_, ?_, fun _ q => ?_⟩, ⟨?_, fun _ q => ?_, List.nil_prefix⟩⟩
  · exact absurd (Eq.symm (hy.frameValid : d.frameValid = false) |>.trans h) (by decide)
  · exact absurd ((hno q).symm.trans h) (by decide)
  · exact absurd ((hno _).symm.trans h) (by decide)
  · exact absurd ((hno _).symm.trans h) (by decide)
  · rw [hdeliv] at h
    exact Bool.noConfusion h
  · rw [hdeliv]
    exact hy.pendingPort
  · exact absurd ((hno _).symm.trans h) (by decide)
  · intro r hr
    rw [hdeliv] at hr
    exact absurd hr List.not_mem_nil
  · rw [hdeliv]
    exact List.prefix_refl _
  · show d.deliv.reading = false
    rw [hdeliv]
    rfl
  · rw [unreadOn, hno, hdeliv]
    rfl

/-- No call and no handler is in progress. -/
def AtRest (y : System) : Prop := y.thread = none ∧ y.isr = none

/-- What was acknowledged is delivered.  What was returned on a port is what was acknowledged for
it, in this order, and the variables and the buffer have the rest; a call of `econet_read` for a
ready port returns as much of it as it asks for, whatever happens meanwhile, and it does return. -/
structure Intact (y : System) : Prop where
  inOrder : InOrder y.shared
  rest : AtRest y → ∀ port,
    onPort y.shared.deliv.acked port = onPort y.shared.deliv.returned port ++ buffered y.shared port
  exact : AtRest y → ∀ fd ptr count port, y.shared.vars.fdRxPortmap fd = port → port ≠ 0#8 →
    y.shared.flag port = true → ∀ es,
      Machine.StepsMeet (Interrupted.step econetKernel) ReadInTime y
      (.call (.read fd ptr count) :: es) →
      AtRest (Machine.run (Interrupted.step econetKernel) y (.call (.read fd ptr count) :: es)) →
      y.shared.deliv.returned ++ [(port, (buffered y.shared port).take count.toNat)] <+:
        (Machine.run (Interrupted.step econetKernel) y
          (.call (.read fd ptr count) :: es)).shared.deliv.returned
  returns : AtRest y → ∀ fd ptr count port, y.shared.vars.fdRxPortmap fd = port → port ≠ 0#8 →
    y.shared.flag port = true → ∃ n,
      AtRest (Machine.run (Interrupted.step econetKernel) y (called (.read fd ptr count) n)) ∧
      (Machine.run (Interrupted.step econetKernel) y
          (called (.read fd ptr count) n)).shared.deliv.returned
        = y.shared.deliv.returned ++ [(port, (buffered y.shared port).take count.toNat)]

theorem DelivSound.inOrder {past : List (BitVec 8 × List (BitVec 8))} {y : System}
    (h : DelivSound true past y) : InOrder y.shared := by
  obtain ⟨d, t, i⟩ := y
  cases i with
  | none => exact h.1.inOrder rfl
  | some p => exact h.1.inOrder rfl

theorem DelivSound.fromPort {strict : Bool} {past : List (BitVec 8 × List (BitVec 8))} {y : System}
    (h : DelivSound strict past y) : FromPort y.shared := by
  obtain ⟨d, t, i⟩ := y
  cases i with
  | none => exact h.1.fromPort
  | some p => exact h.1.fromPort

theorem DelivSound.atRest {strict : Bool} {past : List (BitVec 8 × List (BitVec 8))} {y : System}
    (h : DelivSound strict past y) (hy : AtRest y) :
    DelivShared strict y.shared ∧ DelivIdle strict past y.shared := by
  obtain ⟨d, t, i⟩ := y
  obtain rfl : t = none := hy.1
  obtain rfl : i = none := hy.2
  exact h

/-- A ready port has what is not read of the last payload. -/
theorem DelivShared.buffered_ready {d : Driver} (h : DelivShared true d)
    (hr : d.deliv.reading = false)
    {port : BitVec 8} (hf : d.flag port = true) : buffered d port = d.deliv.unread := by
  rw [h.buffered_eq hr, unreadOn, if_pos hf]

theorem DelivSound.intact {y : System} (h : DelivSound true [] y) : Intact y where
  inOrder := h.inOrder
  rest hy port := by
    obtain ⟨hi, hd⟩ := h.atRest hy
    rw [hi.buffered_eq hd.reading]
    exact hd.complete rfl port
  exact hy fd ptr count port hport h0 hf es hes hend := by
    obtain ⟨hi, hd⟩ := h.atRest hy
    subst hport
    rw [hi.buffered_ready hd.reading hf]
    -- from the call on, `ready` also says that its bytes are returned
    have hcall : DelivSound true
        (y.shared.deliv.returned ++
          [(y.shared.vars.fdRxPortmap fd, y.shared.deliv.unread.take count.toNat)])
        (y.step econetKernel (.call (.read fd ptr count))) := by
      obtain ⟨d, t, i⟩ := y
      obtain rfl : t = none := hy.1
      obtain rfl : i = none := hy.2
      exact ⟨hi, econetRead_returns fd ptr count hi hd h0 hf⟩
    have hrun := Interrupted.run_sound (econet_delivVerified true _) hcall es hes.2
    exact (DelivSound.atRest hrun hend).2.past
  returns hy fd ptr count port hport h0 hf := by
    obtain ⟨hi, hd⟩ := h.atRest hy
    subst hport
    obtain ⟨d', halone, hret⟩ := econetRead_alone fd ptr count hi.rx.monitorMode h0 hf
    obtain ⟨n, hn⟩ := Interrupted.run_alone econetKernel halone
    refine ⟨n, ?_⟩
    have hrun : Machine.run (Interrupted.step econetKernel) y (called (.read fd ptr count) n)
        = ⟨finish (.data (y.shared.vars.fdRxPortmap fd)
            ((buffered y.shared (y.shared.vars.fdRxPortmap fd)).take count.toNat)) d',
            none, none⟩ := by
      obtain ⟨d, t, i⟩ := y
      obtain rfl : t = none := hy.1
      obtain rfl : i = none := hy.2
      exact hn
    rw [hrun]
    refine ⟨⟨rfl, rfl⟩, ?_⟩
    show d'.deliv.returned ++ _ = _
    rw [hret]

/-- **Acknowledged data is delivered intact**, in every run from a reset, over every traffic on the
line and every timing of the calls and of the interrupts, whose steps meet the condition. -/
theorem delivered_intact (y : System) (hy : Init y) (es : List Event)
    (hes : Machine.StepsMeet (Interrupted.step econetKernel) ReadInTime y es) :
    Intact (Machine.run (Interrupted.step econetKernel) y es) := by
  have hrun := Interrupted.run_sound (econet_delivVerified true []) (hy.delivSound true) es hes
  exact DelivSound.intact hrun

/-- **No cross-port delivery**, in every run from a reset whose steps meet the condition. -/
theorem delivered_fromPort (y : System) (hy : Init y) (es : List Event)
    (hes : Machine.StepsMeet (Interrupted.step econetKernel) OnePort y es) :
    FromPort (Machine.run (Interrupted.step econetKernel) y es).shared := by
  have hrun := Interrupted.run_sound (econet_delivVerified false []) (hy.delivSound false) es hes
  exact DelivSound.fromPort hrun

/-- A handshake of station 1 for a port, with these bytes behind its address. -/
def handshake (port : BitVec 8) (bytes : List (BitVec 8)) : List Event :=
  fromPeer [0x80#8, port] ++ handled ++ idleLine 75 ++ fromPeer bytes ++ handled ++ idleLine 75

/-- Two bytes for port `0x99`, which are read. -/
def deliveredRun : List Event := handshake 0x99#8 [1#8, 2#8] ++ called (.read 3 0#32 100#32) 30

theorem deliveredRun_intact :
    Intact (Machine.run (Interrupted.step econetKernel) station deliveredRun) ∧
      (Machine.run (Interrupted.step econetKernel) station deliveredRun).shared.deliv.returned
        = [(0x99#8, [1#8, 0#8, 1#8, 2#8])] := by
  have hrun : Machine.RunsTo (Interrupted.step econetKernel) ReadInTime
      (fun y => y.shared.deliv.returned = [(0x99#8, [1#8, 0#8, 1#8, 2#8])]) station
      deliveredRun := by
    decide +kernel
  exact ⟨delivered_intact station init_station deliveredRun hrun.stepsMeet, hrun.run⟩

theorem deliveredRun_fromPort :
    FromPort (Machine.run (Interrupted.step econetKernel) station deliveredRun).shared :=
  delivered_fromPort station init_station deliveredRun (by decide +kernel)

/-- Two bytes for port `0x99`, then two for port `0x9A`, before a program reads on the first. -/
def crossedRun : List Event :=
  handshake 0x99#8 [1#8, 2#8] ++ handshake 0x9A#8 [3#8, 4#8] ++ called (.read 3 0#32 100#32) 30

/-- The program gets the bytes for the other port. -/
theorem crossedRun_records :
    (Machine.run (Interrupted.step econetKernel) station crossedRun).shared.deliv.returned
        = [(0x99#8, [1#8, 0#8, 3#8, 4#8])] ∧
      (Machine.run (Interrupted.step econetKernel) station crossedRun).shared.deliv.acked
        = [(0x99#8, [1#8, 0#8, 1#8, 2#8]), (0x9A#8, [1#8, 0#8, 3#8, 4#8])] := by
  -- all that the condition asks of the line holds in this run
  have hrun : Machine.RunsTo (Interrupted.step econetKernel)
      (fun y e => y.Meets (fun _ _ => True) (DelivEnv true) e)
      (fun y => y.shared.deliv.returned = [(0x99#8, [1#8, 0#8, 3#8, 4#8])] ∧ y.shared.deliv.acked
        = [(0x99#8, [1#8, 0#8, 1#8, 2#8]), (0x9A#8, [1#8, 0#8, 3#8, 4#8])]) station crossedRun := by
    decide +kernel
  exact hrun.run

theorem crossedRun_not_fromPort :
    Init station ∧ ¬FromPort (Machine.run (Interrupted.step econetKernel) station
      crossedRun).shared := by
  refine ⟨init_station, fun h => ?_⟩
  obtain ⟨hret, hack⟩ := crossedRun_records
  obtain ⟨whole, hmem, hin⟩ :=
    h (0x99#8, [1#8, 0#8, 3#8, 4#8]) (by rw [hret]; exact List.mem_cons_self)
  rw [hack] at hmem
  obtain rfl : whole = [1#8, 0#8, 1#8, 2#8] := by simpa using hmem
  exact absurd hin (by decide)

/-- What was acknowledged for the port is not what it gets. -/
theorem crossedRun_not_intact :
    Init station ∧ ¬Intact (Machine.run (Interrupted.step econetKernel) station crossedRun) := by
  have hno : ∀ d : Driver, d.deliv.returned = [(0x99#8, [1#8, 0#8, 3#8, 4#8])] → d.deliv.acked
      = [(0x99#8, [1#8, 0#8, 1#8, 2#8]), (0x9A#8, [1#8, 0#8, 3#8, 4#8])] → ¬InOrder d := by
    intro d hret hack h
    have horder := h 0x99#8
    rw [hret, hack] at horder
    exact absurd horder (by decide)
  exact ⟨init_station, fun h => hno _ crossedRun_records.1 crossedRun_records.2 h.inOrder⟩

end Filestick.RawEconet
