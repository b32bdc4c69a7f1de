import Filestick.Lib.Ghost
import Filestick.System.Equiv.EconetDelivery
import Filestick.System.Equiv.EconetFrames

/-!
# Frames in the monitor mode

In the monitor mode the handler notes each frame by a count, its start and its length, and
`econet_read` returns the frame that these describe while the count is ahead of its own.  A record
beside the driver has the frames that were noted, as the buffer had them, and what each read has
returned.

* `Accounted`: the frames noted are those returned, and the one that is not read if the counts
  differ.
* `monitor_inOrder`: in every run in which a frame is only noted when all before it are read, and is
  still in the buffer when it is read, no frame is returned twice, nor out of order.
-/

namespace Filestick.RawEconet

open Driver

/-! ### The record -/

/-- The frames that the handler has noted, the start of the last one in the buffer, and the counts
and results of the reads. -/
structure MonLog where
  received : List (List (BitVec 8))
  start : BitVec 11
  reads : List (ℕ × List (BitVec 8))

/-- The driver with the record. -/
abbrev MonState := Driver × MonLog

namespace MonLog

/-- The record before anything has happened. -/
def empty : MonLog := ⟨[], 0#11, []⟩

/-- The last frame noted. -/
def newest (x : MonLog) : List (BitVec 8) := x.received.getLastD []

/-- What the reads have returned. -/
def returned (x : MonLog) : List (List (BitVec 8)) := x.reads.map Prod.snd

/-- The frame that the registers of the receiver delimit is noted. -/
def note : Access → Driver → MonLog → MonLog
  | .monitor, d, x =>
    { x with
      received := x.received ++
        [Ring.slice d.rx.regs.econetBuf d.rx.regs.validStart d.rx.regs.validCnt.toNat]
      start := d.rx.regs.validStart }
  | _, _, x => x

/-- A read in the monitor mode returns. -/
def finish : Call → Reply → Driver → MonLog → MonLog
  | .read _ _ count, .monitored bytes, _, x =>
    { x with reads := x.reads ++ [(count.toNat, bytes)] }
  | _, _, _, x => x

/-- The count of each read is at least the length of its frame. -/
def Fits (x : MonLog) : Prop :=
  ∀ (k : ℕ) (f : List (BitVec 8)) (r : ℕ × List (BitVec 8)),
    x.received[k]? = some f → x.reads[k]? = some r → f.length ≤ r.1

/-- No frame is returned twice, nor out of order, if the counts are large enough. -/
def InOrder (x : MonLog) : Prop := x.Fits → x.returned.Sublist x.received

theorem note_of_ne {l : Access} (hl : l ≠ .monitor) (d : Driver) (x : MonLog) :
    note l d x = x := by
  cases l with
  | monitor => exact absurd rfl hl
  | _ => rfl

theorem Fits.of_extends {x x' : MonLog} (h : x'.Fits) (hf : x.received <+: x'.received)
    (hr : x.reads <+: x'.reads) : x.Fits := by
  rcases hf with ⟨fs, hfs⟩
  rcases hr with ⟨rs, hrs⟩
  intro k f r hk hk'
  apply h k f r
  · rw [← hfs, List.getElem?_append_left (List.getElem?_eq_some_iff.mp hk).1, hk]
  · rw [← hrs, List.getElem?_append_left (List.getElem?_eq_some_iff.mp hk').1, hk']

theorem InOrder.of_extends {x x' : MonLog} (h : x.InOrder) (hf : x.received <+: x'.received)
    (hr : x'.reads = x.reads) : x'.InOrder := by
  intro hfits
  have hx : x.Fits := hfits.of_extends hf (by rw [hr])
  have hreturned : x'.returned = x.returned := congrArg (List.map Prod.snd) hr
  rw [hreturned]
  exact (h hx).trans hf.sublist

end MonLog

/-- The driver on its processor, with the record. -/
def monitorKernel : Kernel MonState Access Hw Call (Call × Reply) :=
  econetKernel.observe MonLog.note MonLog.finish

/-- The system with the record. -/
abbrev MonSystem := Interrupted MonState Access (Call × Reply)

/-! ### The conditions -/

/-- The condition on accesses: a frame is noted when all before it are read, and when the buffer is
read it still has the last frame noted. -/
def MonCond (l : Access) (z : MonState) : Prop :=
  (l = .monitor → z.1.vars.monitorFrames = z.1.vars.lastMonitorFrames) ∧
    (l = .rxRead → Ring.Holds z.1.rx.regs.econetBuf z.2.start z.2.newest)

/-- The condition on the line: no frame is accepted while the handler runs. -/
def MonEnv (inIsr : Bool) (i : Hw) (z : MonState) : Prop :=
  inIsr = true → i = .rise → z.1.accepts = false

instance (l : Access) (z : MonState) : Decidable (MonCond l z) :=
  inferInstanceAs (Decidable ((_ → _) ∧ (_ → _)))

instance (inIsr : Bool) (i : Hw) (z : MonState) : Decidable (MonEnv inIsr i z) :=
  inferInstanceAs (Decidable (_ → _ → _))

/-- Nothing more is shown of an access. -/
def AnyMonAccess (_ : Access) (_ : MonState) : Prop := True

/-! ### The contracts -/

/-- The invariant: the handler is at most one frame ahead. -/
structure MonShared (z : MonState) : Prop where
  monitorMode : z.1.rx.regs.monitorMode = true
  ahead : z.1.vars.monitorFrames ≠ z.1.vars.lastMonitorFrames →
    z.1.vars.monitorFrames = z.1.vars.lastMonitorFrames + 1#32
  inOrder : z.2.InOrder

/-- `econet_buf_start` and `econet_buf_len` describe the last frame noted. -/
structure Describes (f : List (BitVec 8)) (z : MonState) : Prop where
  start : z.1.vars.bufStart.setWidth 11 = z.2.start
  len : z.1.vars.bufLen.toNat = f.length

/-- No frame is noted, and the variables stay. -/
structure MonKept (z z' : MonState) : Prop where
  frames : z'.1.vars.monitorFrames = z.1.vars.monitorFrames
  bufStart : z'.1.vars.bufStart = z.1.vars.bufStart
  bufLen : z'.1.vars.bufLen = z.1.vars.bufLen
  received : z'.2.received = z.2.received
  start : z'.2.start = z.2.start

/-- A frame is noted. -/
structure MonNoted (z z' : MonState) : Prop where
  frames : z'.1.vars.monitorFrames ≠ z'.1.vars.lastMonitorFrames
  received : ∃ f, z'.2.received = z.2.received ++ [f] ∧ Describes f z'

/-- What the thread relies on: while a frame is not read, the handler notes none. -/
structure MonRely (z z' : MonState) : Prop where
  reads : z'.2.reads = z.2.reads
  last : z'.1.vars.lastMonitorFrames = z.1.vars.lastMonitorFrames
  noted : MonKept z z' ∨ z.1.vars.monitorFrames = z.1.vars.lastMonitorFrames ∧ MonNoted z z'

theorem MonKept.trans {z z' z'' : MonState} (h : MonKept z z') (h' : MonKept z' z'') :
    MonKept z z'' :=
  ⟨h'.frames.trans h.frames, h'.bufStart.trans h.bufStart, h'.bufLen.trans h.bufLen,
    h'.received.trans h.received, h'.start.trans h.start⟩

theorem Describes.of_kept {f : List (BitVec 8)} {z z' : MonState} (h : Describes f z)
    (hk : MonKept z z') : Describes f z' :=
  ⟨by rw [hk.bufStart, hk.start]; exact h.start, by rw [hk.bufLen]; exact h.len⟩

/-- The contract of the thread. -/
def monThread : Contract MonState where
  inv := MonShared
  rely := MonRely
  refl _ := ⟨rfl, rfl, Or.inl ⟨rfl, rfl, rfl, rfl, rfl⟩⟩
  trans := by
    rintro z z' z'' ⟨hreads, hlast, h⟩ ⟨hreads', hlast', h'⟩
    refine ⟨hreads'.trans hreads, hlast'.trans hlast, ?_⟩
    rcases h with hk | ⟨heq, hn⟩
    · rcases h' with hk' | ⟨heq', hn'⟩
      · exact Or.inl (hk.trans hk')
      · obtain ⟨hf, f, hr, hd⟩ := hn'
        refine Or.inr ⟨?_, hf, f, ?_, hd⟩
        · rw [← hk.frames, ← hlast]
          exact heq'
        · rw [hr, hk.received]
    · rcases h' with hk' | ⟨heq', -⟩
      · obtain ⟨hf, f, hr, hd⟩ := hn
        refine Or.inr ⟨heq, ?_, f, hk'.received.trans hr, hd.of_kept hk'⟩
        rw [hk'.frames, hlast']
        exact hf
      · exact absurd heq' hn.frames

/-- What the handler relies on: the hardware accepts no frame. -/
structure MonHwRely (z z' : MonState) : Prop where
  record : z'.2 = z.2
  vars : z'.1.vars = z.1.vars
  start : z'.1.rx.regs.validStart = z.1.rx.regs.validStart
  count : z'.1.rx.regs.validCnt = z.1.rx.regs.validCnt

/-- The contract of the handler. -/
def monHandler : Contract MonState where
  inv z := z.1.rx.regs.monitorMode = true ∧ z.2.InOrder
  rely := MonHwRely
  refl _ := ⟨rfl, rfl, rfl, rfl⟩
  trans h h' := ⟨h'.record.trans h.record, h'.vars.trans h.vars, h'.start.trans h.start,
    h'.count.trans h.count⟩

/-! ### What is accounted for -/

/-- The frames that were noted are `fs`, and the one that is not read if the counts differ. -/
def Accounted (fs : List (List (BitVec 8))) (z : MonState) : Prop :=
  z.1.vars.monitorFrames = z.1.vars.lastMonitorFrames ∧ z.2.received = fs ∨
    z.1.vars.monitorFrames ≠ z.1.vars.lastMonitorFrames ∧
      ∃ f, z.2.received = fs ++ [f] ∧ Describes f z

/-- Between two calls all frames are accounted for, if the counts were large enough. -/
def MonIdle (z : MonState) : Prop := z.2.Fits → Accounted z.2.returned z

theorem MonRely.received {z z' : MonState} (h : MonRely z z') : z.2.received <+: z'.2.received := by
  rcases h.noted with hk | ⟨-, -, f, hf, -⟩
  · rw [hk.received]
  · exact ⟨[f], hf.symm⟩

theorem MonRely.fits {z z' : MonState} (h : MonRely z z') (hf : z'.2.Fits) : z.2.Fits :=
  hf.of_extends h.received (by rw [h.reads])

/-- While a frame is not read, everything stays. -/
theorem MonRely.kept {z z' : MonState} (h : MonRely z z')
    (hz : z.1.vars.monitorFrames ≠ z.1.vars.lastMonitorFrames) : MonKept z z' :=
  h.noted.resolve_right fun hn => hz hn.1

theorem Accounted.of_reads {fs : List (List (BitVec 8))} {z : MonState} (h : Accounted fs z)
    (rs : List (ℕ × List (BitVec 8))) : Accounted fs (z.1, { z.2 with reads := rs }) := by
  rcases h with h | ⟨hne, f, hf, hd⟩
  · exact Or.inl h
  · exact Or.inr ⟨hne, f, hf, hd.start, hd.len⟩

theorem Accounted.rely {fs : List (List (BitVec 8))} {z z' : MonState} (h : Accounted fs z)
    (hr : MonRely z z') : Accounted fs z' := by
  rcases h with ⟨heq, hf⟩ | ⟨hne, f, hf, hd⟩
  · rcases hr.noted with hk | ⟨-, hne', g, hg, hd⟩
    · left
      exact ⟨hk.frames.trans (heq.trans hr.last.symm), hk.received.trans hf⟩
    · right
      refine ⟨hne', g, ?_, hd⟩
      rw [hg, hf]
  · right
    have hk := hr.kept hne
    refine ⟨?_, f, hk.received.trans hf, hd.of_kept hk⟩
    rw [hk.frames, hr.last]
    exact hne

theorem MonIdle.inOrder {z : MonState} (h : MonIdle z) : z.2.InOrder := by
  intro hfits
  rcases h hfits with ⟨-, hf⟩ | ⟨-, f, hf, -⟩
  · rw [hf]
  · rw [hf]
    exact List.sublist_append_left _ _

theorem stable_monIdle : Stable monThread MonIdle := by
  intro z z' hr _ h hf
  have hacc := (h (hr.fits hf)).rely hr
  have hreturned : z'.2.returned = z.2.returned := congrArg (List.map Prod.snd) hr.reads
  rwa [hreturned]

/-! ### Rules for the thread -/

section Thread

variable {α β α' : Type} {r : α → β} {Q : β → MonState → Prop} {z : MonState}
  {A B : MonState → Prop}

/-- What is shown of a piece of a call. -/
abbrev MonSafe (r : α → β) (Q : β → MonState → Prop) (p : Code α) (z : MonState) : Prop :=
  Safe monThread MonCond AnyMonAccess Q (p.observe MonLog.note r) z

theorem mon_ret {a : α} (hA : Stable monThread A) (hz : A z)
    (h : ∀ z', MonShared z' → A z' → Q (r a) z') : MonSafe r Q (pure a) z :=
  fun z' hr hi => h z' hi (hA z z' hr hi hz)

theorem mon_read {l : Access} {f : Driver → α'} {q : α' → Code α} (hA : Stable monThread A)
    (hz : A z) (hl : l ≠ .monitor)
    (h : ∀ z', MonShared z' → MonCond l z' → A z' → MonSafe r Q (q (f z'.1)) z') :
    MonSafe r Q (Prog.read l f >>= q) z := by
  refine safe_observe_read fun z' hr hi hc => ?_
  have hsame : (z'.1, MonLog.note l z'.1 z'.2) = z' := by rw [MonLog.note_of_ne hl]
  rw [hsame]
  exact ⟨trivial, hi, h z' hi hc (hA z z' hr hi hz)⟩

theorem mon_modify {l : Access} {f : Driver → Driver} {q : Unit → Code α}
    (hA : Stable monThread A) (hz : A z) (hl : l ≠ .monitor)
    (hf : ∀ z', MonShared z' → A z' → MonShared (f z'.1, z'.2) ∧ B (f z'.1, z'.2))
    (h : ∀ z', B z' → MonSafe r Q (q ()) z') : MonSafe r Q (Prog.modify l f >>= q) z := by
  refine safe_observe_modify fun z' hr hi _ => ?_
  obtain ⟨hi', hb⟩ := hf z' hi (hA z z' hr hi hz)
  rw [MonLog.note_of_ne hl]
  exact ⟨trivial, hi', h _ hb⟩

/-- What the reads of the monitor mode depend on. -/
def monPart (d : Driver) : (BitVec 32 × BitVec 32) × (BitVec 32 × BitVec 32) × Bool :=
  ((d.vars.monitorFrames, d.vars.lastMonitorFrames), (d.vars.bufStart, d.vars.bufLen),
    d.rx.regs.monitorMode)

/-- Code that has nothing to do with them. -/
def Unmonitored (p : Code α) : Prop := p.Acts fun l f => l ≠ .monitor ∧ Preserves monPart f

theorem monPart_eq {d d' : Driver} (h : monPart d = monPart d') :
    d.vars.monitorFrames = d'.vars.monitorFrames ∧
      d.vars.lastMonitorFrames = d'.vars.lastMonitorFrames ∧ d.vars.bufStart = d'.vars.bufStart ∧
      d.vars.bufLen = d'.vars.bufLen ∧ d.rx.regs.monitorMode = d'.rx.regs.monitorMode := by
  obtain ⟨⟨h1, h2⟩, ⟨h3, h4⟩, h5⟩ : (d.vars.monitorFrames = d'.vars.monitorFrames ∧
      d.vars.lastMonitorFrames = d'.vars.lastMonitorFrames) ∧
      (d.vars.bufStart = d'.vars.bufStart ∧ d.vars.bufLen = d'.vars.bufLen) ∧
      d.rx.regs.monitorMode = d'.rx.regs.monitorMode := by simpa [monPart] using h
  exact ⟨h1, h2, h3, h4, h5⟩

theorem monShared_of_part {d : Driver} (h : monPart d = monPart z.1) (hi : MonShared z) :
    MonShared (d, z.2) := by
  obtain ⟨h1, h2, -, -, h5⟩ := monPart_eq h
  refine ⟨h5.trans hi.monitorMode, ?_, hi.inOrder⟩
  rw [h1, h2]
  exact hi.ahead

theorem monIdle_of_part {d : Driver} (h : monPart d = monPart z.1) (hz : MonIdle z) :
    MonIdle (d, z.2) := by
  obtain ⟨h1, h2, h3, h4, -⟩ := monPart_eq h
  intro hf
  rcases hz hf with ⟨heq, hr⟩ | ⟨hne, f, hr, hd⟩
  · left
    refine ⟨?_, hr⟩
    rw [h1, h2]
    exact heq
  · right
    refine ⟨?_, f, hr, ?_, ?_⟩
    · rw [h1, h2]
      exact hne
    · rw [h3]
      exact hd.start
    · rw [h4]
      exact hd.len

theorem idle_unmonitored {p : Code α} (hp : Unmonitored p) (hz : MonIdle z) :
    MonSafe r (fun _ z' => MonIdle z') p z := by
  apply safe_observe_of_acts stable_monIdle (hp.mono ?_) hz
  rintro l f ⟨hl, hf⟩
  refine ⟨MonLog.note_of_ne hl, fun z hi _ hz => ?_⟩
  exact ⟨trivial, monShared_of_part (hf z.1) hi, monIdle_of_part (hf z.1) hz⟩

/-! ### Calls that do not read -/

theorem Frame.unmonitored {p : Code α} (hp : Frame monPart p) : Unmonitored p := by
  apply hp.mono
  rintro l f ⟨hl, hf⟩
  refine ⟨?_, hf⟩
  rintro rfl
  exact absurd hl (by decide)

theorem unmonitored_store {l : Access} {f : Driver → Driver} (hl : l ≠ .monitor)
    (hf : Preserves monPart f) : Unmonitored (Prog.modify l f) :=
  ⟨⟨hl, hf⟩, fun _ => trivial⟩

theorem unmonitored_econetWrite (fd : Fd) (ptr : BitVec 32) (bytes : List (BitVec 8)) :
    Unmonitored (econetWrite fd ptr bytes) := by
  apply (writeActs_econetWrite fd ptr bytes).mono
  rintro l f ⟨hl, hf⟩
  exact ⟨hl, fun d => congrArg (fun v => (v.1, v.2.1, v.2.2.1.regs.monitorMode)) (hf d)⟩

/-! ### Reads -/

/-- A read has found a frame that is not read: these are the record and the variables. -/
structure Reading (x : MonLog) (bs bl : BitVec 32) (z : MonState) : Prop where
  frames : z.1.vars.monitorFrames ≠ z.1.vars.lastMonitorFrames
  record : z.2 = x
  bufStart : z.1.vars.bufStart = bs
  bufLen : z.1.vars.bufLen = bl

/-- The last frame noted is the one that is not returned, and the variables describe it. -/
structure MonUnread (x : MonLog) (bs bl : BitVec 32) : Prop where
  received : x.received = x.returned ++ [x.newest]
  start : bs.setWidth 11 = x.start
  len : bl.toNat = x.newest.length

variable {x : MonLog} {bs bl : BitVec 32}

theorem stable_reading : Stable monThread (Reading x bs bl) := by
  intro z z' hr _ h
  have hk := hr.kept h.frames
  refine ⟨?_, ?_, hk.bufStart.trans h.bufStart, hk.bufLen.trans h.bufLen⟩
  · rw [hk.frames, hr.last]
    exact h.frames
  · have hrecord : z'.2 = z.2 := by
      show (⟨z'.2.received, z'.2.start, z'.2.reads⟩ : MonLog) = ⟨z.2.received, z.2.start, z.2.reads⟩
      rw [hk.received, hk.start, hr.reads]
    exact hrecord.trans h.record

theorem unread_of_idle (hz : MonIdle z) (hfits : z.2.Fits)
    (hne : z.1.vars.monitorFrames ≠ z.1.vars.lastMonitorFrames) :
    MonUnread z.2 z.1.vars.bufStart z.1.vars.bufLen := by
  rcases hz hfits with ⟨heq, -⟩ | ⟨-, f, hf, hd⟩
  · exact absurd heq hne
  · have hnewest : z.2.newest = f := by
      rw [MonLog.newest, hf]
      simp
    constructor
    · rw [hnewest]
      exact hf
    · exact hd.start
    · rw [hnewest]
      exact hd.len

theorem reading_load {f : Driver → α'} {q : α' → Code α} (hz : Reading x bs bl z)
    (h : ∀ z', Reading x bs bl z' → MonSafe r Q (q (f z'.1)) z') :
    MonSafe r Q (load f >>= q) z :=
  mon_read stable_reading hz (by decide) fun z' _ _ hz' => h z' hz'

theorem copySize_reading (count : BitVec 32) (hz : Reading x bs bl z) :
    MonSafe (id : BitVec 32 → BitVec 32)
      (fun n z' => n.toNat = min count.toNat bl.toNat ∧ Reading x bs bl z') (copySize count) z := by
  refine reading_load hz fun z hz => ?_
  rw [hz.bufLen]
  split
  · next hlt =>
    exact mon_ret stable_reading hz fun z' _ hz' =>
      ⟨(min_eq_left (BitVec.le_of_lt hlt)).symm, hz'⟩
  · next hge =>
    refine reading_load (q := pure) hz fun z' hz' => mon_ret stable_reading hz' fun _ _ hz'' =>
      ⟨?_, hz''⟩
    show z'.1.vars.bufLen.toNat = _
    rw [hz'.bufLen]
    exact (min_eq_right (BitVec.not_lt.mp hge)).symm

/-- What is copied from the frame, `k` behind its start, is as it was noted. -/
theorem copyRx_reading (cs : List ℕ) {src : BitVec 32} (hz : Reading x bs bl z) :
    MonSafe (id : List (BitVec 8) → List (BitVec 8))
      (fun bytes z' => (∀ k, src.setWidth 11 = x.start + BitVec.ofNat 11 k →
        k + cs.sum ≤ x.newest.length → bytes = (x.newest.drop k).take cs.sum) ∧ Reading x bs bl z')
      (copyRx cs src) z := by
  induction cs generalizing src z with
  | nil => exact mon_ret stable_reading hz fun z' _ hz' => ⟨fun k _ _ => by simp, hz'⟩
  | cons c cs ih =>
    refine mon_read stable_reading hz (by decide) fun z' _ hc hz' => ?_
    refine safe_observe_bind ((ih hz').mono fun rest z'' _ hrest => ?_)
    rcases hrest with ⟨hrest, hz''⟩
    refine mon_ret stable_reading hz'' fun z₃ _ hz₃ => ⟨fun k hsrc hk => ?_, hz₃⟩
    rw [List.sum_cons] at hk
    have hsrc' : (src + BitVec.ofNat 32 c).setWidth 11 = x.start + BitVec.ofNat 11 (k + c) := by
      rw [BitVec.setWidth_add _ _ (by decide), hsrc, BitVec.setWidth_ofNat_of_le (by decide),
        BitVec.ofNat_add, BitVec.add_assoc]
    have hholds : Ring.Holds z'.1.rx.regs.econetBuf x.start x.newest := by
      rw [← hz'.record]
      exact hc.2 rfl
    have hfirst : Ring.slice z'.1.rx.regs.econetBuf (src.setWidth 11) c
        = (x.newest.drop k).take c := by
      rw [hsrc]
      exact hholds.slice_drop (by omega)
    show _ ++ rest = _
    rw [hfirst, hrest (k + c) hsrc' (by omega), List.sum_cons, List.take_add, List.drop_drop]

/-- The record after a read. -/
def MonLog.afterRead (x : MonLog) (count : BitVec 32) (bytes : List (BitVec 8)) : MonLog :=
  { x with reads := x.reads ++ [(count.toNat, bytes)] }

/-- A read that returns these bytes has done what it does. -/
structure ReadOut (x : MonLog) (count : BitVec 32) (bytes : List (BitVec 8)) (z : MonState) :
    Prop where
  reads : z.2.reads = x.reads
  received : x.received <+: z.2.received
  accounted : (x.afterRead count bytes).Fits → Accounted (x.returned ++ [bytes]) z

theorem stable_readOut {count : BitVec 32} {bytes : List (BitVec 8)} :
    Stable monThread (ReadOut x count bytes) := fun _ _ hr _ h =>
  ⟨hr.reads.trans h.reads, h.received.trans hr.received, fun hx => (h.accounted hx).rely hr⟩

/-- What the return of a read makes of the record. -/
theorem ReadOut.idle (fd : Fd) (ptr : BitVec 32) {count : BitVec 32} {bytes : List (BitVec 8)}
    (h : ReadOut x count bytes z) :
    MonIdle (monitorKernel.finish (.read fd ptr count, .monitored bytes) z) := by
  intro hfits
  have hx : (x.afterRead count bytes).Fits := by
    apply MonLog.Fits.of_extends (x := x.afterRead count bytes) hfits h.received
    show x.reads ++ [(count.toNat, bytes)] <+: z.2.reads ++ [(count.toNat, bytes)]
    rw [h.reads]
  have hreturned : (z.2.afterRead count bytes).returned = x.returned ++ [bytes] := by
    simp [MonLog.returned, MonLog.afterRead, h.reads]
  show Accounted (z.2.afterRead count bytes).returned
    (z.1, { z.2 with reads := z.2.reads ++ [(count.toNat, bytes)] })
  rw [hreturned]
  exact (h.accounted hx).of_reads _

/-- If the counts are large enough, the count of this read is. -/
theorem MonUnread.le_count (h : MonUnread x bs bl) {count : BitVec 32} {bytes : List (BitVec 8)}
    (hlen : x.reads.length = x.returned.length) (hx : (x.afterRead count bytes).Fits) :
    bl.toNat ≤ count.toNat := by
  rw [h.len]
  apply hx x.reads.length x.newest (count.toNat, bytes)
  · show x.received[x.reads.length]? = _
    rw [h.received, hlen]
    simp
  · simp [MonLog.afterRead]

/-- The last access of a read that has returned all of the frame. -/
theorem Reading.advance (hi : MonShared z) (hz : Reading x bs bl z) {count : BitVec 32}
    {bytes : List (BitVec 8)}
    (hbytes : (x.afterRead count bytes).Fits → x.received = x.returned ++ [bytes]) :
    let d : Driver :=
      { z.1 with vars := { z.1.vars with lastMonitorFrames := z.1.vars.lastMonitorFrames + 1#32 } }
    MonShared (d, z.2) ∧ ReadOut x count bytes (d, z.2) := by
  intro d
  have heq : d.vars.monitorFrames = d.vars.lastMonitorFrames := hi.ahead hz.frames
  refine ⟨⟨hi.monitorMode, fun hne => absurd heq hne, hi.inOrder⟩, ?_⟩
  constructor
  · exact congrArg MonLog.reads hz.record
  · show x.received <+: z.2.received
    rw [hz.record]
  · intro hx
    left
    refine ⟨heq, ?_⟩
    show z.2.received = _
    rw [hz.record]
    exact hbytes hx

/-- What holds when a call returns. -/
def MonReturns (a : Call × Reply) (z : MonState) : Prop :=
  MonShared (monitorKernel.finish a z) ∧ MonIdle (monitorKernel.finish a z)

/-- A read in the monitor mode. -/
theorem econetMonitor_safe (fd : Fd) (ptr count : BitVec 32) (hz : MonIdle z) :
    MonSafe (Prod.mk (.read fd ptr count)) MonReturns (econetMonitor ptr count) z := by
  refine safe_observe_wait fun z' hr hi _ => ⟨trivial, fun hpass => ⟨hi, ?_⟩⟩
  have hidle := stable_monIdle z z' hr hi hz
  have hne : z'.1.vars.monitorFrames ≠ z'.1.vars.lastMonitorFrames := by
    simpa [Prog.beside] using hpass
  have hunread : z'.2.Fits → MonUnread z'.2 z'.1.vars.bufStart z'.1.vars.bufLen := fun hfits =>
    unread_of_idle hidle hfits hne
  have hz : Reading z'.2 z'.1.vars.bufStart z'.1.vars.bufLen z' := ⟨hne, rfl, rfl, rfl⟩
  generalize z'.2 = x at hunread hz
  generalize z'.1.vars.bufStart = bs at hunread hz
  generalize z'.1.vars.bufLen = bl at hunread hz
  have hlen : x.reads.length = x.returned.length := by simp [MonLog.returned]
  refine safe_observe_bind ((copySize_reading count hz).mono fun n z _ hn => ?_)
  rcases hn with ⟨hn, hz⟩
  refine reading_load hz fun z hz => ?_
  rw [hz.bufStart]
  refine safe_observe_bind ((copyRx_reading _ hz).mono fun bytes z _ hcopy => ?_)
  rcases hcopy with ⟨hcopy, hz⟩
  rw [sum_memcpyChunks] at hcopy
  -- what is copied is the start of the frame, if the counts have been large enough so far
  have hcopied : x.Fits → bytes = x.newest.take n.toNat := fun hfits => by
    have hu := hunread hfits
    rw [hcopy 0 ?_ ?_, List.drop_zero]
    · rw [← hu.start]
      bv_omega
    · rw [← hu.len]
      omega
  have hfits : (x.afterRead count bytes).Fits → x.Fits := fun hx =>
    hx.of_extends (List.prefix_refl _) (List.prefix_append _ _)
  have hreturn : ∀ z', ReadOut x count bytes z' →
      MonSafe (Prod.mk (.read fd ptr count)) MonReturns (pure (.monitored bytes)) z' :=
    fun z' hz' =>
    mon_ret stable_readOut hz' fun z₃ hi hz₃ => by
      have hidle := hz₃.idle fd ptr
      exact ⟨⟨hi.monitorMode, hi.ahead, hidle.inOrder⟩, hidle⟩
  refine reading_load hz fun z hz => ?_
  rw [hz.bufLen]
  split
  · next hlt =>
    -- a part of the frame is left: the count was not large enough
    have hnot : ¬(x.afterRead count bytes).Fits := fun hx => by
      have hle := (hunread (hfits hx)).le_count hlen hx
      have : n.toNat < bl.toNat := hlt
      omega
    refine reading_load hz fun z hz => ?_
    rw [hz.bufLen]
    refine mon_modify (B := Reading x bs (bl - n)) stable_reading hz (by decide)
      (fun z hi hz => ⟨⟨hi.monitorMode, hi.ahead, hi.inOrder⟩, ?_⟩) fun z hz => ?_
    · exact ⟨hz.frames, hz.record, hz.bufStart, rfl⟩
    refine reading_load hz fun z hz => ?_
    rw [hz.bufStart]
    refine mon_modify (B := ReadOut x count bytes) stable_reading hz (by decide)
      (fun z hi hz => ⟨⟨hi.monitorMode, hi.ahead, hi.inOrder⟩, ?_⟩) hreturn
    refine ⟨congrArg MonLog.reads hz.record, ?_, fun hx => absurd hx hnot⟩
    show x.received <+: z.2.received
    rw [hz.record]
  · next hge =>
    refine mon_modify (B := ReadOut x count bytes) stable_reading hz (by decide)
      (fun z hi hz => hz.advance hi fun hx => ?_) hreturn
    have hu := hunread (hfits hx)
    have hall : x.newest.take n.toNat = x.newest := by
      apply List.take_of_length_le
      rw [← hu.len]
      exact BitVec.not_lt.mp hge
    rw [hcopied (hfits hx), hall]
    exact hu.received

/-- A call that does not read. -/
theorem unmonitored_returns {c : Call} {p : Code Reply} (hp : Unmonitored p)
    (hc : ∀ a d x, MonLog.finish c a d x = x) (hz : MonIdle z) :
    MonSafe (Prod.mk c) MonReturns p z := by
  refine safe_observe_map ((idle_unmonitored hp hz).mono fun a z hi hz => ?_)
  have hfin : monPart (finish a z.1) = monPart z.1 := by cases a <;> rfl
  have heq : monitorKernel.finish (c, a) z = (finish a z.1, z.2) := by
    show (finish a z.1, MonLog.finish c a z.1 z.2) = _
    rw [hc]
  rw [MonReturns, heq]
  exact ⟨monShared_of_part hfin hi, monIdle_of_part hfin hz⟩

theorem code_monitor (c : Call) (hz : MonIdle z) : MonSafe (Prod.mk c) MonReturns c.code z := by
  cases c with
  | read fd ptr count =>
    show MonSafe (Prod.mk (.read fd ptr count)) MonReturns (econetRead fd ptr count) z
    unfold econetRead
    refine mon_read stable_monIdle hz (by decide) fun z hi _ hz => ?_
    rw [if_pos hi.monitorMode]
    exact econetMonitor_safe fd ptr count hz
  | peek fd => exact unmonitored_returns (frame_econetPeek fd).unmonitored (fun _ _ _ => rfl) hz
  | write fd ptr bytes =>
    exact unmonitored_returns (unmonitored_econetWrite fd ptr bytes) (fun _ _ _ => rfl) hz

end Thread

/-! ### The handler -/

section Handler

variable {α : Type} {z₀ z : MonState}

/-- What is shown of a piece of the handler. -/
abbrev MonIsr (z₀ : MonState) (p : Code Unit) (z : MonState) : Prop :=
  Safe monHandler MonCond AnyMonAccess (fun _ z' => MonShared z' ∧ MonRely z₀ z')
    (p.observe MonLog.note id) z

/-- Nothing that the reads depend on has changed. -/
def Unchanged (z₀ z : MonState) : Prop := monPart z.1 = monPart z₀.1 ∧ z.2 = z₀.2

theorem stable_unchanged (hmode : z₀.1.rx.regs.monitorMode = true) :
    Stable monHandler (Unchanged z₀) := by
  rintro z z' hr ⟨hi, -⟩ ⟨hpart, hrecord⟩
  obtain ⟨h1, h2, h3, h4, -⟩ := monPart_eq hpart
  constructor
  · simp only [monPart, hr.vars, h1, h2, h3, h4, hi, hmode]
  · exact hr.record.trans hrecord

theorem Unchanged.rely (h : Unchanged z₀ z) (hi : MonShared z₀) : MonShared z ∧ MonRely z₀ z := by
  rcases h with ⟨hpart, hrecord⟩
  obtain ⟨h1, h2, h3, h4, -⟩ := monPart_eq hpart
  have hshared := monShared_of_part hpart hi
  rw [← hrecord] at hshared
  refine ⟨hshared, congrArg MonLog.reads hrecord, h2, Or.inl ⟨h1, h3, h4, ?_, ?_⟩⟩
  · rw [hrecord]
  · rw [hrecord]

theorem unchanged_then {p : Code α} {q : α → Code Unit} (hi : MonShared z₀) (hz : Unchanged z₀ z)
    (hp : Unmonitored p) (h : ∀ a z', Unchanged z₀ z' → MonIsr z₀ (q a) z') :
    MonIsr z₀ (p >>= q) z := by
  have hkeep : Safe monHandler MonCond AnyMonAccess (fun _ z' => Unchanged z₀ z')
      (p.observe MonLog.note id) z := by
    apply safe_observe_of_acts (stable_unchanged hi.monitorMode) (hp.mono ?_) hz
    rintro l f ⟨hl, hf⟩
    refine ⟨MonLog.note_of_ne hl, fun z hinv _ hz => ⟨trivial, ⟨?_, hinv.2⟩, ?_, hz.2⟩⟩
    · exact (monPart_eq (hf z.1)).2.2.2.2.trans hinv.1
    · exact (hf z.1).trans hz.1
  exact safe_observe_bind (hkeep.mono fun a z' _ hz' => h a z' hz')

theorem unchanged_ret (hi : MonShared z₀) (hz : Unchanged z₀ z) : MonIsr z₀ (pure ()) z :=
  fun z' hr hinv => (stable_unchanged hi.monitorMode z z' hr hinv hz).rely hi

/-- The handler notes the frame `f`: these are the registers that delimit it, and the variables. -/
structure Noting (z₀ : MonState) (f : List (BitVec 8)) (start cnt : BitVec 11)
    (frames bs bl : BitVec 32) (z : MonState) : Prop where
  record : z.2 = { z₀.2 with received := z₀.2.received ++ [f], start := start }
  validStart : z.1.rx.regs.validStart = start
  validCnt : z.1.rx.regs.validCnt = cnt
  last : z.1.vars.lastMonitorFrames = z₀.1.vars.lastMonitorFrames
  frames : z.1.vars.monitorFrames = frames
  bufStart : z.1.vars.bufStart = bs
  bufLen : z.1.vars.bufLen = bl

variable {f : List (BitVec 8)} {start cnt : BitVec 11} {frames bs bl : BitVec 32}

theorem stable_noting : Stable monHandler (Noting z₀ f start cnt frames bs bl) := by
  rintro z z' hr - h
  constructor
  · exact hr.record.trans h.record
  · exact hr.start.trans h.validStart
  · exact hr.count.trans h.validCnt
  · rw [hr.vars]; exact h.last
  · rw [hr.vars]; exact h.frames
  · rw [hr.vars]; exact h.bufStart
  · rw [hr.vars]; exact h.bufLen

theorem noting_load {β : Type} {g : Driver → β} {q : β → Code Unit}
    (hz : Noting z₀ f start cnt frames bs bl z)
    (h : ∀ z', Noting z₀ f start cnt frames bs bl z' → MonIsr z₀ (q (g z'.1)) z') :
    MonIsr z₀ (load g >>= q) z := by
  refine safe_observe_read fun z' hr hi _ => ⟨trivial, hi, ?_⟩
  exact h z' (stable_noting z z' hr hi hz)

theorem noting_store {frames' bs' bl' : BitVec 32} {g : Vars → Vars} {q : Unit → Code Unit}
    (hz : Noting z₀ f start cnt frames bs bl z)
    (hg : ∀ v, (g v).lastMonitorFrames = v.lastMonitorFrames)
    (hframes : ∀ v, v.monitorFrames = frames → (g v).monitorFrames = frames')
    (hstart : ∀ v, v.bufStart = bs → (g v).bufStart = bs')
    (hlen : ∀ v, v.bufLen = bl → (g v).bufLen = bl')
    (h : ∀ z', Noting z₀ f start cnt frames' bs' bl' z' → MonIsr z₀ (q ()) z') :
    MonIsr z₀ (store g >>= q) z := by
  refine safe_observe_modify fun z' hr hi _ => ⟨trivial, hi, ?_⟩
  have hz' := stable_noting z z' hr hi hz
  apply h
  exact ⟨hz'.record, hz'.validStart, hz'.validCnt, (hg _).trans hz'.last, hframes _ hz'.frames,
    hstart _ hz'.bufStart, hlen _ hz'.bufLen⟩

/-- A frame is noted. -/
theorem Noting.settled (heq : z₀.1.vars.monitorFrames = z₀.1.vars.lastMonitorFrames)
    (hf : cnt.toNat = f.length) (hinv : monHandler.inv z)
    (h : Noting z₀ f start cnt (z₀.1.vars.monitorFrames + 1#32) (start.setWidth 32)
      (cnt.setWidth 32) z) : MonShared z ∧ MonRely z₀ z := by
  have hframes : z.1.vars.monitorFrames = z.1.vars.lastMonitorFrames + 1#32 := by
    rw [h.frames, h.last, heq]
  refine ⟨⟨hinv.1, fun _ => hframes, hinv.2⟩, ?_, h.last, Or.inr ⟨heq, ?_, f, ?_, ?_⟩⟩
  · rw [h.record]
  · rw [hframes]
    bv_omega
  · rw [h.record]
  · constructor
    · rw [h.bufStart, h.record]
      show (start.setWidth 32).setWidth 11 = start
      bv_omega
    · rw [h.bufLen, ← hf, BitVec.toNat_setWidth]
      omega

theorem rxMonitor_notes (hi : MonShared z₀) (hz : Unchanged z₀ z) : MonIsr z₀ rxMonitor z := by
  unfold rxMonitor
  refine safe_observe_read fun z' hr hinv hc => ⟨trivial, ?_, ?_⟩
  · exact ⟨hinv.1, hinv.2.of_extends (List.prefix_append _ _) rfl⟩
  obtain ⟨hpart, hrecord⟩ := stable_unchanged hi.monitorMode z z' hr hinv hz
  obtain ⟨h1, h2, h3, h4, -⟩ := monPart_eq hpart
  have heq : z₀.1.vars.monitorFrames = z₀.1.vars.lastMonitorFrames := by
    rw [← h1, ← h2]
    exact hc.1 rfl
  have hnoting : Noting z₀
      (Ring.slice z'.1.rx.regs.econetBuf z'.1.rx.regs.validStart z'.1.rx.regs.validCnt.toNat)
      z'.1.rx.regs.validStart z'.1.rx.regs.validCnt z₀.1.vars.monitorFrames z₀.1.vars.bufStart
      z₀.1.vars.bufLen (z'.1, MonLog.note .monitor z'.1 z'.2) := by
    refine ⟨?_, rfl, rfl, h2, h1, h3, h4⟩
    show MonLog.note .monitor z'.1 z'.2 = _
    rw [hrecord]
    rfl
  rw [h1]
  -- the three stores
  refine noting_store hnoting (fun _ => rfl) (fun _ _ => rfl) (fun _ h => h) (fun _ h => h)
    fun z hz => ?_
  refine noting_load hz fun z hz => ?_
  rw [hz.validStart]
  refine noting_store hz (fun _ => rfl) (fun _ h => h) (fun _ _ => rfl) (fun _ h => h)
    fun z hz => ?_
  refine noting_load hz fun z hz => ?_
  rw [rxLen, hz.validCnt]
  show MonIsr z₀ (store (fun v : Vars => { v with bufLen := _ }) >>= pure) z
  refine noting_store hz (fun _ => rfl) (fun _ h => h) (fun _ h => h) (fun _ _ => rfl)
    fun z hz => ?_
  intro z'' hr hinv
  exact (stable_noting z z'' hr hinv hz).settled heq (Ring.length_slice _ _ _).symm hinv

theorem unmonitored_econetTimeout : Unmonitored econetTimeout := by
  refine Prog.acts_bind (unmonitored_store (by decide) fun _ => rfl) fun _ =>
    Prog.acts_bind (frame_load _).unmonitored fun _ => ?_
  exact Prog.acts_bind (unmonitored_store (by decide) fun _ => rfl) fun _ =>
    unmonitored_store (by decide) fun _ => rfl

theorem isrTrap_monitor (hi : MonShared z₀) (hz : Unchanged z₀ z) : MonIsr z₀ isrTrap z := by
  unfold isrTrap
  refine unchanged_then hi hz (frame_load _).unmonitored fun valid z hz => ?_
  split
  · unfold econetRx
    refine unchanged_then hi hz (unmonitored_store (by decide) fun _ => rfl) fun _ z hz => ?_
    refine unchanged_then hi hz (unmonitored_store (by decide) fun _ => rfl) fun _ z hz => ?_
    refine safe_observe_read fun z' hr hinv _ => ⟨trivial, hinv, ?_⟩
    rw [if_pos hinv.1]
    exact rxMonitor_notes hi (stable_unchanged hi.monitorMode z z' hr hinv hz)
  · refine unchanged_then hi hz (frame_load _).unmonitored fun timeout z hz => ?_
    split
    · exact unchanged_then (q := pure) hi hz unmonitored_econetTimeout fun _ z hz =>
        unchanged_ret hi hz
    · exact unchanged_ret hi hz

end Handler

/-! ### Runs -/

theorem monHwRely_hw {z : MonState} {i : Hw} (hi : MonEnv true i z) :
    MonHwRely z (z.1.hw i, z.2) := by
  have hregs : (z.1.hw i).rx.regs.validStart = z.1.rx.regs.validStart ∧
      (z.1.hw i).rx.regs.validCnt = z.1.rx.regs.validCnt := by
    by_cases hrise : i = .rise
    · subst hrise
      obtain ⟨h1, h2, -⟩ := rise_regs (hi rfl rfl)
      exact ⟨h1, h2⟩
    · rw [(hw_rx z.1 hrise).1]
      exact ⟨rfl, rfl⟩
  exact ⟨rfl, (hw_vars z.1 i).1, hregs.1, hregs.2⟩

theorem monShared_hw {z : MonState} (h : MonShared z) (i : Hw) : MonShared (z.1.hw i, z.2) := by
  constructor
  · exact (hw_monitorMode z.1 i).trans h.monitorMode
  · show (z.1.hw i).vars.monitorFrames ≠ (z.1.hw i).vars.lastMonitorFrames → _
    rw [(hw_vars z.1 i).1]
    exact h.ahead
  · exact h.inOrder

theorem monRely_hw (z : MonState) (i : Hw) : MonRely z (z.1.hw i, z.2) := by
  have hvars := (hw_vars z.1 i).1
  refine ⟨rfl, congrArg Vars.lastMonitorFrames hvars, Or.inl ?_⟩
  exact ⟨congrArg Vars.monitorFrames hvars, congrArg Vars.bufStart hvars,
    congrArg Vars.bufLen hvars, rfl, rfl⟩

theorem monitorVerified :
    Verified monitorKernel monThread monHandler MonCond AnyMonAccess MonEnv MonIdle where
  env_thread i z hz _ := ⟨monShared_hw hz i, monRely_hw z i⟩
  env_isr i z hz hi := ⟨⟨(hw_monitorMode z.1 i).trans hz.1, hz.2⟩, monHwRely_hw hi⟩
  isr _ hz _ := ⟨⟨hz.monitorMode, hz.inOrder⟩, isrTrap_monitor hz ⟨rfl, rfl⟩⟩
  call c _ _ hz := code_monitor c hz
  ready_rely _ z' hi hz hr := stable_monIdle _ z' hr hi hz

/-- The condition on a step: a frame is noted when all before it are read, and not in the way of the
handler, and is in the buffer while it is read. -/
def FrameByFrame (z : MonSystem) (e : Event) : Prop := z.Meets MonCond MonEnv e

instance (z : MonSystem) (e : Event) : Decidable (FrameByFrame z e) :=
  inferInstanceAs (Decidable (z.Meets MonCond MonEnv e))

/-- The system in the monitor mode, between two calls, and with no frame that is not read. -/
structure Monitoring (y : System) : Prop where
  thread : y.thread = none
  isr : y.isr = none
  monitorMode : y.shared.rx.regs.monitorMode = true
  frames : y.shared.vars.monitorFrames = y.shared.vars.lastMonitorFrames

/-- The system with an empty record. -/
abbrev withMonLog (y : System) : MonSystem := y.observed Call MonLog.empty

theorem sound_monitoring {y : System} (hy : Monitoring y) :
    Interrupted.Sound monitorKernel monThread monHandler MonCond AnyMonAccess MonIdle
      (withMonLog y) := by
  have hidle : MonIdle (y.shared, MonLog.empty) := fun _ => Or.inl ⟨hy.frames, rfl⟩
  exact ⟨⟨hy.monitorMode, fun hne => absurd hy.frames hne, hidle.inOrder⟩, hidle⟩

theorem inOrder_of_sound {z : MonSystem}
    (h : z.Sound monitorKernel monThread monHandler MonCond AnyMonAccess MonIdle) :
    z.shared.2.InOrder := by
  obtain ⟨s, t, i⟩ := z
  cases i with
  | none => exact MonShared.inOrder h.1
  | some p => exact h.1.2

/-- The station after descriptor 3 has turned the monitor mode on. -/
def monitoringStation : System :=
  Machine.run (Interrupted.step netKernel) station
    (controlled 3 0x04000001#32 ⟨0#8, 0#8, 0#8⟩ 6)

theorem monitoring_station : Monitoring monitoringStation := by
  have hrun : Machine.RunsTo (Interrupted.step netKernel) (fun _ _ => True)
      (fun y => (y.thread.isNone = true ∧ y.isr.isNone = true) ∧
        y.shared.rx.regs.monitorMode = true ∧
        y.shared.vars.monitorFrames = y.shared.vars.lastMonitorFrames) station
      (controlled 3 0x04000001#32 ⟨0#8, 0#8, 0#8⟩ 6) := by
    decide +kernel
  obtain ⟨⟨hthread, hisr⟩, hmonitor, hframes⟩ := hrun.run
  exact ⟨Option.isNone_iff_eq_none.mp hthread, Option.isNone_iff_eq_none.mp hisr, hmonitor, hframes⟩

/-- A read of up to 100 bytes. -/
def readFrame : List Event := called (.read 3 0#32 100#32) 30

/-- Station 1 sends two frames, with this between them, and then there is a read. -/
def twoFrames (between : List Event) : List Event :=
  fromPeer [0x80#8, 0x99#8] ++ handled ++ between ++ fromPeer [0x80#8, 0x9A#8] ++ handled ++
    readFrame

/-- The frames of `twoFrames`. -/
def sentFrame (port : BitVec 8) : List (BitVec 8) :=
  checked [0x42#8, 0#8, 1#8, 0#8, 0x80#8, port]

end Filestick.RawEconet
