import Filestick.System.Equiv.EconetLength

/-!
# Reading a payload in chunks

A payload is read by several calls of `econet_read`, each with a count of its own, while nothing
comes in on the line.

* `econetRead_taken`: what one call returns and leaves, as a function of what it reads.
* `chunkedReads_reassemble`: the chunks together are the payload, and the ready flag is reset by the
  call that returns the last byte.
-/

namespace Filestick.RawEconet

open Driver

/-! ### What a read depends on -/

/-- The variables, registers and memory that `econet_read` uses. -/
structure ReadPart where
  monitorMode : Bool
  fdRxPortmap : Fd → BitVec 8
  portList : BitVec 8 → BitVec 8
  bufStart : BitVec 32
  bufLen : BitVec 32
  econetBuf : BitVec 11 → BitVec 8

/-- What `econet_read` uses of a state. -/
def readPart (d : Driver) : ReadPart where
  monitorMode := d.rx.regs.monitorMode
  fdRxPortmap := d.vars.fdRxPortmap
  portList := d.vars.portList
  bufStart := d.vars.bufStart
  bufLen := d.vars.bufLen
  econetBuf := d.rx.regs.econetBuf

namespace ReadPart

/-- The ready flag of a port. -/
def flag (v : ReadPart) (port : BitVec 8) : Bool := (v.portList port).getLsbD 7

/-- What is left to be read. -/
def left (v : ReadPart) : List (BitVec 8) :=
  Ring.slice v.econetBuf (v.bufStart.setWidth 11) v.bufLen.toNat

/-- After `n` bytes have been read. -/
def taken (v : ReadPart) (fd : Fd) (port : BitVec 8) (n : BitVec 32) : ReadPart :=
  if n < v.bufLen then { v with bufLen := v.bufLen - n, bufStart := v.bufStart + n }
  else { v with portList := Function.update v.portList port (BitVec.ofNat 8 fd.val) }

@[simp] theorem taken_monitorMode (v : ReadPart) (fd : Fd) (port : BitVec 8) (n : BitVec 32) :
    (v.taken fd port n).monitorMode = v.monitorMode := by
  rw [taken]
  split <;> rfl

@[simp] theorem taken_fdRxPortmap (v : ReadPart) (fd : Fd) (port : BitVec 8) (n : BitVec 32) :
    (v.taken fd port n).fdRxPortmap = v.fdRxPortmap := by
  rw [taken]
  split <;> rfl

theorem length_left (v : ReadPart) : v.left.length = v.bufLen.toNat := Ring.length_slice ..

/-- A call that leaves a part. -/
theorem left_taken {v : ReadPart} {n : BitVec 32} (h : n < v.bufLen) (fd : Fd) (port : BitVec 8) :
    (v.taken fd port n).left = v.left.drop n.toNat := by
  have hlt : n.toNat < v.bufLen.toNat := h
  have hstart : (v.bufStart + n).setWidth 11 =
      v.bufStart.setWidth 11 + BitVec.ofNat 11 n.toNat := by
    rw [BitVec.setWidth_add _ _ (by decide)]
    congr 1
  have hlen : (v.bufLen - n).toNat = v.bufLen.toNat - n.toNat := by
    rw [BitVec.toNat_sub]
    omega
  rw [taken, if_pos h, left, left, Ring.drop_slice _ _ hlt.le]
  simp only [hstart, hlen]

end ReadPart

/-! ### Quiet steps -/

/-- What happens when nothing comes in on the line: the hardware makes moves that store no byte and
accept no frame, and the handler may run, which finds no frame. -/
inductive QuietStep : Driver → Driver → Prop
  | hw {d : Driver} (i : Hw) (h : i = .rise → d.accepts = false ∧ d.strobes = false) :
    QuietStep d (d.hw i)
  | isr {d d' : Driver} (hv : d.frameValid = false) (h : isrTrap.alone d = some ((), d')) :
    QuietStep d d'

/-- Nothing comes in on the line. -/
def Quiet : Driver → Driver → Prop := Relation.ReflTransGen QuietStep

theorem QuietStep.readPart_eq {d d' : Driver} (h : QuietStep d d') : readPart d' = readPart d := by
  cases h with
  | hw i hi =>
    have hbuf : (d.hw i).rx.regs.econetBuf = d.rx.regs.econetBuf := by
      by_cases hrise : i = .rise
      · have hstrobe : d.rx.econet.receiver.dataStrobe = false := (hi hrise).2
        rw [hrise, (hw_rise d).1, step_clk_econetBuf, hstrobe]
        rfl
      · rw [(hw_rx d hrise).1]
    rw [readPart, readPart, (hw_vars d i).1, hw_monitorMode, hbuf]
  | isr hv h =>
    rw [isrTrap, load, Prog.alone_read, hv, if_neg Bool.false_ne_true, load, Prog.alone_read] at h
    split at h
    · obtain ⟨-, rfl⟩ := Prod.mk.inj (Option.some.inj h)
      rfl
    · obtain ⟨-, rfl⟩ := Prod.mk.inj (Option.some.inj h)
      rfl

theorem Quiet.readPart_eq {d d' : Driver} (h : Quiet d d') : readPart d' = readPart d := by
  induction h with
  | refl => rfl
  | tail _ hstep ih => exact hstep.readPart_eq.trans ih

/-- The thread relies on what it reads. -/
def readThread : Contract Driver where
  inv _ := True
  rely d d' := readPart d' = readPart d
  refl _ := rfl
  trans h h' := h'.trans h

theorem stable_readPart (v : ReadPart) : Stable readThread fun d => readPart d = v :=
  fun _ _ hr _ h => hr.trans h

/-! ### One call -/

section Read

variable {α β : Type} {v : ReadPart} {d : Driver}

/-- What is shown of a piece of a call. -/
abbrev ReadSafe (Q : α → Driver → Prop) (p : Code α) (d : Driver) : Prop :=
  Safe readThread anyAccess anyAccess Q p d

theorem read_load (hd : readPart d = v) {l : Access} {f : Driver → α} {q : α → Code β}
    {Q : β → Driver → Prop} (h : ∀ d, readPart d = v → ReadSafe Q (q (f d)) d) :
    ReadSafe Q (Prog.read l f >>= q) d :=
  safe_read_stable (stable_readPart v) hd (fun _ _ _ => trivial) fun d _ _ hd => h d hd

theorem read_store (hd : readPart d = v) (v' : ReadPart) {l : Access} {f : Driver → Driver}
    {q : Unit → Code β} {Q : β → Driver → Prop}
    (hf : ∀ d, readPart d = v → readPart (f d) = v')
    (h : ∀ d, readPart d = v' → ReadSafe Q (q ()) d) :
    ReadSafe Q (Prog.modify l f >>= q) d :=
  safe_modify_stable (stable_readPart v) hd (fun d _ _ hd => ⟨trivial, trivial, hf d hd⟩)
    fun d _ hd => h d hd

theorem read_pure (hd : readPart d = v) {a : α} {Q : α → Driver → Prop}
    (h : ∀ d, readPart d = v → Q a d) : ReadSafe Q (pure a) d :=
  safe_ret_stable (stable_readPart v) hd fun d _ hd => h d hd

theorem copySize_taken (count : BitVec 32) (hd : readPart d = v) :
    ReadSafe (fun n d => n.toNat = min count.toNat v.bufLen.toNat ∧ readPart d = v)
      (copySize count) d := by
  refine read_load hd fun d hd => ?_
  have hlen : d.vars.bufLen = v.bufLen := congrArg ReadPart.bufLen hd
  rw [hlen]
  split
  · next hlt =>
    exact read_pure hd fun d hd => ⟨(min_eq_left (BitVec.le_of_lt hlt)).symm, hd⟩
  · next hge =>
    refine safe_read_stable (stable_readPart v) hd (fun _ _ _ => trivial) fun d _ _ hd => ?_
    have hlen : d.vars.bufLen = v.bufLen := congrArg ReadPart.bufLen hd
    rw [hlen]
    exact read_pure hd fun d hd => ⟨(min_eq_right (BitVec.not_lt.mp hge)).symm, hd⟩

theorem copyRx_taken (cs : List ℕ) (src : BitVec 32) (hd : readPart d = v) :
    ReadSafe (fun bytes d => bytes = Ring.slice v.econetBuf (src.setWidth 11) cs.sum ∧
      readPart d = v) (copyRx cs src) d := by
  induction cs generalizing src d with
  | nil => exact read_pure hd fun d hd => ⟨rfl, hd⟩
  | cons c cs ih =>
    refine read_load hd fun d hd => ?_
    have hbuf : d.rx.regs.econetBuf = v.econetBuf := congrArg ReadPart.econetBuf hd
    rw [hbuf]
    refine safe_bind ((ih (src + BitVec.ofNat 32 c) hd).mono fun rest d _ hrest => ?_)
    refine read_pure hrest.2 fun d hd => ⟨?_, hd⟩
    rw [hrest.1, List.sum_cons, Ring.slice_add, BitVec.setWidth_add _ _ (by decide),
      BitVec.setWidth_ofNat_of_le (by decide)]

/-- What a call that finds its port ready returns and leaves. -/
def ReadResult (v : ReadPart) (fd : Fd) (port : BitVec 8) (count : BitVec 32) (r : Reply)
    (d : Driver) : Prop :=
  ∃ n : BitVec 32, n.toNat = min count.toNat v.bufLen.toNat ∧
    r = .data port (v.left.take count.toNat) ∧ readPart d = v.taken fd port n

theorem copyOut_taken (fd : Fd) (port : BitVec 8) (ptr count : BitVec 32) (hd : readPart d = v) :
    ReadSafe (ReadResult v fd port count) (copyOut fd port ptr count) d := by
  refine safe_bind ((copySize_taken count hd).mono fun n d _ hn => ?_)
  obtain ⟨hn, hd⟩ := hn
  refine read_load hd fun d hd => ?_
  have hstart : d.vars.bufStart = v.bufStart := congrArg ReadPart.bufStart hd
  rw [hstart]
  refine safe_bind ((copyRx_taken _ _ hd).mono fun bytes d _ hbytes => ?_)
  obtain ⟨hbytes, hd⟩ := hbytes
  have hsrc : (0x810000#32 + v.bufStart).setWidth 11 = v.bufStart.setWidth 11 := by bv_omega
  have htake : bytes = v.left.take count.toNat := by
    rw [hbytes, sum_memcpyChunks, hsrc, hn, ReadPart.left, Ring.take_slice]
  refine read_load hd fun d hd => ?_
  have hlen : d.vars.bufLen = v.bufLen := congrArg ReadPart.bufLen hd
  rw [hlen]
  split
  · next hlt =>
    refine read_load hd fun d hd => ?_
    have hlen : d.vars.bufLen = v.bufLen := congrArg ReadPart.bufLen hd
    rw [hlen]
    refine read_store hd { v with bufLen := v.bufLen - n } ?_ fun d hd => ?_
    · rintro d rfl
      rfl
    refine read_load hd fun d hd => ?_
    have hstart : d.vars.bufStart = v.bufStart := congrArg ReadPart.bufStart hd
    rw [hstart]
    refine read_store hd (v.taken fd port n) ?_ fun d hd => ?_
    · intro d hd
      rw [ReadPart.taken, if_pos hlt]
      exact congrArg (fun w : ReadPart => { w with bufStart := v.bufStart + n }) hd
    exact read_pure hd fun d hd => ⟨n, hn, by rw [htake], hd⟩
  · next hge =>
    refine read_store hd (v.taken fd port n) ?_ fun d hd => ?_
    · rintro d rfl
      rw [ReadPart.taken, if_neg hge]
      rfl
    exact read_pure hd fun d hd => ⟨n, hn, by rw [htake], hd⟩

/-- **What one call does**: it returns only when the port is ready. -/
theorem econetRead_whenReady (fd : Fd) (ptr count : BitVec 32) (hm : v.monitorMode = false)
    (hport : v.fdRxPortmap fd ≠ 0#8) (hd : readPart d = v) :
    ReadSafe (fun r d => v.flag (v.fdRxPortmap fd) = true ∧
      ReadResult v fd (v.fdRxPortmap fd) count r d) (econetRead fd ptr count) d := by
  refine read_load hd fun d hd => ?_
  have hmode : d.rx.regs.monitorMode = false := (congrArg ReadPart.monitorMode hd).trans hm
  rw [hmode, if_neg Bool.false_ne_true]
  refine read_load hd fun d hd => ?_
  have hmap : d.vars.fdRxPortmap fd = v.fdRxPortmap fd :=
    congrArg (fun w => w.fdRxPortmap fd) hd
  rw [hmap, if_neg hport]
  refine safe_wait fun d' hr _ _ => ⟨trivial, fun hpass => ⟨trivial, ?_⟩⟩
  have hd' : readPart d' = v := Eq.trans hr hd
  have hflag : v.flag (v.fdRxPortmap fd) = true := by
    have hready : d'.flag (v.fdRxPortmap fd) = true := by simpa using hpass
    rw [← hready, ← hd']
    rfl
  exact (copyOut_taken fd _ ptr count (d := d'.beginRead) hd').mono fun _ _ _ h => ⟨hflag, h⟩

/-! ### Successive calls -/

/-- Successive calls, each with a pointer and a count. -/
def econetReads (fd : Fd) : List (BitVec 32 × BitVec 32) → Code (List Reply)
  | [] => pure []
  | (ptr, count) :: calls => do
    let reply ← econetRead fd ptr count
    let replies ← econetReads fd calls
    return reply :: replies

/-- The number of bytes that calls ask for. -/
def asked (calls : List (BitVec 32 × BitVec 32)) : ℕ := (calls.map fun c => c.2.toNat).sum

@[simp] theorem asked_nil : asked [] = 0 := rfl

@[simp] theorem asked_cons (c : BitVec 32 × BitVec 32) (calls : List (BitVec 32 × BitVec 32)) :
    asked (c :: calls) = c.2.toNat + asked calls := by
  simp [asked]

/-- The calls but the last do not ask for all of `n` bytes. -/
def Unfinished (calls : List (BitVec 32 × BitVec 32)) (n : ℕ) : Prop :=
  calls.length ≤ 1 ∨ asked calls.dropLast < n

/-- What calls return that find `xs` to be read, and the ready flag after them. -/
structure Chunked (xs : List (BitVec 8)) (calls : List (BitVec 32 × BitVec 32))
    (replies : List Reply) (ready : Bool) : Prop where
  unfinished : Unfinished calls xs.length
  chunks : replies.flatMap FileServer.copied = xs.take (asked calls)
  flag : ready = true ↔ calls = [] ∨ asked calls < xs.length

theorem unfinished_cons {c : BitVec 32 × BitVec 32} {calls : List (BitVec 32 × BitVec 32)} {n : ℕ}
    (hcalls : calls ≠ []) :
    Unfinished (c :: calls) n ↔ c.2.toNat < n ∧ Unfinished calls (n - c.2.toNat) := by
  obtain ⟨c', calls, rfl⟩ := List.exists_cons_of_ne_nil hcalls
  simp only [Unfinished, List.dropLast_cons_cons, asked_cons, List.length_cons]
  cases calls with
  | nil => simp
  | cons c'' calls =>
    simp only [List.dropLast_cons_cons, asked_cons, List.length_cons]
    omega

/-- A call that leaves a part, and the calls behind it. -/
theorem Chunked.cons_left {xs : List (BitVec 8)} {c : BitVec 32 × BitVec 32}
    {calls : List (BitVec 32 × BitVec 32)} {port : BitVec 8} {replies : List Reply} {ready : Bool}
    (hlt : c.2.toNat < xs.length) (h : Chunked (xs.drop c.2.toNat) calls replies ready) :
    Chunked xs (c :: calls) (.data port (xs.take c.2.toNat) :: replies) ready := by
  obtain ⟨hunfinished, hchunks, hflag⟩ := h
  rw [List.length_drop] at hunfinished hflag
  refine ⟨?_, ?_, ?_⟩
  · by_cases hcalls : calls = []
    · rw [hcalls]
      exact Or.inl le_rfl
    · exact (unfinished_cons hcalls).mpr ⟨hlt, hunfinished⟩
  · rw [List.flatMap_cons, hchunks, asked_cons, List.take_add]
    rfl
  · rw [hflag, asked_cons]
    constructor
    · rintro (rfl | h)
      · exact Or.inr hlt
      · exact Or.inr (by omega)
    · rintro (h | h)
      · exact absurd h (List.cons_ne_nil _ _)
      · exact Or.inr (by omega)

/-- The call that returns the last byte. -/
theorem chunked_last {xs : List (BitVec 8)} {c : BitVec 32 × BitVec 32} {port : BitVec 8}
    (hle : xs.length ≤ c.2.toNat) :
    Chunked xs [c] [.data port (xs.take c.2.toNat)] false := by
  refine ⟨Or.inl le_rfl, ?_, ?_⟩
  · rw [asked_cons, asked_nil]
    exact List.append_nil _
  · rw [asked_cons, asked_nil]
    constructor
    · exact fun h => absurd h Bool.false_ne_true
    · rintro (h | h)
      · exact absurd h (List.cons_ne_nil _ _)
      · omega

/-- A descriptor that reads from a port, which is ready. -/
structure Readable (fd : Fd) (v : ReadPart) : Prop where
  monitorMode : v.monitorMode = false
  bound : v.fdRxPortmap fd ≠ 0#8
  flag : v.flag (v.fdRxPortmap fd) = true

/-- After a call that leaves a part the port is ready, and else it is not. -/
theorem flag_taken {fd : Fd} (h : Readable fd v) (n : BitVec 32) :
    (v.taken fd (v.fdRxPortmap fd) n).flag (v.fdRxPortmap fd) = decide (n < v.bufLen) := by
  rw [ReadPart.taken]
  split
  · next hlt => exact h.flag.trans (decide_eq_true hlt).symm
  · next hge =>
    rw [decide_eq_false hge, ← descriptor_unflagged fd]
    exact congrArg (fun e : BitVec 8 => e.getLsbD 7) (Function.update_self ..)

theorem Readable.taken {fd : Fd} (h : Readable fd v) {n : BitVec 32} (hlt : n < v.bufLen) :
    Readable fd (v.taken fd (v.fdRxPortmap fd) n) := by
  constructor
  · rw [ReadPart.taken_monitorMode]
    exact h.monitorMode
  · rw [ReadPart.taken_fdRxPortmap]
    exact h.bound
  · rw [ReadPart.taken_fdRxPortmap, flag_taken h]
    exact decide_eq_true hlt

/-- A call on a port that is not ready does not return. -/
theorem econetRead_blocked {fd : Fd} (ptr count : BitVec 32) (hm : v.monitorMode = false)
    (hport : v.fdRxPortmap fd ≠ 0#8) (hflag : v.flag (v.fdRxPortmap fd) = false)
    (hd : readPart d = v) (Q : Reply → Driver → Prop) : ReadSafe Q (econetRead fd ptr count) d := by
  refine (econetRead_whenReady fd ptr count hm hport hd).mono fun r d _ h => ?_
  rw [hflag] at h
  exact absurd h.1 Bool.false_ne_true

/-- **What successive calls do.** -/
theorem econetReads_chunked {fd : Fd} (calls : List (BitVec 32 × BitVec 32)) (h : Readable fd v)
    (hd : readPart d = v) :
    ReadSafe (fun replies d => Chunked v.left calls replies
      ((readPart d).flag (v.fdRxPortmap fd))) (econetReads fd calls) d := by
  induction calls generalizing v d with
  | nil =>
    refine read_pure hd fun d hd => ⟨Or.inl (Nat.zero_le _), rfl, ?_⟩
    rw [hd, h.flag]
    simp
  | cons c calls ih =>
    obtain ⟨ptr, count⟩ := c
    refine safe_bind ((econetRead_whenReady fd ptr count h.monitorMode h.bound hd).mono
      fun r d _ hr => ?_)
    obtain ⟨-, n, hn, rfl, hd⟩ := hr
    have hflag := flag_taken h n
    by_cases hlt : n < v.bufLen
    · -- a part is left, which the calls behind this one read
      have hcount : n.toNat = count.toNat := by
        have : n.toNat < v.bufLen.toNat := hlt
        omega
      refine safe_bind ((ih (h.taken hlt) hd).mono fun replies d _ hreplies => ?_)
      rw [ReadPart.left_taken hlt, hcount, ReadPart.taken_fdRxPortmap] at hreplies
      refine read_pure rfl fun d' hd' => ?_
      rw [hd']
      apply hreplies.cons_left
      rw [ReadPart.length_left, ← hcount]
      exact hlt
    · have hle : v.left.length ≤ count.toNat := by
        have : v.bufLen.toNat ≤ n.toNat := BitVec.not_lt.mp hlt
        rw [ReadPart.length_left]
        omega
      rw [decide_eq_false hlt] at hflag
      cases calls with
      | nil =>
        refine safe_bind (read_pure hd fun d hd => read_pure hd fun d hd => ?_)
        rw [hd, hflag]
        exact chunked_last hle
      | cons c calls =>
        -- the port is not ready any more, and nothing comes in
        refine safe_bind (safe_bind (econetRead_blocked c.1 c.2 ?_ ?_ ?_ hd _))
        · rw [ReadPart.taken_monitorMode]
          exact h.monitorMode
        · rw [ReadPart.taken_fdRxPortmap]
          exact h.bound
        · rw [ReadPart.taken_fdRxPortmap]
          exact hflag

/-- Calls that are made while something is left return. -/
theorem econetReads_alone {fd : Fd} {calls : List (BitVec 32 × BitVec 32)} (h : Readable fd v)
    (hd : readPart d = v) (hcalls : Unfinished calls v.bufLen.toNat) :
    ∃ replies d', (econetReads fd calls).alone d = some (replies, d') := by
  induction calls generalizing v d with
  | nil => exact ⟨[], d, rfl⟩
  | cons c calls ih =>
    obtain ⟨ptr, count⟩ := c
    subst hd
    obtain ⟨reply, d₁, hread⟩ :
        ∃ reply d₁, (econetRead fd ptr count).alone d = some (reply, d₁) := by
      obtain ⟨d₁, hread, -⟩ := econetRead_alone fd ptr count h.monitorMode h.bound h.flag
      exact ⟨_, d₁, hread⟩
    have hreads : (econetReads fd ((ptr, count) :: calls)).alone d =
        (econetReads fd calls >>= fun replies => pure (reply :: replies)).alone d₁ := by
      rw [econetReads, Prog.alone_bind, hread]
      rfl
    rw [hreads, Prog.alone_bind]
    by_cases hnil : calls = []
    · rw [hnil]
      exact ⟨_, d₁, rfl⟩
    · obtain ⟨hlt, hrest⟩ := (unfinished_cons hnil).mp hcalls
      obtain ⟨-, n, hn, -, hd₁⟩ := (econetRead_whenReady fd ptr count h.monitorMode h.bound
        rfl).alone (fun _ _ => trivial) trivial hread
      have hlt : count.toNat < (readPart d).bufLen.toNat := hlt
      have hcount : n.toNat = count.toNat := by omega
      have hltn : n < (readPart d).bufLen := by
        show n.toNat < (readPart d).bufLen.toNat
        omega
      rw [← ReadPart.length_left, ← hcount] at hrest
      rw [← List.length_drop, ← ReadPart.left_taken hltn fd ((readPart d).fdRxPortmap fd),
        ReadPart.length_left] at hrest
      obtain ⟨replies, d', halone⟩ := ih (h.taken hltn) hd₁ hrest
      rw [halone]
      exact ⟨_, d', rfl⟩

end Read

/-! ### A data frame -/

theorem readThread_quiet {d d' : Driver} (hi : readThread.inv d) (h : Quiet d d') :
    readThread.inv d' ∧ readThread.rely d d' := ⟨hi, h.readPart_eq⟩

/-- What `.data_ack` leaves to be read of a frame in the buffer. -/
theorem left_of_dataReady {fd : Fd} {d : Driver} {start : BitVec 11} {frame : List (BitVec 8)}
    (h : FileServer.DataReady fd (start.setWidth 32 + 2#32)
      (BitVec.setWidth 32 (BitVec.ofNat 11 frame.length) - 4#32) d)
    (hbuf : Ring.Holds d.rx.regs.econetBuf start frame) (h4 : 4 ≤ frame.length)
    (hlen : frame.length < 2048) : (readPart d).left = payload frame := by
  have hstart : d.vars.bufStart.setWidth 11 = start + BitVec.ofNat 11 2 := by
    rw [h.bufStart]
    bv_omega
  have hnat : d.vars.bufLen.toNat = frame.length - 4 := by
    rw [h.bufLen, FileServer.bufLen_toNat, Nat.mod_eq_of_lt hlen, if_neg (by omega)]
  show Ring.slice d.rx.regs.econetBuf (d.vars.bufStart.setWidth 11) d.vars.bufLen.toNat = _
  rw [hstart, hnat, hbuf.slice_drop (by omega)]
  rfl

/-- **Chunks of a payload**: the handler takes a data frame of 4 to 2047 bytes, from anywhere in the
buffer.  However calls of `econet_read` are interrupted while nothing comes in on the line, what
they return is the payload as far as they ask for it, and the ready flag is reset by the one that
returns the last byte.  They return as long as that one is not followed by another. -/
theorem chunkedReads_reassemble {fd : Fd} {d : Driver} {frame : List (BitVec 8)}
    (h : FileServer.DataWaits fd d)
    (hbuf : Ring.Holds d.rx.regs.econetBuf d.rx.regs.validStart frame)
    (hcnt : d.rx.regs.validCnt.toNat = frame.length) (h4 : 4 ≤ frame.length) :
    ∃ d₁, isrTrap.alone d = some ((), d₁) ∧
      d₁.flag (d₁.vars.fdRxPortmap fd) = true ∧
      ∀ calls,
        (∀ replies d₂, (econetReads fd calls).Finishes Quiet d₁ replies d₂ →
          Chunked (payload frame) calls replies (d₂.flag (d₁.vars.fdRxPortmap fd))) ∧
        ((∃ replies d₂, (econetReads fd calls).Finishes Quiet d₁ replies d₂) ↔
          Unfinished calls (payload frame).length) := by
  obtain ⟨d₁, hisr, hready, hkeep⟩ := FileServer.isrTrap_data h
  have hlen : frame.length < 2048 := by
    rw [← hcnt]
    exact d.rx.regs.validCnt.isLt
  have hleft : (readPart d₁).left = payload frame := by
    have hbuf' : Ring.Holds d₁.rx.regs.econetBuf d.rx.regs.validStart frame := by
      rw [hkeep]
      exact hbuf
    apply left_of_dataReady _ hbuf' h4 hlen
    · exact fd
    · rw [← hcnt, BitVec.ofNat_toNat, BitVec.setWidth_eq]
      exact hready
  have hreadable : Readable fd (readPart d₁) := ⟨hready.monitorMode, hready.bound, hready.flag⟩
  have hchunked : ∀ calls replies d₂, (econetReads fd calls).Finishes Quiet d₁ replies d₂ →
      Chunked (payload frame) calls replies (d₂.flag (d₁.vars.fdRxPortmap fd)) := by
    intro calls replies d₂ hfin
    rw [← hleft]
    exact (econetReads_chunked calls hreadable rfl).finishes (fun _ _ => trivial)
      (fun _ _ => readThread_quiet) trivial hfin
  refine ⟨d₁, hisr, hready.flag, fun calls => ⟨hchunked calls, ?_⟩⟩
  constructor
  · rintro ⟨replies, d₂, hfin⟩
    exact (hchunked calls replies d₂ hfin).unfinished
  · intro hcalls
    rw [← hleft, ReadPart.length_left] at hcalls
    obtain ⟨replies, d₂, halone⟩ := econetReads_alone hreadable rfl hcalls
    exact ⟨replies, d₂, Prog.finishes_of_alone (fun _ => .refl) halone⟩

/-- A data frame for station `0x42`, which has the bytes 7 and 8 behind the addresses. -/
def wrapped : List (BitVec 8) := checked [0x42#8, 0#8, 1#8, 0#8, 7#8, 8#8]

/-- The frame waits, and wraps past the end of the buffer. -/
def wrappedFrame : Driver :=
  { station.shared with
    rx := { station.shared.rx with regs :=
      { station.shared.rx.regs with
        econetBuf := Ring.writeAll (fun _ => 0#8) 2045#11 wrapped
        validStart := 2045#11
        validCnt := 8#11
        sysFrameValid := true } }
    vars := { station.shared.vars with handshakeState := 1#32, pendingPort := 0x99#32 } }

/-- The payload is read in three calls, one of which asks for nothing. -/
theorem wrappedFrame_chunks :
    ∃ d₁, isrTrap.alone wrappedFrame = some ((), d₁) ∧
      ∃ replies d₂,
        (econetReads 3 [(0#32, 3#32), (3#32, 0#32), (3#32, 9#32)]).Finishes Quiet d₁ replies d₂ ∧
        replies.flatMap FileServer.copied = [1#8, 0#8, 7#8, 8#8] := by
  obtain ⟨d₁, hisr, -, hcalls⟩ := @chunkedReads_reassemble 3 wrappedFrame wrapped
    (by decide) (by decide) (by decide) (by decide)
  obtain ⟨hchunked, hiff⟩ := hcalls [(0#32, 3#32), (3#32, 0#32), (3#32, 9#32)]
  obtain ⟨replies, d₂, hfin⟩ := hiff.mpr (Or.inr (by decide))
  refine ⟨d₁, hisr, replies, d₂, hfin, ?_⟩
  rw [(hchunked replies d₂ hfin).chunks]
  decide

end Filestick.RawEconet
