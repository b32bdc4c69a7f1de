import Filestick.Rtl.FifoUart
import Filestick.Lib.Machine
import Filestick.Lib.Ring

/-!
# The FIFO of the UART loses no byte

`UartLog` runs the receive side of `fifo_uart` with a record of the bytes that arrived and of those
that the processor read.  What arrived is at all times what was read, then what the FIFO stores,
then the byte that the UART still shows.

* `received_in_order`: this holds of every run in which the processor reads only while `data_ready`
  is high, and every byte arrives at least two clocks after the last one and finds room in the FIFO
  on the first clock on which the UART shows it.
* `bytesAvail_wraps`: in a FIFO of 2^17 bytes, `bytes_avail` is 0 with 2^16 bytes stored.

The invariant is `UartLog.Conserved`: it ties the three registers of the handshake to the flag of
the UART.
-/

namespace Filestick

open Machine Filestick.Ring

/-- The receive side, and what came in and went out. -/
structure UartLog (n : ℕ) where
  uart : FifoUart n
  arrived : List (BitVec 8)
  read : List (BitVec 8)
  justArrived : Bool

namespace UartLog

variable {n : ℕ}

/-- One clock. -/
def clock (r : UartLog n) (i : UartInput) : UartLog n where
  uart := r.uart.clock i
  arrived := r.arrived ++ i.arrival.toList
  read := if i.rd then r.read ++ [(r.uart.clock i).fifo.dataOut] else r.read
  justArrived := i.arrival.isSome

/-- Nothing has arrived yet. -/
def start (u : FifoUart n) : UartLog n := ⟨u, [], [], false⟩

/-- The unread bytes of the FIFO. -/
def stored (r : UartLog n) : List (BitVec 8) :=
  between r.uart.fifo.fifoBuf r.uart.fifo.fifoOutPtr r.uart.fifo.fifoInPtr

/-- The byte that the UART shows. -/
def shown (r : UartLog n) : List (BitVec 8) :=
  if r.uart.recvBufValid then [r.uart.recvBufData] else []

/-- The processor reads only while there is data; a byte arrives at least two clocks after the last
one, and the FIFO is not full on the first clock on which the UART shows it. -/
structure Paced (r : UartLog n) (i : UartInput) : Prop where
  read : i.rd = true → r.uart.fifo.dataReady = true
  apart : i.arrival.isSome = true → r.justArrived = false
  room : i.arrival.isSome = true → (r.uart.clock i).fifo.full = false

instance (r : UartLog n) (i : UartInput) : Decidable (r.Paced i) :=
  decidable_of_iff ((i.rd = true → r.uart.fifo.dataReady = true) ∧
      (i.arrival.isSome = true → r.justArrived = false) ∧
      (i.arrival.isSome = true → (r.uart.clock i).fifo.full = false))
    ⟨fun h => ⟨h.1, h.2.1, h.2.2⟩, fun h => ⟨h.read, h.apart, h.room⟩⟩

/-- Where the handshake is, and what that says about the UART and the FIFO. -/
structure Conserved (r : UartLog n) : Prop where
  bytes : r.arrived = r.read ++ r.stored ++ r.shown
  /-- In state 0 nothing is written, and a byte that the UART shows has just arrived. -/
  state0 : r.uart.uartReadState = false → r.uart.uartRxFifoWrite = false ∧ r.uart.uartRd = false ∧
    (r.uart.recvBufValid = true → r.justArrived = true ∧ r.uart.fifo.full = false)
  /-- In state 1 the byte that the UART shows is written, and taken from it. -/
  state1 : r.uart.uartReadState = true → r.uart.uartRxFifoWrite = true ∧ r.uart.uartRd = true ∧
    r.uart.recvBufValid = true ∧ r.uart.fifo.full = false

end UartLog

/-! ### The FIFO on one clock -/

namespace Fifo

variable {n : ℕ} {f : Fifo n}

theorem dataReady_iff : f.dataReady = true ↔ f.fifoInPtr ≠ f.fifoOutPtr := bne_iff_ne

theorem room_of_not_full (h : f.full = false) : f.avail.toNat + 1 < 2 ^ n := by
  have hne : f.avail.toNat ≠ 2 ^ n - 1 := by simpa [full] using h
  have hlt := f.avail.isLt
  omega

/-- A read only makes room. -/
theorem not_full_of_read (h : f.full = false) (x : BitVec 8) {rd : Bool}
    (hrd : rd = true → f.dataReady = true) : (f.clock x false rd).full = false := by
  cases rd with
  | false => exact h
  | true =>
    have hroom := room_of_not_full h
    have hpop := congrArg List.length (between_pop f.fifoBuf (dataReady_iff.mp (hrd rfl)))
    rw [List.length_cons, length_between, length_between] at hpop
    rw [avail] at hroom
    simp only [full, avail, clock, beq_eq_false_iff_ne, ne_eq, Bool.false_eq_true, if_false,
      if_true]
    omega

/-- The unread bytes after a clock, with the byte that is read. -/
theorem clock_between {wr rd : Bool} {x : BitVec 8} (hwr : wr = true → f.full = false)
    (hrd : rd = true → f.dataReady = true) :
    between f.fifoBuf f.fifoOutPtr f.fifoInPtr ++ (if wr then [x] else []) =
      (if rd then [(f.clock x wr rd).dataOut] else []) ++
        between (f.clock x wr rd).fifoBuf (f.clock x wr rd).fifoOutPtr
          (f.clock x wr rd).fifoInPtr := by
  -- first the write, then the read of the memory as it is after the write
  have hpush : between f.fifoBuf f.fifoOutPtr f.fifoInPtr ++ (if wr then [x] else []) =
      between (f.clock x wr rd).fifoBuf f.fifoOutPtr (f.clock x wr rd).fifoInPtr := by
    cases wr with
    | false => simp [clock]
    | true =>
      rw [clock, if_pos rfl, if_pos rfl, if_pos rfl,
        between_push f.fifoBuf (room_of_not_full (hwr rfl)) x]
  rw [hpush]
  cases rd with
  | false => simp [clock]
  | true =>
    have hne := dataReady_iff.mp (hrd rfl)
    have hin : (f.clock x wr true).fifoInPtr ≠ f.fifoOutPtr := by
      intro heq
      have hlen := congrArg List.length hpush
      rw [heq, between_self, List.length_append, between_pop _ hne] at hlen
      simp at hlen
    rw [between_pop _ hin]
    have hcell : (f.clock x wr true).fifoBuf f.fifoOutPtr = (f.clock x wr true).dataOut := by
      cases wr with
      | false => rfl
      | true => exact Function.update_of_ne hne.symm x f.fifoBuf
    rw [hcell]
    rfl

/-- A write does not touch the unread bytes. -/
theorem clock_fifoBuf {x : BitVec 8} {wr rd : Bool} {k : ℕ} (hk : k < f.avail.toNat) :
    (f.clock x wr rd).fifoBuf (f.fifoOutPtr + BitVec.ofNat n k) =
      f.fifoBuf (f.fifoOutPtr + BitVec.ofNat n k) := by
  cases wr with
  | false => rfl
  | true => exact Function.update_of_ne (ptr_ne_of_lt hk).symm x f.fifoBuf

end Fifo

namespace UartLog

variable {n : ℕ} {r : UartLog n} {i : UartInput}

/-! ### One clock -/

theorem start_conserved {u : FifoUart n} (hu : u.Init) : (start u).Conserved where
  bytes := by
    rw [start, stored, shown, hu.empty, between_self, hu.recvBufValid]
    rfl
  state0 _ := ⟨hu.uartRxFifoWrite, hu.uartRd, fun h => absurd h (by simp [start, hu.recvBufValid])⟩
  state1 h := absurd h (by simp [start, hu.uartReadState])

/-- What is written on a clock is what the UART shows, and there is room for it. -/
theorem Conserved.write (h : r.Conserved) (hw : r.uart.uartRxFifoWrite = true) :
    r.uart.uartRd = true ∧ r.uart.recvBufValid = true ∧ r.uart.fifo.full = false := by
  cases hs : r.uart.uartReadState with
  | false => exact absurd hw (by simp [(h.state0 hs).1])
  | true => exact (h.state1 hs).2

/-- The write and the taking of the byte happen on the same clock. -/
theorem Conserved.write_eq (h : r.Conserved) : r.uart.uartRxFifoWrite = r.uart.uartRd := by
  cases hs : r.uart.uartReadState with
  | false => rw [(h.state0 hs).1, (h.state0 hs).2.1]
  | true => rw [(h.state1 hs).1, (h.state1 hs).2.1]

/-- No byte is overwritten in the UART. -/
theorem Conserved.taken (h : r.Conserved) (hi : r.Paced i) (ha : i.arrival.isSome = true)
    (hv : r.uart.recvBufValid = true) : r.uart.uartRd = true := by
  cases hs : r.uart.uartReadState with
  | false => exact absurd ((h.state0 hs).2.2 hv).1 (by simp [hi.apart ha])
  | true => exact (h.state1 hs).2.1

theorem Conserved.clock_bytes (h : r.Conserved) (hi : r.Paced i) :
    (r.clock i).arrived = (r.clock i).read ++ (r.clock i).stored ++ (r.clock i).shown := by
  -- what the UART showed moves into the FIFO, or stays where it is
  have hshown : r.shown ++ i.arrival.toList =
      (if r.uart.uartRxFifoWrite then [r.uart.recvBufData] else []) ++ (r.clock i).shown := by
    have hwrite := h.write
    have heq := h.write_eq
    have htaken := h.taken hi
    rcases i with ⟨_ | x, rd⟩ <;> cases hw : r.uart.uartRxFifoWrite <;>
      cases hv : r.uart.recvBufValid <;> simp_all [shown, clock, FifoUart.clock]
  have hfifo := Fifo.clock_between (x := r.uart.recvBufData) (fun hw => (h.write hw).2.2) hi.read
  calc r.arrived ++ i.arrival.toList
      = r.read ++ r.stored ++ (r.shown ++ i.arrival.toList) := by simp [h.bytes]
    _ = r.read ++ (r.stored ++ (if r.uart.uartRxFifoWrite then [r.uart.recvBufData] else [])) ++
          (r.clock i).shown := by simp [hshown]
    _ = (r.clock i).read ++ (r.clock i).stored ++ (r.clock i).shown := by
      rw [stored, hfifo]
      cases hrd : i.rd <;> simp [clock, stored, FifoUart.clock, hrd]

/-- **What one clock keeps.** -/
theorem Conserved.clock (h : r.Conserved) (hi : r.Paced i) : (r.clock i).Conserved where
  bytes := h.clock_bytes hi
  state0 hs' := by
    have hnext : r.uart.takes = false := hs'
    cases hs : r.uart.uartReadState with
    | true =>
      -- the byte was taken, so one that is shown has arrived on this clock
      have hrd := (h.state1 hs).2.1
      have hroom := hi.room
      simp_all [UartLog.clock, FifoUart.clock]
    | false =>
      -- a byte that was shown would have been taken
      obtain ⟨hw, hrd, hv⟩ := h.state0 hs
      have hnone : r.uart.recvBufValid = false := by
        cases hval : r.uart.recvBufValid with
        | false => rfl
        | true => exact absurd hnext (by simp [FifoUart.takes, hs, hval, (hv hval).2])
      have hroom := hi.room
      simp_all [UartLog.clock, FifoUart.clock]
  state1 hs' := by
    have hnext : r.uart.takes = true := hs'
    have htakes := hnext
    simp only [FifoUart.takes, Bool.and_eq_true, Bool.not_eq_true'] at htakes
    obtain ⟨⟨hs, hv⟩, hfull⟩ := htakes
    have hw := (h.state0 hs).1
    have hrd := (h.state0 hs).2.1
    have hroom : (r.uart.clock i).fifo.full = false := by
      rw [FifoUart.clock, hw]
      exact Fifo.not_full_of_read hfull _ hi.read
    refine ⟨?_, ?_, ?_, hroom⟩
    · simp [UartLog.clock, FifoUart.clock, hs, hnext]
    · simp [UartLog.clock, FifoUart.clock, hs, hnext]
    · simp [UartLog.clock, FifoUart.clock, hv, hrd]

/-! ### Runs -/

theorem run_conserved {u : FifoUart n} (hu : u.Init) {is : List UartInput}
    (his : StepsMeet clock Paced (start u) is) : (run clock (start u) is).Conserved :=
  run_invariant (fun _ _ h hi => h.clock hi) is _ (start_conserved hu) his

/-- A byte that the UART shows is taken by the second clock from now. -/
theorem Conserved.shown_eq_nil (h : r.Conserved) {j : UartInput} (hi : r.Paced i)
    (hai : i.arrival = none) (haj : j.arrival = none) : ((r.clock i).clock j).shown = [] := by
  have h' := h.clock hi
  -- on the clock in between, a byte is shown in state 1 only
  have hrd : (r.clock i).uart.recvBufValid = true → (r.clock i).uart.uartRd = true := by
    intro hv
    cases hs : (r.clock i).uart.uartReadState with
    | false => exact absurd ((h'.state0 hs).2.2 hv).1 (by simp [UartLog.clock, hai])
    | true => exact (h'.state1 hs).2.1
  have hnone : ((r.clock i).clock j).uart.recvBufValid = false := by
    show (j.arrival.isSome || ((r.clock i).uart.recvBufValid && !(r.clock i).uart.uartRd)) = false
    rw [haj]
    cases hv : (r.clock i).uart.recvBufValid with
    | false => rfl
    | true => simp [hrd hv]
  rw [shown, hnone]
  rfl

theorem bytesAvail_toNat (r : UartLog n) :
    r.uart.fifo.bytesAvail.toNat = r.stored.length % 2 ^ 16 := by
  rw [stored, length_between, Fifo.bytesAvail, BitVec.toNat_setWidth]
  rfl

/-- **No byte is lost, doubled or overwritten.**  In every run that is `Paced`, what arrived is what
was read, what is stored and what the UART still shows, in this order; `bytes_avail` counts what is
stored, modulo 2^16; no further clock changes a stored cell; and after two clocks without an arrival
the UART shows nothing. -/
theorem received_in_order {u : FifoUart n} (hu : u.Init) {is : List UartInput}
    (his : StepsMeet clock Paced (start u) is) :
    let r := run clock (start u) is
    r.arrived = r.read ++ r.stored ++ r.shown ∧
      r.uart.fifo.bytesAvail.toNat = r.stored.length % 2 ^ 16 ∧
      (n ≤ 16 → r.uart.fifo.bytesAvail.toNat = r.stored.length) ∧
      (∀ i, ∀ k < r.stored.length,
        (r.clock i).uart.fifo.fifoBuf (r.uart.fifo.fifoOutPtr + BitVec.ofNat n k) =
          r.uart.fifo.fifoBuf (r.uart.fifo.fifoOutPtr + BitVec.ofNat n k)) ∧
      (∀ i j, r.Paced i → i.arrival = none → j.arrival = none →
        ((r.clock i).clock j).shown = []) := by
  intro r
  have hr : r.Conserved := run_conserved hu his
  have hlt : r.stored.length < 2 ^ n := by
    rw [stored, length_between]
    exact BitVec.isLt _
  refine ⟨hr.bytes, bytesAvail_toNat r, ?_, ?_, ?_⟩
  · intro hn
    have hpow : 2 ^ n ≤ 2 ^ 16 := Nat.pow_le_pow_right (by decide) hn
    rw [bytesAvail_toNat, Nat.mod_eq_of_lt (by omega)]
  · intro i k hk
    rw [stored, length_between] at hk
    exact Fifo.clock_fifoBuf hk
  · intro i j hi hai haj
    exact hr.shown_eq_nil hi hai haj

/-- A receive side with an empty FIFO. -/
def emptyUart (n : ℕ) : FifoUart n :=
  ⟨⟨fun _ => 0, 0, 0, 0⟩, 0, false, false, false, false⟩

theorem emptyUart_init (n : ℕ) : (emptyUart n).Init := ⟨rfl, rfl, rfl, rfl, rfl⟩

/-- A byte that arrives, and the two clocks after it. -/
def arrive (x : BitVec 8) : List UartInput := [⟨some x, false⟩, ⟨none, false⟩, ⟨none, false⟩]

/-- Two bytes in a FIFO of four; the first is read while the second is written. -/
theorem received_in_order_two :
    let r := run clock (start (emptyUart 2))
      [⟨some 0x41, false⟩, ⟨none, false⟩, ⟨some 0x42, false⟩, ⟨none, false⟩, ⟨none, true⟩]
    r.arrived = r.read ++ r.stored ++ r.shown ∧ r.read = [0x41] :=
  ⟨(received_in_order (emptyUart_init 2) (by decide)).1, by decide⟩

/-! ### The width of `bytes_avail` -/

/-- Nothing is on its way from the UART to the FIFO. -/
structure Resting (r : UartLog n) : Prop where
  recvBufValid : r.uart.recvBufValid = false
  uartRxFifoWrite : r.uart.uartRxFifoWrite = false
  uartRd : r.uart.uartRd = false
  uartReadState : r.uart.uartReadState = false
  justArrived : r.justArrived = false

theorem start_resting : (start (emptyUart n)).Resting := ⟨rfl, rfl, rfl, rfl, rfl⟩

/-- A byte that arrives while there is room is stored by the third clock. -/
theorem Resting.arrive (h : r.Resting) (hroom : r.uart.fifo.full = false) (x : BitVec 8) :
    StepsMeet clock Paced r (arrive x) ∧ (run clock r (UartLog.arrive x)).Resting ∧
      (run clock r (UartLog.arrive x)).uart.fifo.fifoInPtr = r.uart.fifo.fifoInPtr + 1 ∧
      (run clock r (UartLog.arrive x)).uart.fifo.fifoOutPtr = r.uart.fifo.fifoOutPtr := by
  obtain ⟨hv, hw, hrd, hs, hj⟩ := h
  obtain ⟨⟨fifo, data, valid, write, rd, state⟩, arrived, read, just⟩ := r
  dsimp only at hv hw hrd hs hj hroom ⊢
  subst hv hw hrd hs hj
  -- the byte is shown, then taken, then written
  have h1 : clock ⟨⟨fifo, data, false, false, false, false⟩, arrived, read, false⟩ ⟨some x, false⟩ =
      ⟨⟨fifo, x, true, false, false, false⟩, arrived ++ [x], read, true⟩ := rfl
  have h2 : clock ⟨⟨fifo, x, true, false, false, false⟩, arrived ++ [x], read, true⟩
      ⟨none, false⟩ = ⟨⟨fifo, x, true, true, true, true⟩, arrived ++ [x] ++ [], read, false⟩ := by
    simp [clock, FifoUart.clock, FifoUart.takes, Fifo.clock, hroom]
  have hpaced (s : UartLog n) : s.Paced ⟨none, false⟩ :=
    ⟨fun h => Bool.noConfusion h, fun h => Bool.noConfusion h, fun h => Bool.noConfusion h⟩
  rw [UartLog.arrive, StepsMeet, StepsMeet, StepsMeet, run_cons, run_cons, h1, h2]
  refine ⟨⟨⟨fun h => Bool.noConfusion h, fun _ => rfl, fun _ => hroom⟩, hpaced _, hpaced _,
    trivial⟩, ⟨rfl, rfl, rfl, rfl, rfl⟩, rfl, rfl⟩

/-- As many bytes as there is room for arrive and are stored. -/
theorem arrivals (m : ℕ) (hm : m < 2 ^ n) :
    let is := (List.replicate m (arrive 0)).flatten
    StepsMeet clock Paced (start (emptyUart n)) is ∧
      (run clock (start (emptyUart n)) is).Resting ∧
      (run clock (start (emptyUart n)) is).uart.fifo.fifoInPtr = BitVec.ofNat n m ∧
      (run clock (start (emptyUart n)) is).uart.fifo.fifoOutPtr = 0 := by
  induction m with
  | zero => exact ⟨trivial, start_resting, rfl, rfl⟩
  | succ m ih =>
    obtain ⟨hmeet, hrest, hin, hout⟩ := ih (by omega)
    have hroom : (run clock (start (emptyUart n))
        (List.replicate m (arrive 0)).flatten).uart.fifo.full = false := by
      rw [Fifo.full, Fifo.avail, hin, hout, sub_zero, BitVec.toNat_ofNat,
        Nat.mod_eq_of_lt (by omega), beq_eq_false_iff_ne]
      omega
    obtain ⟨hmeet', hrest', hin', hout'⟩ := hrest.arrive hroom 0
    intro is
    have his : is = (List.replicate m (arrive 0)).flatten ++ arrive 0 := by
      show (List.replicate (m + 1) (arrive 0)).flatten = _
      rw [List.replicate_succ', List.flatten_append, List.flatten_singleton]
    rw [his, run_append, stepsMeet_append]
    refine ⟨⟨hmeet, hmeet'⟩, hrest', ?_, hout'.trans hout⟩
    rw [hin', hin, BitVec.ofNat_add]
    rfl

/-- In a FIFO of 2^17 bytes, `bytes_avail` is 0 with 2^16 bytes stored. -/
theorem bytesAvail_wraps : ∃ is : List UartInput,
    StepsMeet clock Paced (start (emptyUart 17)) is ∧
      (run clock (start (emptyUart 17)) is).uart.fifo.bytesAvail.toNat = 0 ∧
      (run clock (start (emptyUart 17)) is).stored.length = 2 ^ 16 := by
  obtain ⟨hmeet, -, hin, hout⟩ := arrivals (n := 17) (2 ^ 16) (by decide)
  refine ⟨_, hmeet, ?_, ?_⟩
  · rw [Fifo.bytesAvail, Fifo.avail, hin, hout]
    decide
  · rw [stored, length_between, hin, hout]
    decide

end UartLog

end Filestick
