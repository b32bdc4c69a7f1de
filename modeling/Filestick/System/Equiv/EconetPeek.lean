import Filestick.System.Equiv.EconetDelivery
import Filestick.System.EconetIoctl

/-!
# What peeking promises

`econet_peek` tells how much there is to read by the length of the buffer, and `econet_read` waits
for a ready port, or in the monitor mode until the two counts of frames differ.  A complete read in
the monitor mode counts its frame, but leaves the length.

* `econetMonitor_alone`, `econetRead_stuck`: when a read in the monitor mode returns by itself.
* `peekAgrees_iff`: in which states peeking and reading agree.
-/

namespace Filestick.RawEconet

open Driver

/-- The bytes that a read returns. -/
def Reply.bytes : Reply → List (BitVec 8)
  | .data _ bytes => bytes
  | .monitored bytes => bytes
  | .count _ => []
  | .error _ => []

/-- When peeking by itself returns `n > 0`, a read of any count returns by itself, with
`min count n` bytes. -/
def PeekAgrees (fd : Fd) (d : Driver) : Prop :=
  ∀ n : BitVec 32, (econetPeek fd).alone d = some (.count n, d) → 0 < n.toInt →
    ∀ ptr count : BitVec 32, ∃ reply d', (econetRead fd ptr count).alone d = some (reply, d') ∧
      reply.bytes.length = min count.toNat n.toNat

section Alone

variable {d : Driver} (fd : Fd) (ptr count : BitVec 32)

/-- A read in the monitor mode, when a frame is not read. -/
theorem econetMonitor_alone (hframes : d.vars.monitorFrames ≠ d.vars.lastMonitorFrames) :
    ∃ d', (econetMonitor ptr count).alone d =
      some (.monitored (Ring.slice d.rx.regs.econetBuf
        ((0x810000#32 + d.vars.bufStart).setWidth 11)
        (min count.toNat d.vars.bufLen.toNat)), d') := by
  obtain ⟨n, hn, hsize⟩ := copySize_alone count d
  have hloop : (d.vars.monitorFrames == d.vars.lastMonitorFrames) = false := by simpa using hframes
  rw [econetMonitor, Prog.alone_wait hloop, id, Prog.alone_bind, hsize]
  simp only [Option.bind_some, load, store, Prog.alone_read, Prog.alone_bind _ _ d, copyRx_alone,
    sum_memcpyChunks, hn]
  split
  · exact ⟨_, rfl⟩
  · exact ⟨_, rfl⟩

theorem econetRead_monitor (hmonitor : d.rx.regs.monitorMode = true) :
    (econetRead fd ptr count).alone d = (econetMonitor ptr count).alone d := by
  rw [econetRead, load, Prog.alone_read, hmonitor, if_pos rfl]

/-- A read in the monitor mode waits for a frame when all are read. -/
theorem econetRead_stuck (hmonitor : d.rx.regs.monitorMode = true)
    (hframes : d.vars.monitorFrames = d.vars.lastMonitorFrames) :
    (econetRead fd ptr count).alone d = none := by
  have hloop : (d.vars.monitorFrames == d.vars.lastMonitorFrames) = true := by simpa using hframes
  rw [econetRead_monitor fd ptr count hmonitor]
  exact Prog.alone_wait_none hloop _

theorem econetPeek_monitor (hmonitor : d.rx.regs.monitorMode = true) :
    (econetPeek fd).alone d = some (.count d.vars.bufLen, d) := by
  rw [econetPeek, load, Prog.alone_read, hmonitor, if_pos rfl]
  rfl

/-- What peeking returns for a port that is bound. -/
theorem econetPeek_port (hmonitor : d.rx.regs.monitorMode = false)
    (hport : d.vars.fdRxPortmap fd ≠ 0#8) : (econetPeek fd).alone d =
      some (.count (if d.flag (d.vars.fdRxPortmap fd) then d.vars.bufLen else 0#32), d) := by
  rw [econetPeek, load, Prog.alone_read, hmonitor, if_neg Bool.false_ne_true, load, Prog.alone_read,
    if_neg hport, load, Prog.alone_read]
  split <;> rfl

end Alone

/-! ### Agreement -/

section Agreement

variable {d : Driver} {fd : Fd}

/-- **Without the monitor mode** peeking and reading agree. -/
theorem peekAgrees_of_ports (hmonitor : d.rx.regs.monitorMode = false) : PeekAgrees fd d := by
  intro n hpeek hn ptr count
  by_cases hport : d.vars.fdRxPortmap fd = 0#8
  · -- a descriptor without a port: peeking returns an error
    rw [econetPeek, load, Prog.alone_read, hmonitor, if_neg Bool.false_ne_true, load,
      Prog.alone_read, if_pos hport] at hpeek
    exact absurd hpeek (by simp)
  rw [econetPeek_port fd hmonitor hport] at hpeek
  obtain ⟨rfl⟩ : (if d.flag (d.vars.fdRxPortmap fd) then d.vars.bufLen else 0#32) = n := by
    simpa using hpeek
  by_cases hflag : d.flag (d.vars.fdRxPortmap fd) = true
  · obtain ⟨d', halone, -⟩ := econetRead_alone fd ptr count hmonitor hport hflag
    refine ⟨_, d', halone, ?_⟩
    rw [if_pos hflag, Reply.bytes, List.length_take, buffered, if_pos hflag, Ring.length_slice]
  · rw [if_neg hflag] at hn
    exact absurd hn (by decide)

/-- In the monitor mode they agree when a frame is not read. -/
theorem peekAgrees_of_frames (hmonitor : d.rx.regs.monitorMode = true)
    (hframes : d.vars.monitorFrames ≠ d.vars.lastMonitorFrames) : PeekAgrees fd d := by
  intro n hpeek _ ptr count
  rw [econetPeek_monitor fd hmonitor] at hpeek
  obtain ⟨rfl⟩ : d.vars.bufLen = n := by simpa using hpeek
  obtain ⟨d', halone⟩ := econetMonitor_alone ptr count hframes
  exact ⟨_, d', (econetRead_monitor fd ptr count hmonitor).trans halone, Ring.length_slice _ _ _⟩

/-- They do not when all frames are read, and the length of the last one is still there. -/
theorem not_peekAgrees (hmonitor : d.rx.regs.monitorMode = true)
    (hframes : d.vars.monitorFrames = d.vars.lastMonitorFrames) (hlen : 0 < d.vars.bufLen.toInt) :
    ¬PeekAgrees fd d := by
  intro h
  obtain ⟨reply, d', hread, -⟩ := h _ (econetPeek_monitor fd hmonitor) hlen 0#32 0#32
  rw [econetRead_stuck fd 0#32 0#32 hmonitor hframes] at hread
  exact absurd hread (by simp)

end Agreement

/-- The system goes on waiting in a read when all frames are read. -/
theorem run_read_stuck {d : Driver} (hmonitor : d.rx.regs.monitorMode = true)
    (hframes : d.vars.monitorFrames = d.vars.lastMonitorFrames) (fd : Fd) (ptr count : BitVec 32)
    (n : ℕ) : (Machine.run (Interrupted.step netKernel) ⟨d, none, none⟩
      (.call (.io (.read fd ptr count)) :: List.replicate n .thread)).thread ≠ none := by
  have hloop : (d.vars.monitorFrames == d.vars.lastMonitorFrames) = true := by simpa using hframes
  rw [Machine.run_cons]
  cases n with
  | zero => exact Option.some_ne_none _
  | succ n =>
    rw [List.replicate_succ, Machine.run_cons]
    -- the first step finds the monitor mode on
    have hstep : Interrupted.step netKernel (Interrupted.step netKernel ⟨d, none, none⟩
        (.call (.io (.read fd ptr count)))) .thread =
          ⟨d, some (econetMonitor ptr count), none⟩ := by
      show (⟨d, some (if d.rx.regs.monitorMode then econetMonitor ptr count else _), none⟩ : System)
        = _
      rw [hmonitor]
      rfl
    have hwait : Machine.run (Interrupted.step netKernel) ⟨d, some (econetMonitor ptr count), none⟩
        (List.replicate n .thread) = ⟨d, some (econetMonitor ptr count), none⟩ :=
      Interrupted.run_wait_stuck netKernel hloop _ n
    rw [hstep, hwait]
    exact Option.some_ne_none _

/-- Descriptor 3 turns the monitor mode on, station 1 sends a frame, and a program reads all of
it. -/
def readOutRun : List NetEvent :=
  controlled 3 0x04000001#32 ⟨0#8, 0#8, 0#8⟩ 6 ++
    (fromPeer [0x80#8, 0x99#8] ++ handled ++ called (.read 3 0#32 100#32) 30).map Event.net

end Filestick.RawEconet
