import Filestick.Lib.Finishes
import Filestick.System.Equiv.EconetDelivery
import Filestick.System.Equiv.EconetPorts

/-!
# Econet descriptors that are opened again

The port and the destination of a descriptor are in tables with an entry for each number, which the
next descriptor of that number finds.  `econet_close` clears the entry of `fd_rx_portmap` only.

* `boundOpen_run`: in every state that is reached, only open descriptors are bound to a port.
* `reopened_iff`: a descriptor is without a binding when it has been opened if and only if the entry
  of its number in `fd_tx_destmap` is.
-/

namespace Filestick.RawEconet

open Driver

/-! ### The two tables of the descriptors -/

section Maps

variable {α β : Type}

/-- The ports and the destinations of the descriptors. -/
def maps (d : Driver) : (Fd → BitVec 8) × (Fd → EconetAddr) :=
  (d.vars.fdRxPortmap, d.vars.fdTxDestmap)

/-- What leaves a part leaves everything that depends on it only. -/
theorem leaves_comp {γ : Type} {v : Driver → β} {p : Code α} (hp : Leaves v p) (g : β → γ) :
    Leaves (fun d => g (v d)) p :=
  hp.mono fun _ _ hf d => congrArg g (hf d)

theorem leaves_setUpFrames (dest : EconetAddr) (ptr : BitVec 32) (bytes : List (BitVec 8)) :
    Leaves maps (setUpFrames dest ptr bytes) := by
  refine Prog.acts_bind (leaves_modify fun _ => rfl) fun _ =>
    Prog.acts_bind (leaves_load _) fun address => ?_
  refine Prog.acts_bind (leaves_modify fun _ => rfl) fun _ => ?_
  refine Prog.acts_bind (leaves_modify fun _ => rfl) fun _ => ?_
  refine Prog.acts_bind (leaves_modify fun _ => rfl) fun _ => ?_
  refine Prog.acts_bind (leaves_modify fun _ => rfl) fun _ => ?_
  refine Prog.acts_bind ((frame_copyTx _ _ _).comp fun v =>
    (v.1.1.fdRxPortmap, v.1.1.fdTxDestmap)).leaves fun _ => ?_
  refine Prog.acts_bind (leaves_modify fun _ => rfl) fun _ => ?_
  refine Prog.acts_bind (leaves_modify fun _ => rfl) fun _ => ?_
  refine Prog.acts_bind (leaves_modify fun _ => rfl) fun _ => ?_
  refine Prog.acts_bind (leaves_modify fun _ => rfl) fun _ => ?_
  exact Prog.acts_bind (leaves_modify fun _ => rfl) fun _ => leaves_modify fun _ => rfl

theorem leaves_awaitHandshake (count : BitVec 32) : Leaves maps (awaitHandshake count) := by
  refine Prog.acts_bind (leaves_modify fun _ => rfl) fun _ => ?_
  refine Prog.acts_bind (leaves_wait preserves_id) fun _ =>
    Prog.acts_bind (leaves_load _) fun _ => ?_
  split
  · exact leaves_pure _
  refine Prog.acts_bind (leaves_load _) fun _ => ?_
  split
  · exact leaves_pure _
  · exact leaves_pure _

theorem leaves_econetWrite (fd : Fd) (ptr : BitVec 32) (bytes : List (BitVec 8)) :
    Leaves maps (econetWrite fd ptr bytes) := by
  unfold econetWrite
  split
  · exact leaves_pure _
  refine Prog.acts_bind (leaves_modify fun _ => rfl) fun _ => ?_
  refine Prog.acts_bind (leaves_modify fun _ => rfl) fun _ => ?_
  refine Prog.acts_bind (leaves_modify fun _ => rfl) fun _ =>
    Prog.acts_bind (leaves_load _) fun dest => ?_
  split
  · exact leaves_pure _
  have hbegin : Preserves maps beginWrite := fun _ => rfl
  refine Prog.acts_bind (leaves_wait hbegin) fun _ => ?_
  refine Prog.acts_bind (leaves_setUpFrames dest ptr bytes) fun _ => ?_
  exact Prog.acts_bind (leaves_modify fun _ => rfl) fun _ => leaves_awaitHandshake _

/-- Reading, peeking and writing. -/
theorem leaves_code (c : Call) : Leaves maps c.code := by
  cases c with
  | read fd ptr count =>
    exact ((frame_econetRead fd ptr count).comp fun c => (c.fdRxPortmap, c.fdTxDestmap)).leaves
  | peek fd => exact (frame_econetPeek fd).leaves
  | write fd ptr bytes => exact leaves_econetWrite fd ptr bytes

/-- A control call stores a port, or a destination, or leaves the tables. -/
theorem econetIoctl_cases (fd : Fd) (request : BitVec 32) (dest : EconetAddr) :
    econetIoctl fd request dest = econetSetRxPort fd (request.setWidth 8) ∨
      request &&& 0xFF000000#32 = 0x03000000#32 ∧
        econetIoctl fd request dest = econetSetTxAddr fd dest ∨
      Leaves maps (econetIoctl fd request dest) := by
  unfold econetIoctl
  dsimp only
  split_ifs with _ _ htx
  · right; right
    refine Prog.acts_bind (leaves_modify fun _ => rfl) fun _ => ?_
    exact Prog.acts_bind (leaves_modify fun _ => rfl) fun _ => leaves_pure _
  · exact Or.inl rfl
  · exact Or.inr (Or.inl ⟨htx, rfl⟩)
  · right; right
    refine Prog.acts_bind (leaves_modify fun _ => rfl) fun _ => ?_
    refine Prog.acts_bind (leaves_modify fun _ => rfl) fun _ => ?_
    exact Prog.acts_bind (leaves_modify fun _ => rfl) fun _ => leaves_pure _
  · exact Or.inr (Or.inr (leaves_pure _))
  · exact Or.inr (Or.inr (Prog.acts_bind (leaves_load _) fun _ => leaves_pure _))
  · exact Or.inr (Or.inr (leaves_pure _))
  · exact Or.inr (Or.inr (leaves_pure _))
  · exact Or.inr (Or.inr (leaves_pure _))

/-- A destination is stored in three steps. -/
theorem acts_econetSetTxAddr {P : Access → (Driver → Driver) → Prop} (fd : Fd) (dest : EconetAddr)
    (hport : (storeDest fd ({ · with port := dest.port })).Acts P)
    (hnet : (storeDest fd ({ · with net := dest.net })).Acts P)
    (hstation : (storeDest fd ({ · with station := dest.station })).Acts P) :
    (econetSetTxAddr fd dest).Acts P :=
  Prog.acts_bind hport fun _ =>
    Prog.acts_bind hnet fun _ => Prog.acts_bind hstation fun _ => trivial

end Maps

/-! ### Bound descriptors are open -/

/-- Only open descriptors are bound, and the table is consistent. -/
structure OpenInv (z : FdState) : Prop where
  bound : BoundOpen z
  table : FdTable.Consistent z.2

/-- Whatever does not touch the table, nor the ports of the descriptors. -/
def KeepsMap (z z' : FdState) : Prop :=
  z'.1.vars.fdRxPortmap = z.1.vars.fdRxPortmap ∧ z'.2 = z.2

theorem OpenInv.keeps {z z' : FdState} (h : OpenInv z) (hk : KeepsMap z z') : OpenInv z' := by
  refine ⟨fun fd hfd => ?_, ?_⟩
  · rw [hk.2]
    rw [hk.1] at hfd
    exact h.bound fd hfd
  · rw [hk.2]
    exact h.table

/-- The contract of the thread, and of the handler. -/
def openThread : Contract FdState where
  inv := OpenInv
  rely := KeepsMap
  refl _ := ⟨rfl, rfl⟩
  trans h h' := ⟨h'.1.trans h.1, h'.2.trans h.2⟩

/-- No access is restricted. -/
def EveryAccess (_ : Access) (_ : FdState) : Prop := True

section Open

variable {α β : Type} {z : FdState} {A : FdState → Prop} {fd : Fd}

/-- What is shown of a piece of code of the driver. -/
abbrev OpenSafe (r : α → β) (Q : β → FdState → Prop) (p : Code α) (z : FdState) : Prop :=
  Safe openThread EveryAccess EveryAccess Q (onDriver r p) z

/-- Code that leaves the ports of the descriptors keeps what the others keep. -/
theorem open_leaves (hA : Stable openThread A) {p : Code α}
    (hp : Leaves (fun d => d.vars.fdRxPortmap) p) {r : α → β} (hz : A z) :
    OpenSafe r (fun _ z' => A z') p z := by
  refine safe_of_acts hA (Prog.acts_observe (fun _ _ _ hi _ hz => ⟨trivial, hi, hz⟩) ?_ hp) hz
  intro l f hf z hi _ hz
  have hk : KeepsMap z (f z.1, z.2) := ⟨hf z.1, rfl⟩
  have hi' : OpenInv (f z.1, z.2) := OpenInv.keeps hi hk
  exact ⟨trivial, hi', hA z _ hk hi' hz⟩

theorem stable_true : Stable openThread fun _ => True := fun _ _ _ _ _ => trivial

theorem stable_isEconet : Stable openThread fun z => IsEconet z.2 fd := fun z z' hr _ h => by
  have htable : z'.2 = z.2 := hr.2
  show IsEconet z'.2 fd
  rw [htable]
  exact h

theorem stable_unbound : Stable openThread fun z => z.1.vars.fdRxPortmap fd = 0#8 :=
  fun _ _ hr _ h => (congrFun hr.1 fd).trans h

/-- An open descriptor is bound. -/
theorem OpenInv.bind (h : OpenInv z) (hfd : IsEconet z.2 fd) {d : Driver} {port : BitVec 8}
    (hmap : d.vars.fdRxPortmap = Function.update z.1.vars.fdRxPortmap fd port) :
    OpenInv (d, z.2) := by
  refine ⟨fun fd' hfd' => ?_, h.table⟩
  rw [hmap] at hfd'
  by_cases hf : fd' = fd
  · rw [hf]
    exact hfd
  · rw [Function.update_of_ne hf] at hfd'
    exact h.bound fd' hfd'

theorem econetSetRxPort_open (port : BitVec 8) (hz : IsEconet z.2 fd) {r : Reply → β} :
    OpenSafe r (fun _ _ => True) (econetSetRxPort fd port) z := by
  unfold econetSetRxPort
  refine safe_observe_modify fun z' hr hi _ => ⟨trivial, ?_, ?_⟩
  · exact hi.bind (stable_isEconet z z' hr hi hz) rfl
  · refine open_leaves stable_true ?_ trivial
    exact Prog.acts_bind (leaves_modify fun _ => rfl) fun _ => leaves_pure _

theorem econetIoctl_open (request : BitVec 32) (dest : EconetAddr) (hz : IsEconet z.2 fd)
    {r : Reply → β} : OpenSafe r (fun _ _ => True) (econetIoctl fd request dest) z := by
  obtain heq | ⟨-, heq⟩ | hleaves := econetIoctl_cases fd request dest
  · rw [heq]
    exact econetSetRxPort_open _ hz
  · rw [heq]
    refine open_leaves stable_true ?_ trivial
    apply acts_econetSetTxAddr
    · exact leaves_modify fun _ => rfl
    · exact leaves_modify fun _ => rfl
    · exact leaves_modify fun _ => rfl
  · exact open_leaves stable_true (leaves_comp hleaves Prod.fst) trivial

/-- `econet_close` leaves the descriptor without a port. -/
theorem econetClose_open (fd : Fd) {r : Reply → β} :
    OpenSafe r (fun _ z' => z'.1.vars.fdRxPortmap fd = 0#8) (econetClose fd) z := by
  unfold econetClose
  refine safe_observe_read fun z' hr hi _ => ⟨trivial, hi, ?_⟩
  split
  · refine safe_observe_modify fun z₁ hr hi _ => ⟨trivial, hi.keeps ⟨rfl, rfl⟩, ?_⟩
    refine safe_observe_modify fun z₂ hr hi _ => ⟨trivial, ?_, ?_⟩
    · refine ⟨fun fd' hfd' => ?_, hi.table⟩
      by_cases hf : fd' = fd
      · rw [hf] at hfd'
        exact absurd (Function.update_self ..) hfd'
      · apply hi.bound fd'
        exact fun h0 => hfd' ((Function.update_of_ne hf ..).trans h0)
    · exact open_leaves (p := pure _) stable_unbound (leaves_pure _) (Function.update_self ..)
  · next heq =>
    refine open_leaves stable_unbound ?_ (not_not.mp heq)
    exact Prog.acts_bind (leaves_pure _) fun _ => leaves_pure _

/-- What is shown of a call. -/
abbrev CallOpen (p : Prog FdState Access (Option Reply)) (z : FdState) : Prop :=
  Safe openThread EveryAccess EveryAccess (fun a z' => OpenInv (fdKernel.finish a z') ∧ True) p z

theorem OpenInv.finish (h : OpenInv z) (a : Option Reply) :
    OpenInv (fdKernel.finish a z) ∧ True := by
  refine ⟨h.keeps ⟨?_, rfl⟩, trivial⟩
  cases a with
  | none => rfl
  | some reply => cases reply <;> rfl

theorem callOpen_of_code {p : Code Reply}
    (hp : ∀ z', IsEconet z'.2 fd → OpenSafe some (fun _ _ => True) p z') :
    CallOpen (sysCall fd p) z := by
  unfold sysCall
  refine safe_read fun z' _ _ _ => ⟨trivial, ?_⟩
  split
  · next hdev => exact (hp z' hdev).mono fun a _ hi _ => OpenInv.finish hi a
  · exact safe_ret_stable stable_true trivial fun _ hi _ => OpenInv.finish hi none

theorem OpenInv.closed (h : OpenInv z) (hfd : z.1.vars.fdRxPortmap fd = 0#8)
    (res : FdTable.FResult) : OpenInv (z.1, (FdTable.closeFd z.2 fd res).1) := by
  have hres := FdTable.closeFd_result z.2 fd res
  refine ⟨fun fd' hfd' => ?_, h.table.closed hres⟩
  have hne : fd' ≠ fd := fun heq => hfd' (heq ▸ hfd)
  have hkeep : (FdTable.closeFd z.2 fd res).1.fdtable fd' = z.2.fdtable fd' := by
    cases hres with
    | kept hs => rw [hs]
    | closed _ _ hfdtable _ _ => rw [hfdtable, Function.update_of_ne hne]
  show IsEconet (FdTable.closeFd z.2 fd res).1 fd'
  rw [IsEconet, sysDevice_congr hkeep]
  exact h.bound fd' hfd'

theorem OpenInv.opened (h : OpenInv z) {s : FdTable.Sys} {r : Except FdTable.Errno Fd}
    (hr : FdTable.OpenResult z.2 s r) : OpenInv (z.1, s) := by
  refine ⟨fun fd hfd => ?_, h.table.opened hr⟩
  have heco := h.bound fd hfd
  show IsEconet s fd
  rw [IsEconet, sysDevice_congr (hr.keepsUsed.1 fd (flags_of_econet heco))]
  exact heco

/-- The last access of `SYS_close`. -/
theorem closeTable_open (res : FdTable.FResult) (a : Option Reply)
    (hz : z.1.vars.fdRxPortmap fd = 0#8) :
    CallOpen (Prog.modify .plain (fun z => (z.1, (FdTable.closeFd z.2 fd res).1)) >>= fun _ =>
      pure a) z := by
  refine safe_modify fun z' hr hi _ => ⟨trivial, ?_, ?_⟩
  · exact OpenInv.closed hi (stable_unbound z z' hr hi hz) res
  · exact safe_ret_stable stable_true trivial fun _ hi _ => OpenInv.finish hi a

theorem fdCode_open (c : FdCall) : CallOpen c.code z := by
  cases c with
  | «open» pathname flags res =>
    refine safe_modify fun z' _ hi _ => ⟨trivial, ?_, ?_⟩
    · exact OpenInv.opened hi (FdTable.sysOpen_result z'.2 pathname flags res)
    · exact safe_ret_stable stable_true trivial fun _ hi _ => OpenInv.finish hi none
  | close fd res =>
    refine safe_read fun z' hr hi _ => ⟨trivial, ?_⟩
    split
    · refine safe_bind ((econetClose_open fd).mono fun reply z _ hz => ?_)
      exact closeTable_open res reply hz
    · next hdev =>
      -- a descriptor of another device is not bound
      have hfd : z'.1.vars.fdRxPortmap fd = 0#8 := by
        by_contra hne
        have heco := OpenInv.bound hi fd hne
        exact hdev ⟨three_le_of_econet (OpenInv.table hi) heco, heco⟩
      exact closeTable_open res none hfd
  | io c =>
    exact callOpen_of_code fun z' _ =>
      open_leaves stable_true (leaves_comp (leaves_code c) Prod.fst) trivial
  | ioctl fd request dest => exact callOpen_of_code fun z' hz => econetIoctl_open request dest hz

end Open

theorem fd_openVerified :
    Verified fdKernel openThread openThread EveryAccess EveryAccess AnyFdMove fun _ => True where
  env_thread i z hz _ :=
    have hk : KeepsMap z (z.1.hw i, z.2) := ⟨congrArg Vars.fdRxPortmap (hw_vars z.1 i).1, rfl⟩
    ⟨OpenInv.keeps hz hk, hk⟩
  env_isr i z hz _ :=
    have hk : KeepsMap z (z.1.hw i, z.2) := ⟨congrArg Vars.fdRxPortmap (hw_vars z.1 i).1, rfl⟩
    ⟨OpenInv.keeps hz hk, hk⟩
  isr z hz _ := by
    refine ⟨hz, (open_leaves (A := KeepsMap z) ?_ ?_ ⟨rfl, rfl⟩).mono fun _ _ hi h => ⟨hi, h⟩⟩
    · exact fun z' z'' hr _ h => ⟨hr.1.trans h.1, hr.2.trans h.2⟩
    · exact leaves_comp leaves_isrTrap fun v => v.2.2.1.2.1
  call c z _ _ := fdCode_open c
  ready_rely _ _ _ _ _ := trivial

/-- **Bound descriptors are open**, in every state that is reached. -/
theorem boundOpen_run {y : FdSystem} (hy : FdInit y) (es : List FdEvent) :
    OpenInv (Machine.run (Interrupted.step fdKernel) y es).shared := by
  have hinv := portInv_of_init hy
  have hstart : Interrupted.Sound fdKernel openThread openThread EveryAccess EveryAccess
      (fun _ => True) y := by
    obtain ⟨z, t, i⟩ := y
    obtain rfl : t = none := hy.thread
    obtain rfl : i = none := hy.isr
    exact ⟨⟨hinv.bound, hinv.table⟩, trivial⟩
  have hany : ∀ (y : FdSystem) (e : FdEvent), y.Meets EveryAccess AnyFdMove e := by
    intro y e
    cases e with
    | thread => exact ⟨fun _ _ => trivial, trivial⟩
    | isr => exact ⟨fun _ _ => trivial, trivial⟩
    | env i => exact ⟨trivial, trivial⟩
    | call c => exact ⟨trivial, trivial⟩
    | interrupt => exact ⟨trivial, trivial⟩
  have hsound := Machine.run_invariant_of_step
    (fun y e hy => Interrupted.Sound.step fd_openVerified hy e (hany y e)) es hstart
  unfold Interrupted.Sound at hsound
  split at hsound
  · exact hsound.1
  · exact hsound.1

/-! ### What a descriptor is left with -/

section Left

variable {α β : Type} {z : FdState} {fd : Fd}

/-- The entries of a descriptor. -/
def mapsAt (fd : Fd) (d : Driver) : BitVec 8 × EconetAddr :=
  (d.vars.fdRxPortmap fd, d.vars.fdTxDestmap fd)

/-- Anything but a control call on the descriptor, or one that closes it. -/
def Spares (fd : Fd) : FdEvent → Prop
  | .call (.ioctl fd' _ _) => fd' ≠ fd
  | .call (.close fd' _) => fd' ≠ fd
  | _ => True

instance (fd : Fd) : ∀ e : FdEvent, Decidable (Spares fd e)
  | .call (.ioctl fd' _ _) => inferInstanceAs (Decidable (fd' ≠ fd))
  | .call (.close fd' _) => inferInstanceAs (Decidable (fd' ≠ fd))
  | .call (.open ..) | .call (.io _) | .env _ | .thread | .interrupt | .isr => isTrue trivial

/-- An open Econet descriptor with these entries. -/
def OpenWith (fd : Fd) (m : BitVec 8 × EconetAddr) (z : FdState) : Prop :=
  IsEconet z.2 fd ∧ mapsAt fd z.1 = m

variable {m : BitVec 8 × EconetAddr}

/-- Code that leaves the entries of the descriptor. -/
theorem acts_onDriver {A : FdState → Prop} {p : Code α} {r : α → β}
    (hp : p.Acts fun _ f => ∀ z, A z → A (f z.1, z.2)) :
    (onDriver r p).Acts (Interrupted.Keeps A) :=
  Prog.acts_observe (fun _ h => h) (fun _ _ h => h) hp

theorem openWith_leaves {p : Code α} {r : α → β} (hp : Leaves (mapsAt fd) p) :
    (onDriver r p).Acts (Interrupted.Keeps (OpenWith fd m)) :=
  acts_onDriver (hp.mono fun _ _ hf z hz => ⟨hz.1, (hf z.1).trans hz.2⟩)

theorem acts_sysCall {A : FdState → Prop} {fd' : Fd} {p : Code Reply}
    (hp : (onDriver some p).Acts (Interrupted.Keeps A)) :
    (sysCall fd' p).Acts (Interrupted.Keeps A) := by
  refine Prog.acts_bind ⟨fun _ h => h, fun _ => trivial⟩ fun device => ?_
  split
  · exact hp
  · trivial

theorem openWith_table {s : FdTable.Sys} (h : s.fdtable fd = z.2.fdtable fd)
    (hz : OpenWith fd m z) : OpenWith fd m (z.1, s) := by
  refine ⟨?_, hz.2⟩
  show IsEconet s fd
  rw [IsEconet, sysDevice_congr h]
  exact hz.1

theorem openWith_close {fd' : Fd} (hne : fd' ≠ fd) (res : FdTable.FResult) (a : Option Reply) :
    (Prog.modify Access.plain (fun z : FdState => (z.1, (FdTable.closeFd z.2 fd' res).1)) >>=
      fun _ => pure a).Acts (Interrupted.Keeps (OpenWith fd m)) := by
  refine Prog.acts_bind ⟨fun z hz => openWith_table ?_ hz, fun _ => trivial⟩ fun _ => trivial
  cases FdTable.closeFd_result z.2 fd' res with
  | kept hs => rw [hs]
  | closed _ _ hfdtable _ _ => rw [hfdtable, Function.update_of_ne hne.symm]

/-- Calls that spare a descriptor. -/
theorem openWith_code {c : FdCall} (hc : Spares fd (.call c)) :
    c.code.Acts (Interrupted.Keeps (OpenWith fd m)) := by
  cases c with
  | «open» pathname flags res =>
    refine Prog.acts_bind ⟨fun z hz => openWith_table ?_ hz, fun _ => trivial⟩ fun _ => trivial
    exact (FdTable.sysOpen_result z.2 pathname flags res).keepsUsed.1 fd (flags_of_econet hz.1)
  | close fd' res =>
    have hne : fd' ≠ fd := hc
    refine Prog.acts_bind ⟨fun _ h => h, fun _ => trivial⟩ fun device => ?_
    split
    · refine Prog.acts_bind (openWith_leaves ?_) fun reply => openWith_close hne res reply
      refine Prog.acts_bind (leaves_load _) fun port => ?_
      split
      · refine Prog.acts_bind (leaves_modify fun _ => rfl) fun _ =>
          Prog.acts_bind (leaves_modify fun d => ?_) fun _ => leaves_pure _
        exact Prod.ext (Function.update_of_ne hne.symm ..) rfl
      · exact Prog.acts_bind (leaves_pure _) fun _ => leaves_pure _
    · exact openWith_close hne res none
  | io c =>
    exact acts_sysCall (openWith_leaves (leaves_comp (leaves_code c) fun v => (v.1 fd, v.2 fd)))
  | ioctl fd' request dest =>
    have hne : fd' ≠ fd := hc
    apply acts_sysCall
    apply openWith_leaves
    have hdest : ∀ f, Leaves (mapsAt fd) (storeDest fd' f) := fun f =>
      leaves_modify fun d => Prod.ext rfl (Function.update_of_ne hne.symm ..)
    obtain heq | ⟨-, heq⟩ | hleaves := econetIoctl_cases fd' request dest
    · rw [heq]
      refine Prog.acts_bind (leaves_modify fun d => ?_) fun _ =>
        Prog.acts_bind (leaves_modify fun _ => rfl) fun _ => leaves_pure _
      exact Prod.ext (Function.update_of_ne hne.symm ..) rfl
    · rw [heq]
      exact acts_econetSetTxAddr fd' dest (hdest _) (hdest _) (hdest _)
    · exact leaves_comp hleaves fun v => (v.1 fd, v.2 fd)

/-- A control call does not give the descriptor a destination. -/
def SetsNone (fd : Fd) : FdEvent → Prop
  | .call (.ioctl fd' request dest) =>
    fd' = fd → request &&& 0xFF000000#32 = 0x03000000#32 → dest.station = 0#8
  | _ => True

/-- The descriptor has no destination. -/
def Unset (fd : Fd) (z : FdState) : Prop := (z.1.vars.fdTxDestmap fd).station = 0#8

theorem unset_leaves {p : Code α} {r : α → β} (hp : Leaves maps p) :
    (onDriver r p).Acts (Interrupted.Keeps (Unset fd)) := by
  apply acts_onDriver
  refine hp.mono fun _ f hf z hz => ?_
  have hmap : (f z.1).vars.fdTxDestmap = z.1.vars.fdTxDestmap := congrArg Prod.snd (hf z.1)
  show ((f z.1).vars.fdTxDestmap fd).station = 0#8
  rw [hmap]
  exact hz

theorem unset_storeDest {fd' : Fd} {f : EconetAddr → EconetAddr}
    (hf : fd' = fd → ∀ a, a.station = 0#8 → (f a).station = 0#8) :
    (storeDest fd' f).Acts fun _ f => ∀ z : FdState, Unset fd z → Unset fd (f z.1, z.2) := by
  refine ⟨fun z hz => ?_, fun _ => trivial⟩
  show (Function.update z.1.vars.fdTxDestmap fd' (f (z.1.vars.fdTxDestmap fd')) fd).station = 0#8
  by_cases hfd : fd' = fd
  · rw [hfd, Function.update_self]
    exact hf hfd _ hz
  · rw [Function.update_of_ne (Ne.symm hfd)]
    exact hz

/-- Calls that give a descriptor no destination. -/
theorem unset_code {c : FdCall} (hc : SetsNone fd (.call c)) :
    c.code.Acts (Interrupted.Keeps (Unset fd)) := by
  cases c with
  | «open» pathname flags res =>
    exact Prog.acts_bind ⟨fun _ h => h, fun _ => trivial⟩ fun _ => trivial
  | close fd' res =>
    have hclose : ∀ a, (Prog.modify Access.plain (fun z : FdState =>
        (z.1, (FdTable.closeFd z.2 fd' res).1)) >>= fun _ => pure a).Acts
        (Interrupted.Keeps (Unset fd)) := fun a : Option Reply =>
      Prog.acts_bind ⟨fun _ h => h, fun _ => trivial⟩ fun _ => trivial
    refine Prog.acts_bind ⟨fun _ h => h, fun _ => trivial⟩ fun device => ?_
    split
    · refine Prog.acts_bind (acts_onDriver ?_) hclose
      refine Prog.acts_bind ⟨fun _ h => h, fun _ => trivial⟩ fun port => ?_
      split
      · exact Prog.acts_bind ⟨fun _ h => h, fun _ => trivial⟩ fun _ =>
          Prog.acts_bind ⟨fun _ h => h, fun _ => trivial⟩ fun _ => trivial
      · trivial
    · exact hclose none
  | io c => exact acts_sysCall (unset_leaves (leaves_code c))
  | ioctl fd' request dest =>
    apply acts_sysCall
    obtain heq | ⟨htx, heq⟩ | hleaves := econetIoctl_cases fd' request dest
    · rw [heq]
      exact acts_onDriver (Prog.acts_bind ⟨fun _ h => h, fun _ => trivial⟩ fun _ =>
        Prog.acts_bind ⟨fun _ h => h, fun _ => trivial⟩ fun _ => trivial)
    · rw [heq]
      apply acts_onDriver
      apply acts_econetSetTxAddr
      · exact unset_storeDest fun _ _ h => h
      · exact unset_storeDest fun _ _ h => h
      · exact unset_storeDest fun hfd _ _ => hc hfd htx
    · exact unset_leaves hleaves

end Left

/-! ### Calls on a descriptor -/

/-- What may happen between two accesses of a call: the hardware makes a move, or the handler runs
among such moves. -/
inductive OtherStep : Driver → Driver → Prop
  | hw {d : Driver} (i : Hw) : OtherStep d (d.hw i)
  | isr {d d' : Driver}
    (h : isrTrap.Finishes (fun d d' => ∃ is, d' = Machine.run Driver.hw d is) d () d') :
    OtherStep d d'

/-- What may happen meanwhile. -/
def Others : Driver → Driver → Prop := Relation.ReflTransGen OtherStep

theorem besideHandler_hw (d : Driver) (i : Hw) : besideHandler (d.hw i) = besideHandler d := by
  rw [besideHandler, besideHandler, (hw_vars d i).1, hw_monitorMode]

/-- The code relies on what the handler does not change. -/
def tableThread : Contract Driver where
  inv _ := True
  rely d d' := besideHandler d' = besideHandler d
  refl _ := rfl
  trans h h' := h'.trans h

theorem stable_beside (v : _) : Stable tableThread fun d => besideHandler d = v :=
  fun _ _ hr _ h => hr.trans h

theorem besideHandler_run (d : Driver) (is : List Hw) :
    besideHandler (Machine.run Driver.hw d is) = besideHandler d :=
  Machine.run_invariant_of_step (I := fun d' => besideHandler d' = besideHandler d)
    (fun d' i h => (besideHandler_hw d' i).trans h) is rfl

theorem Others.beside {d d' : Driver} (h : Others d d') : besideHandler d' = besideHandler d := by
  induction h with
  | refl => rfl
  | @tail d₁ d₂ _ hstep ih =>
    refine Eq.trans ?_ ih
    cases hstep with
    | hw i => exact besideHandler_hw d₁ i
    | isr hfin =>
      have hsafe : Safe tableThread anyAccess anyAccess
          (fun _ d => besideHandler d = besideHandler d₁) isrTrap d₁ :=
        safe_of_acts (stable_beside (besideHandler d₁))
          (leaves_isrTrap.mono fun _ f hf d _ _ hd => ⟨trivial, trivial, (hf d).trans hd⟩) rfl
      refine hsafe.finishes (fun _ _ => trivial) ?_ trivial hfin
      rintro d _ - ⟨is, rfl⟩
      exact ⟨trivial, besideHandler_run d is⟩

/-- A call returns, and returns nothing but this. -/
def OnlyReturns (p : Code Reply) (d : Driver) (reply : Reply) : Prop :=
  (∃ r d', p.Finishes Others d r d') ∧ ∀ r d', p.Finishes Others d r d' → r = reply

section Calls

variable {d : Driver} {fd : Fd}

theorem tableThread_others {Q : Reply → Driver → Prop} {p : Code Reply} {r : Reply} {d' : Driver}
    (h : Safe tableThread anyAccess anyAccess Q p d) (hfin : p.Finishes Others d r d') : Q r d' :=
  h.finishes (fun _ _ => trivial) (fun _ _ _ h => ⟨trivial, h.beside⟩) trivial hfin

theorem econetRead_unbound (ptr count : BitVec 32) (hm : d.rx.regs.monitorMode = false)
    (hport : d.vars.fdRxPortmap fd = 0#8) :
    OnlyReturns (econetRead fd ptr count) d (.error .einval) := by
  constructor
  · refine ⟨.error .einval, d, Prog.finishes_of_alone (fun _ => .refl) ?_⟩
    rw [econetRead, load, Prog.alone_read, hm, if_neg Bool.false_ne_true, load, Prog.alone_read,
      if_pos hport]
    rfl
  · intro r d' hfin
    refine tableThread_others (Q := fun r _ => r = .error .einval) ?_ hfin
    refine safe_read fun d₁ hr _ _ => ⟨trivial, ?_⟩
    have hmode : d₁.rx.regs.monitorMode = false := (congrArg (fun v => v.2.2.2) hr).trans hm
    rw [hmode, if_neg Bool.false_ne_true]
    refine safe_read fun d₂ hr₂ _ _ => ⟨trivial, ?_⟩
    have hmap : d₂.vars.fdRxPortmap fd = 0#8 :=
      (congrArg (fun v => v.2.2.1.2.1 fd) (hr₂.trans hr)).trans hport
    rw [if_pos hmap]
    exact fun _ _ _ => rfl

/-- `econet_write` up to the check of the destination, and what is behind it. -/
theorem econetWrite_dest (ptr : BitVec 32) {bytes : List (BitVec 8)} (hlen : bytes.length ≤ 2040)
    {Q : Reply → Driver → Prop} (hunset : (d.vars.fdTxDestmap fd).station = 0#8 → ∀ d',
      Q (.error .edestaddrreq) d')
    (hset : (d.vars.fdTxDestmap fd).station ≠ 0#8 → ∀ r d', r ≠ .error .edestaddrreq → Q r d') :
    Safe tableThread anyAccess anyAccess Q (econetWrite fd ptr bytes) d := by
  unfold econetWrite
  rw [if_neg (by omega)]
  refine safe_modify fun d₁ hr₁ _ _ => ⟨trivial, trivial, ?_⟩
  refine safe_modify fun d₂ hr₂ _ _ => ⟨trivial, trivial, ?_⟩
  refine safe_modify fun d₃ hr₃ _ _ => ⟨trivial, trivial, ?_⟩
  refine safe_read fun d₄ hr₄ _ _ => ⟨trivial, ?_⟩
  have hmap : d₄.vars.fdTxDestmap = d.vars.fdTxDestmap :=
    congrArg (fun v => v.2.2.1.2.2) (hr₄.trans (hr₃.trans (hr₂.trans hr₁)))
  rw [hmap]
  split
  · next h0 => exact fun d' _ _ => hunset h0 d'
  · next h0 =>
    refine safe_wait fun _ _ _ _ => ⟨trivial, fun _ _ _ _ _ => ⟨trivial, fun _ => ⟨trivial, ?_⟩⟩⟩
    refine safe_bind ((safe_of_acts (A := fun _ => True) (fun _ _ _ _ _ => trivial)
      ((leaves_setUpFrames _ ptr bytes).mono fun _ _ _ _ _ _ _ =>
        ⟨trivial, trivial, trivial⟩) trivial).mono fun _ _ _ _ => ?_)
    refine safe_modify fun _ _ _ _ => ⟨trivial, trivial, ?_⟩
    refine safe_modify fun _ _ _ _ => ⟨trivial, trivial, ?_⟩
    refine safe_wait fun _ _ _ _ => ⟨trivial, fun _ => ⟨trivial, ?_⟩⟩
    refine safe_read fun _ _ _ _ => ⟨trivial, ?_⟩
    -- the handshake ends with a count or with one of two other errors
    split
    · exact fun d' _ _ => hset h0 _ d' (by simp)
    · refine safe_read fun _ _ _ _ => ⟨trivial, ?_⟩
      split
      · exact fun d' _ _ => hset h0 _ d' (by simp)
      · exact fun d' _ _ => hset h0 _ d' (by simp)

theorem econetWrite_unset (ptr : BitVec 32) {bytes : List (BitVec 8)} (hlen : bytes.length ≤ 2040)
    (hdest : (d.vars.fdTxDestmap fd).station = 0#8) :
    OnlyReturns (econetWrite fd ptr bytes) d (.error .edestaddrreq) := by
  constructor
  · have halone : ∃ d', (econetWrite fd ptr bytes).alone d = some (.error .edestaddrreq, d') := by
      unfold econetWrite
      rw [if_neg (by omega), store, Prog.alone_modify, store, Prog.alone_modify, storeTxStatus,
        Prog.alone_modify, load, Prog.alone_read, if_pos hdest]
      exact ⟨_, rfl⟩
    obtain ⟨d', halone⟩ := halone
    exact ⟨_, d', Prog.finishes_of_alone (fun _ => .refl) halone⟩
  · intro r d' hfin
    refine tableThread_others (Q := fun r _ => r = .error .edestaddrreq) ?_ hfin
    exact econetWrite_dest ptr hlen (fun _ _ => rfl) fun hne => absurd hdest hne

/-- No old binding is left: a write and, when the monitor mode is off, a read are rejected. -/
structure Fresh (fd : Fd) (d : Driver) : Prop where
  write : ∀ ptr bytes, bytes.length ≤ 2040 →
    OnlyReturns (econetWrite fd ptr bytes) d (.error .edestaddrreq)
  read : d.rx.regs.monitorMode = false → ∀ ptr count,
    OnlyReturns (econetRead fd ptr count) d (.error .einval)

theorem fresh_iff (hport : d.vars.fdRxPortmap fd = 0#8) :
    Fresh fd d ↔ (d.vars.fdTxDestmap fd).station = 0#8 := by
  constructor
  · intro h
    by_contra hne
    obtain ⟨⟨r, d', hfin⟩, hall⟩ := h.write 0#32 [] (Nat.zero_le _)
    refine tableThread_others (Q := fun r _ => r ≠ .error .edestaddrreq) ?_ hfin (hall r d' hfin)
    exact econetWrite_dest 0#32 (Nat.zero_le _) (fun h0 => absurd h0 hne) fun _ _ _ hr => hr
  · exact fun h => ⟨fun ptr bytes hlen => econetWrite_unset ptr hlen h,
      fun hm ptr count => econetRead_unbound ptr count hm hport⟩

end Calls

/-! ### Descriptors that are opened again -/

/-- `SYS_open` of `/dev/econet`. -/
abbrev openCode (flags : BitVec 32) (res : FdTable.FResult) : Prog FdState Access (Option Reply) :=
  sysOpenCode "/dev/econet".toList flags res

/-- What the table has for a descriptor that is opened. -/
theorem opened_econet {s : FdTable.Sys} {flags : BitVec 32} {res : FdTable.FResult} {fd : Fd}
    (h : (FdTable.sysOpen s "/dev/econet".toList flags (FdTable.plainOpen res)).2 = .ok fd) :
    (s.fdtable fd).flags = 0#32 ∧
      IsEconet (FdTable.sysOpen s "/dev/econet".toList flags (FdTable.plainOpen res)).1 fd := by
  have hdev : FdTable.sysOpen s "/dev/econet".toList flags (FdTable.plainOpen res) =
      FdTable.openDevice s "econet".toList flags := by
    rw [FdTable.sysOpen, if_pos (by decide)]
    rfl
  rw [hdev] at h ⊢
  have hres := FdTable.openDevice_result s "econet".toList flags
  obtain ⟨hflags, hf⟩ := FdTable.openDevice_fdfunc (f := .econet) (by decide) (Prod.ext rfl h)
  rw [h] at hres
  refine ⟨?_, ?_⟩
  · cases hres with
    | opened hfree _ _ _ _ => exact (FdTable.firstFree_eq_some hfree).1
  · rw [IsEconet, FdTable.sysDevice, if_pos hflags, hf]

/-- A free descriptor is not bound. -/
theorem OpenInv.unbound {z : FdState} (h : OpenInv z) {fd : Fd}
    (hfree : (z.2.fdtable fd).flags = 0#32) : z.1.vars.fdRxPortmap fd = 0#8 := by
  by_contra hne
  exact flags_of_econet (h.bound fd hne) hfree

theorem acts_handler {A : FdState → Prop}
    (hA : ∀ (z : FdState) (d : Driver), besideHandler d = besideHandler z.1 → A z → A (d, z.2)) :
    fdKernel.isr.Acts (Interrupted.Keeps A) :=
  acts_onDriver (leaves_isrTrap.mono fun _ f hf z hz => hA z (f z.1) (hf z.1) hz)

theorem besideHandler_finish (a : Option Reply) (z : FdState) :
    besideHandler (fdKernel.finish a z).1 = besideHandler z.1 := by
  cases a with
  | none => rfl
  | some reply => cases reply <;> rfl

/-- **A run that keeps an assertion** of the table and of what the handler does not change. -/
theorem fd_run_keeps {A : FdState → Prop}
    (hA : ∀ (z : FdState) (d : Driver), besideHandler d = besideHandler z.1 → A z → A (d, z.2))
    {es : List FdEvent} (hes : ∀ e ∈ es, ∀ c, e = .call c → c.code.Acts (Interrupted.Keeps A))
    {y : FdSystem} (hy : y.ActsBy (Interrupted.Keeps A) (Interrupted.Keeps A)) (h : A y.shared) :
    A (Machine.run (Interrupted.step fdKernel) y es).shared := by
  refine hy.run_keeps ?_ ?_ (acts_handler hA) hes h
  · exact fun i z hz => hA z _ (besideHandler_hw z.1 i) hz
  · exact fun a z hz => hA z _ (besideHandler_finish a z) hz

/-- **Old bindings**: in every run, up to any control call on a descriptor of `/dev/econet` that has
just been opened, a write and a read on it are rejected if and only if the destination of its number
was not set when it was opened; so they are if it had never been set. -/
theorem reopened_iff (y : FdSystem) (hy : FdInit y) (es : List FdEvent) (y₁ y₂ : FdSystem)
    (hy₁ : y₁ = Machine.run (Interrupted.step fdKernel) y es) (flags : BitVec 32)
    (res : FdTable.FResult) (fd : Fd) (hthread : y₁.thread = some (openCode flags res))
    (hisr : y₁.isr = none)
    (hopen : (FdTable.sysOpen y₁.shared.2 "/dev/econet".toList flags (FdTable.plainOpen res)).2 =
      .ok fd)
    (es' : List FdEvent) (hes' : ∀ e ∈ es', Spares fd e)
    (hy₂ : y₂ = Machine.run (Interrupted.step fdKernel) y₁ (.thread :: es')) :
    IsEconet y₂.shared.2 fd ∧
      (Fresh fd y₂.shared.1 ↔ (y₁.shared.1.vars.fdTxDestmap fd).station = 0#8) ∧
      ((∀ e ∈ es, SetsNone fd e) → (y.shared.1.vars.fdTxDestmap fd).station = 0#8 →
        Fresh fd y₂.shared.1) := by
  have hinv : OpenInv y₁.shared := by
    rw [hy₁]
    exact boundOpen_run hy es
  obtain ⟨hfree, heco⟩ := opened_econet hopen
  have hunbound := hinv.unbound hfree
  have hwith : OpenWith fd (0#8, y₁.shared.1.vars.fdTxDestmap fd) y₂.shared := by
    obtain ⟨z, t, i⟩ := y₁
    obtain rfl : t = some (openCode flags res) := hthread
    obtain rfl : i = none := hisr
    rw [hy₂, Machine.run_cons]
    refine fd_run_keeps ?_ ?_ ⟨?_, fun _ h => (nomatch h)⟩ ⟨heco, Prod.ext hunbound rfl⟩
    · intro z d hd hz
      have hmaps : mapsAt fd d = mapsAt fd z.1 :=
        congrArg (fun v => (v.2.2.1.2.1 fd, v.2.2.1.2.2 fd)) hd
      exact ⟨hz.1, hmaps.trans hz.2⟩
    · rintro e he c rfl
      exact openWith_code (hes' _ he)
    · intro p hp
      obtain rfl := Option.some.inj hp
      trivial
  obtain ⟨hport, hdest⟩ := Prod.mk.inj hwith.2
  have hiff : Fresh fd y₂.shared.1 ↔ (y₁.shared.1.vars.fdTxDestmap fd).station = 0#8 := by
    rw [fresh_iff hport, hdest]
  refine ⟨hwith.1, hiff, fun hes hzero => hiff.mpr ?_⟩
  have hunset : Unset fd y₁.shared := by
    rw [hy₁]
    refine fd_run_keeps ?_ ?_ ⟨?_, ?_⟩ hzero
    · intro z d hd hz
      have hmap : d.vars.fdTxDestmap = z.1.vars.fdTxDestmap := congrArg (fun v => v.2.2.1.2.2) hd
      show (d.vars.fdTxDestmap fd).station = 0#8
      rw [hmap]
      exact hz
    · rintro e he c rfl
      exact unset_code (hes _ he)
    · rw [hy.thread]
      exact fun _ h => (nomatch h)
    · rw [hy.isr]
      exact fun _ h => (nomatch h)
  exact hunset

/-- Station `0x42` before any call, with no destination set. -/
def freshStation : FdSystem where
  shared := ({ bootStation.shared.1 with vars := { bootStation.shared.1.vars with
    fdTxDestmap := fun _ => ⟨0#8, 0#8, 0#8⟩ } }, bootStation.shared.2)
  thread := none
  isr := none

theorem fdInit_freshStation : FdInit freshStation :=
  ⟨rfl, rfl, ⟨_, rfl⟩, fun _ => rfl, fun _ => rfl⟩

/-- The first descriptor of a station is fresh. -/
theorem freshStation_fresh :
    Fresh 3 (Machine.run (Interrupted.step fdKernel) freshStation openEconet).shared.1 := by
  have hrun : Machine.run (Interrupted.step fdKernel) freshStation openEconet =
      Machine.run (Interrupted.step fdKernel) (Machine.run (Interrupted.step fdKernel) freshStation
        [.call (.open "/dev/econet".toList 2#32 .FR_OK)])
        (.thread :: List.replicate 7 .thread) := rfl
  rw [hrun]
  refine (reopened_iff freshStation fdInit_freshStation
    [.call (.open "/dev/econet".toList 2#32 .FR_OK)] _ _ rfl 2#32 .FR_OK 3 rfl rfl
    (by decide +kernel) (List.replicate 7 .thread) (by decide) rfl).2.2 ?_ rfl
  intro e he
  rw [List.mem_singleton.mp he]
  trivial

/-- A descriptor is given a destination, closed and opened again. -/
def reopenRun : List FdEvent :=
  openEconet ++ systemCall (.ioctl 3 0x03000000#32 ⟨0x99#8, 0#8, 1#8⟩) ++
    systemCall (.close 3 .FR_OK) ++ openEconet

/-- The new descriptor has the destination of the old one. -/
theorem reopenRun_stale :
    FdInit freshStation ∧ (∀ fd, Unset fd freshStation.shared) ∧
      ∃ y, y = Machine.run (Interrupted.step fdKernel) freshStation reopenRun ∧
        y.thread.isNone = true ∧ IsEconet y.shared.2 3 ∧ ¬Fresh 3 y.shared.1 := by
  refine ⟨fdInit_freshStation, fun _ => rfl, _, rfl, ?_⟩
  have hrun :
      (Machine.run (Interrupted.step fdKernel) freshStation reopenRun).thread.isNone = true ∧
      IsEconet (Machine.run (Interrupted.step fdKernel) freshStation reopenRun).shared.2 3 ∧
      mapsAt 3 (Machine.run (Interrupted.step fdKernel) freshStation reopenRun).shared.1 =
        (0#8, ⟨0x99#8, 0#8, 1#8⟩) := by
    decide +kernel
  obtain ⟨hidle, heco, hmaps⟩ := hrun
  obtain ⟨hport, hdest⟩ := Prod.mk.inj hmaps
  refine ⟨hidle, heco, fun h => ?_⟩
  rw [fresh_iff hport, hdest] at h
  exact absurd h (by decide)

end Filestick.RawEconet
