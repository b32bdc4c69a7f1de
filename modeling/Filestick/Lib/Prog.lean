import Filestick.Lib.Machine

/-!
# Programs that are interrupted

A `Prog` is a program over a shared state whose accesses are atomic and carry a label; between two
of them anything may happen.  `Interrupted` is one processor with a program that it runs on request
(the thread), an interrupt handler, and an environment that moves between any two accesses.  The
handler runs to its end before the thread goes on.

A `Contract` has an invariant of the shared state and a relation that the other parties keep to (the
rely).  `Safe` says that a program keeps the invariant at each access, whatever the others do.

* `Safe.rely`, `Safe.mono`, `safe_bind`, `safe_read`, `safe_modify`, `safe_wait`: the rules for
  programs.
* `safe_of_acts`: a program whose accesses all keep a relation keeps it as a whole.
* `Verified.run_sound`: when the thread and the handler keep their contracts, every run of the
  system whose steps meet the conditions keeps the invariants, and each access is as guaranteed.
* `ActsBy.shared`: what a step does to the shared state, given what the accesses are;
  `ActsBy.run_keeps`: an assertion that they all keep.
* `alone`, `Safe.alone`, `run_alone`, `run_isr_alone`: a program that runs by itself, and the steps
  of the system that it takes.
-/

namespace Filestick

/-- A program: `act` is one access, whose result is a function of the state before it, and `poll`
reads conditions in turn, starting again when one holds, until the last one fails; `exit` is what is
noted in the state when that happens. -/
inductive Prog (σ ℓ α : Type) where
  | ret (a : α)
  | act (l : ℓ) (f : σ → σ) (k : σ → Prog σ ℓ α)
  | poll (all rest : List (ℓ × (σ → Bool))) (last : ℓ × (σ → Bool)) (exit : σ → σ) (k : Prog σ ℓ α)

namespace Prog

variable {σ ℓ α β : Type}

/-- Sequencing. -/
def bind : Prog σ ℓ α → (α → Prog σ ℓ β) → Prog σ ℓ β
  | .ret a, g => g a
  | .act l f k, g => .act l f fun s => (k s).bind g
  | .poll all rest last exit k, g => .poll all rest last exit (k.bind g)

instance : Monad (Prog σ ℓ) where
  pure := .ret
  bind := .bind

theorem bind_assoc {γ : Type} (p : Prog σ ℓ α) (g : α → Prog σ ℓ β) (h : β → Prog σ ℓ γ) :
    p >>= g >>= h = p >>= fun a => g a >>= h := by
  show (p.bind g).bind h = p.bind fun a => (g a).bind h
  induction p with
  | ret a => rfl
  | act l f k ih => exact congrArg (act l f) (funext ih)
  | poll all rest last exit k ih => exact congrArg (poll all rest last exit) ih

/-- An access that reads. -/
def read (l : ℓ) (f : σ → α) : Prog σ ℓ α := .act l id fun s => .ret (f s)

/-- An access that writes. -/
def modify (l : ℓ) (f : σ → σ) : Prog σ ℓ Unit := .act l f fun _ => .ret ()

/-- A loop that reads conditions until none holds. -/
def wait (cs : List (ℓ × (σ → Bool))) (last : ℓ × (σ → Bool)) (exit : σ → σ) : Prog σ ℓ Unit :=
  .poll cs cs last exit (.ret ())

/-- The label of the next access. -/
def next : Prog σ ℓ α → Option ℓ
  | .ret _ => none
  | .act l _ _ => some l
  | .poll _ [] last _ _ => some last.1
  | .poll _ (c :: _) _ _ _ => some c.1

/-- The next access. -/
def advance : Prog σ ℓ α → σ → Prog σ ℓ α × σ
  | .ret a, s => (.ret a, s)
  | .act _ f k, s => (k s, f s)
  | .poll all [] last exit k, s =>
    if last.2 s then (.poll all all last exit k, s) else (k, exit s)
  | .poll all (c :: rest) last exit k, s =>
    if c.2 s then (.poll all all last exit k, s) else (.poll all rest last exit k, s)

end Prog

/-! ### Contracts -/

/-- An invariant of the shared state, and what the other parties keep to. -/
structure Contract (σ : Type) where
  inv : σ → Prop
  rely : σ → σ → Prop
  refl : ∀ s, rely s s
  trans : ∀ {s s' s''}, rely s s' → rely s' s'' → rely s s''

section Rules

variable {σ ℓ α β : Type} {T : Contract σ} {cond guar : ℓ → σ → Prop}

/-- The reads of a loop that are left: `K` holds of the state in which the last one fails. -/
def Passes (T : Contract σ) (cond guar : ℓ → σ → Prop) (last : ℓ × (σ → Bool)) (exit : σ → σ)
    (K : σ → Prop) : List (ℓ × (σ → Bool)) → σ → Prop
  | [], s => ∀ s', T.rely s s' → T.inv s' → cond last.1 s' →
      guar last.1 s' ∧ (last.2 s' = false → T.inv (exit s') ∧ K (exit s'))
  | c :: rest, s => ∀ s', T.rely s s' → T.inv s' → cond c.1 s' →
      guar c.1 s' ∧ (c.2 s' = false → Passes T cond guar last exit K rest s')

/-- Whatever the other parties do between two accesses, each access on which `cond` holds is one on
which `guar` holds, it keeps the invariant, and `Q` holds at the end. -/
def Safe (T : Contract σ) (cond guar : ℓ → σ → Prop) (Q : α → σ → Prop) : Prog σ ℓ α → σ → Prop
  | .ret a, s => ∀ s', T.rely s s' → T.inv s' → Q a s'
  | .act l f k, s => ∀ s', T.rely s s' → T.inv s' → cond l s' →
      guar l s' ∧ T.inv (f s') ∧ Safe T cond guar Q (k s') (f s')
  | .poll all rest last exit k, s =>
      Passes T cond guar last exit (Safe T cond guar Q k) all s ∧
        Passes T cond guar last exit (Safe T cond guar Q k) rest s

theorem Passes.rely {last : ℓ × (σ → Bool)} {exit : σ → σ} {K : σ → Prop}
    {rest : List (ℓ × (σ → Bool))} {s s' : σ} (hs : T.rely s s')
    (h : Passes T cond guar last exit K rest s) : Passes T cond guar last exit K rest s' := by
  cases rest with
  | nil => exact fun s'' hr => h s'' (T.trans hs hr)
  | cons c rest => exact fun s'' hr => h s'' (T.trans hs hr)

/-- What the other parties do keeps a program safe. -/
theorem Safe.rely {Q : α → σ → Prop} {p : Prog σ ℓ α} {s s' : σ} (hs : T.rely s s')
    (h : Safe T cond guar Q p s) : Safe T cond guar Q p s' := by
  cases p with
  | ret a => exact fun s'' hr => h s'' (T.trans hs hr)
  | act l f k => exact fun s'' hr => h s'' (T.trans hs hr)
  | poll all rest last exit k => exact ⟨h.1.rely hs, h.2.rely hs⟩

theorem Passes.mono {last : ℓ × (σ → Bool)} {exit : σ → σ} {K K' : σ → Prop}
    (hK : ∀ s, K s → K' s) (rest : List (ℓ × (σ → Bool))) {s : σ}
    (h : Passes T cond guar last exit K rest s) : Passes T cond guar last exit K' rest s := by
  induction rest generalizing s with
  | nil =>
    intro s' hr hi hc
    obtain ⟨h1, h2⟩ := h s' hr hi hc
    exact ⟨h1, fun hl => ⟨(h2 hl).1, hK _ (h2 hl).2⟩⟩
  | cons c rest ih =>
    intro s' hr hi hc
    obtain ⟨h1, h2⟩ := h s' hr hi hc
    exact ⟨h1, fun hl => ih (h2 hl)⟩

/-- A weaker postcondition. -/
theorem Safe.mono {Q Q' : α → σ → Prop} (hQ : ∀ a s, T.inv s → Q a s → Q' a s) {p : Prog σ ℓ α}
    {s : σ} (h : Safe T cond guar Q p s) : Safe T cond guar Q' p s := by
  induction p generalizing s with
  | ret a => exact fun s' hr hi => hQ a s' hi (h s' hr hi)
  | act l f k ih =>
    intro s' hr hi hc
    obtain ⟨h1, h2, h3⟩ := h s' hr hi hc
    exact ⟨h1, h2, ih s' h3⟩
  | poll all rest last exit k ih => exact ⟨h.1.mono (fun _ => ih) all, h.2.mono (fun _ => ih) rest⟩

/-- A program is safe when it is in all states that the other parties may lead to. -/
theorem safe_of_forall {Q : α → σ → Prop} {p : Prog σ ℓ α} {s : σ}
    (h : ∀ s', T.rely s s' → T.inv s' → Safe T cond guar Q p s') : Safe T cond guar Q p s := by
  have hpass : ∀ {last : ℓ × (σ → Bool)} {exit : σ → σ} {K : σ → Prop}
      (rest : List (ℓ × (σ → Bool))),
      (∀ s', T.rely s s' → T.inv s' → Passes T cond guar last exit K rest s') →
      Passes T cond guar last exit K rest s := by
    intro last exit K rest hr
    cases rest with
    | nil => exact fun s' hs hi => hr s' hs hi s' (T.refl s') hi
    | cons c rest => exact fun s' hs hi => hr s' hs hi s' (T.refl s') hi
  cases p with
  | ret a => exact fun s' hr hi => h s' hr hi s' (T.refl s') hi
  | act l f k => exact fun s' hr hi => h s' hr hi s' (T.refl s') hi
  | poll all rest last exit k =>
    exact ⟨hpass all fun s' hr hi => (h s' hr hi).1, hpass rest fun s' hr hi => (h s' hr hi).2⟩

/-- **Sequencing.** -/
theorem safe_bind {Q : β → σ → Prop} {p : Prog σ ℓ α} {g : α → Prog σ ℓ β} {s : σ}
    (h : Safe T cond guar (fun a s' => Safe T cond guar Q (g a) s') p s) :
    Safe T cond guar Q (p >>= g) s := by
  show Safe T cond guar Q (p.bind g) s
  induction p generalizing s with
  | ret a => exact safe_of_forall h
  | act l f k ih =>
    intro s' hr hi hc
    obtain ⟨h1, h2, h3⟩ := h s' hr hi hc
    exact ⟨h1, h2, ih s' h3⟩
  | poll all rest last exit k ih => exact ⟨h.1.mono (fun _ => ih) all, h.2.mono (fun _ => ih) rest⟩

theorem safe_read {Q : β → σ → Prop} {l : ℓ} {f : σ → α} {g : α → Prog σ ℓ β} {s : σ}
    (h : ∀ s', T.rely s s' → T.inv s' → cond l s' →
      guar l s' ∧ Safe T cond guar Q (g (f s')) s') :
    Safe T cond guar Q (Prog.read l f >>= g) s := by
  intro s' hr hi hc
  obtain ⟨h1, h2⟩ := h s' hr hi hc
  exact ⟨h1, hi, h2⟩

theorem safe_modify {Q : β → σ → Prop} {l : ℓ} {f : σ → σ} {g : Unit → Prog σ ℓ β} {s : σ}
    (h : ∀ s', T.rely s s' → T.inv s' → cond l s' →
      guar l s' ∧ T.inv (f s') ∧ Safe T cond guar Q (g ()) (f s')) :
    Safe T cond guar Q (Prog.modify l f >>= g) s := h

theorem safe_wait {Q : β → σ → Prop} {cs : List (ℓ × (σ → Bool))} {last : ℓ × (σ → Bool)}
    {exit : σ → σ} {g : Unit → Prog σ ℓ β} {s : σ}
    (h : Passes T cond guar last exit (fun s' => Safe T cond guar Q (g ()) s') cs s) :
    Safe T cond guar Q (Prog.wait cs last exit >>= g) s := ⟨h, h⟩

/-! ### Assertions -/

/-- The other parties keep an assertion. -/
def Stable (T : Contract σ) (A : σ → Prop) : Prop := ∀ s s', T.rely s s' → T.inv s' → A s → A s'

theorem safe_ret_stable {Q : α → σ → Prop} {A : σ → Prop} (hA : Stable T A) {s : σ}
    (hs : A s) {a : α} (h : ∀ s', T.inv s' → A s' → Q a s') : Safe T cond guar Q (pure a) s :=
  fun s' hr hi => h s' hi (hA s s' hr hi hs)

theorem safe_read_stable {Q : β → σ → Prop} {A : σ → Prop} (hA : Stable T A) {s : σ}
    (hs : A s) {l : ℓ} {f : σ → α} {g : α → Prog σ ℓ β} (hg : ∀ s', T.inv s' → A s' → guar l s')
    (h : ∀ s', T.inv s' → cond l s' → A s' → Safe T cond guar Q (g (f s')) s') :
    Safe T cond guar Q (Prog.read l f >>= g) s := by
  refine safe_read fun s' hr hi hc => ?_
  have hs' := hA s s' hr hi hs
  exact ⟨hg s' hi hs', h s' hi hc hs'⟩

theorem safe_modify_stable {Q : β → σ → Prop} {A B : σ → Prop} (hA : Stable T A) {s : σ} (hs : A s)
    {l : ℓ} {f : σ → σ} {g : Unit → Prog σ ℓ β}
    (hf : ∀ s', T.inv s' → cond l s' → A s' → guar l s' ∧ T.inv (f s') ∧ B (f s'))
    (h : ∀ s', T.inv s' → B s' → Safe T cond guar Q (g ()) s') :
    Safe T cond guar Q (Prog.modify l f >>= g) s := by
  refine safe_modify fun s' hr hi hc => ?_
  obtain ⟨h1, h2, h3⟩ := hf s' hi hc (hA s s' hr hi hs)
  exact ⟨h1, h2, h (f s') h2 h3⟩

/-! ### Frames -/

/-- All accesses of a program, with their labels, satisfy `P`. -/
def Prog.Acts (P : ℓ → (σ → σ) → Prop) : Prog σ ℓ α → Prop
  | .ret _ => True
  | .act l f k => P l f ∧ ∀ s, (k s).Acts P
  | .poll all rest last exit k => (∀ c ∈ all, P c.1 id) ∧ (∀ c ∈ rest, P c.1 id) ∧
    P last.1 exit ∧ k.Acts P

theorem Prog.acts_bind {P : ℓ → (σ → σ) → Prop} {p : Prog σ ℓ α} {g : α → Prog σ ℓ β}
    (hp : p.Acts P) (hg : ∀ a, (g a).Acts P) : (p >>= g).Acts P := by
  show (p.bind g).Acts P
  induction p with
  | ret a => exact hg a
  | act l f k ih => exact ⟨hp.1, fun s => ih s (hp.2 s)⟩
  | poll all rest last exit k ih => exact ⟨hp.1, hp.2.1, hp.2.2.1, ih hp.2.2.2⟩

theorem Prog.Acts.mono {P P' : ℓ → (σ → σ) → Prop} (h : ∀ l f, P l f → P' l f) {p : Prog σ ℓ α}
    (hp : p.Acts P) : p.Acts P' := by
  induction p with
  | ret a => trivial
  | act l f k ih => exact ⟨h l f hp.1, fun s => ih s (hp.2 s)⟩
  | poll all rest last exit k ih =>
    exact ⟨fun c hc => h _ _ (hp.1 c hc), fun c hc => h _ _ (hp.2.1 c hc), h _ _ hp.2.2.1,
      ih hp.2.2.2⟩

theorem Prog.Acts.and {P P' : ℓ → (σ → σ) → Prop} {p : Prog σ ℓ α} (hp : p.Acts P)
    (hp' : p.Acts P') :
    p.Acts fun l f => P l f ∧ P' l f := by
  induction p with
  | ret a => trivial
  | act l f k ih => exact ⟨⟨hp.1, hp'.1⟩, fun s => ih s (hp.2 s) (hp'.2 s)⟩
  | poll all rest last exit k ih =>
    exact ⟨fun c hc => ⟨hp.1 c hc, hp'.1 c hc⟩, fun c hc => ⟨hp.2.1 c hc, hp'.2.1 c hc⟩,
      ⟨hp.2.2.1, hp'.2.2.1⟩, ih hp.2.2.2 hp'.2.2.2⟩

/-- **Frame rule**: an assertion that the other parties and each access of a program keep, the
program keeps. -/
theorem safe_of_acts {A : σ → Prop} (hA : Stable T A) {p : Prog σ ℓ α}
    (hp : p.Acts fun l f => ∀ s, T.inv s → cond l s → A s → guar l s ∧ T.inv (f s) ∧ A (f s))
    {s : σ} (hs : A s) : Safe T cond guar (fun _ s' => A s') p s := by
  induction p generalizing s with
  | ret a => exact fun s' hr hi => hA s s' hr hi hs
  | act l f k ih =>
    intro s' hr hi hc
    obtain ⟨h1, h2, h3⟩ := hp.1 s' hi hc (hA s s' hr hi hs)
    exact ⟨h1, h2, ih s' (hp.2 s') h3⟩
  | poll all rest last exit k ih =>
    have hpass : ∀ (cs : List (ℓ × (σ → Bool))) {s : σ},
        (∀ c ∈ cs, ∀ s, T.inv s → cond c.1 s → A s → guar c.1 s ∧ T.inv (id s) ∧ A (id s)) → A s →
        Passes T cond guar last exit (Safe T cond guar (fun _ s' => A s') k) cs s := by
      intro cs
      induction cs with
      | nil =>
        intro s _ hs s' hr hi hc
        obtain ⟨h1, h2, h3⟩ := hp.2.2.1 s' hi hc (hA s s' hr hi hs)
        exact ⟨h1, fun _ => ⟨h2, ih hp.2.2.2 h3⟩⟩
      | cons c cs ihc =>
        intro s hcs hs s' hr hi hc
        have hs' := hA s s' hr hi hs
        refine ⟨(hcs c List.mem_cons_self s' hi hc hs').1, fun _ => ?_⟩
        exact ihc (fun c' hc' => hcs c' (List.mem_cons_of_mem c hc')) hs'
    exact ⟨hpass all hp.1 hs, hpass rest hp.2.1 hs⟩

end Rules

/-! ### One processor -/

/-- What a processor runs: the moves `ι` of the environment, the programs that can be called for,
what a result leaves in the state, the handler, and whether interrupts are enabled. -/
structure Kernel (σ ℓ ι κ α : Type) where
  env : ι → σ → σ
  call : κ → Prog σ ℓ α
  finish : α → σ → σ
  isr : Prog σ ℓ Unit
  enabled : σ → Bool

/-- The shared state, what is left of the call in progress, and of the handler. -/
structure Interrupted (σ ℓ α : Type) where
  shared : σ
  thread : Option (Prog σ ℓ α)
  isr : Option (Prog σ ℓ Unit)

/-- The steps of the system. -/
inductive SysEvent (ι κ : Type) where
  | env (i : ι)
  | call (c : κ)
  | thread
  | interrupt
  | isr

namespace Interrupted

variable {σ ℓ ι κ α : Type} (K : Kernel σ ℓ ι κ α)

/-- A step of the thread. -/
def stepThread (y : Interrupted σ ℓ α) : Interrupted σ ℓ α :=
  match y.thread with
  | none => y
  | some (.ret a) => { y with thread := none, shared := K.finish a y.shared }
  | some p => { y with thread := some (p.advance y.shared).1, shared := (p.advance y.shared).2 }

/-- A step of the handler. -/
def stepIsr (y : Interrupted σ ℓ α) : Interrupted σ ℓ α :=
  match y.isr with
  | none => y
  | some (.ret _) => { y with isr := none }
  | some p => { y with isr := some (p.advance y.shared).1, shared := (p.advance y.shared).2 }

/-- A step; one that is not possible changes nothing. -/
def step (y : Interrupted σ ℓ α) : SysEvent ι κ → Interrupted σ ℓ α
  | .env i => { y with shared := K.env i y.shared }
  | .call c => if y.thread.isNone && y.isr.isNone then { y with thread := some (K.call c) } else y
  | .thread => if y.isr.isNone then y.stepThread K else y
  | .interrupt =>
    if y.isr.isNone && K.enabled y.shared then { y with isr := some K.isr } else y
  | .isr => y.stepIsr

/-- The next access of the thread, which waits for the handler. -/
def threadNext (y : Interrupted σ ℓ α) : Option ℓ :=
  if y.isr.isNone then y.thread.bind Prog.next else none

/-- The next access of the handler. -/
def isrNext (y : Interrupted σ ℓ α) : Option ℓ := y.isr.bind Prog.next

/-- `P` holds of the access that a step makes, if it makes one. -/
def OnAccess (P : ℓ → σ → Prop) (y : Interrupted σ ℓ α) : SysEvent ι κ → Prop
  | .thread => ∀ l ∈ y.threadNext, P l y.shared
  | .isr => ∀ l ∈ y.isrNext, P l y.shared
  | _ => True

/-- The conditions on a step: on an access, and on a move of the environment, which may depend on
whether the handler runs. -/
def Meets (cond : ℓ → σ → Prop) (envCond : Bool → ι → σ → Prop) (y : Interrupted σ ℓ α)
    (e : SysEvent ι κ) : Prop :=
  y.OnAccess cond e ∧ match e with
    | .env i => envCond y.isr.isSome i y.shared
    | _ => True

instance {P : ℓ → σ → Prop} [∀ l s, Decidable (P l s)] (y : Interrupted σ ℓ α) :
    ∀ e : SysEvent ι κ, Decidable (y.OnAccess P e)
  | .thread => inferInstanceAs (Decidable (∀ l ∈ y.threadNext, P l y.shared))
  | .isr => inferInstanceAs (Decidable (∀ l ∈ y.isrNext, P l y.shared))
  | .env _ => isTrue trivial
  | .call _ => isTrue trivial
  | .interrupt => isTrue trivial

instance {cond : ℓ → σ → Prop} {envCond : Bool → ι → σ → Prop} [∀ l s, Decidable (cond l s)]
    [∀ b i s, Decidable (envCond b i s)] (y : Interrupted σ ℓ α) :
    ∀ e : SysEvent ι κ, Decidable (y.Meets cond envCond e)
  | .env i => inferInstanceAs (Decidable (_ ∧ envCond y.isr.isSome i y.shared))
  | .thread => inferInstanceAs (Decidable (_ ∧ True))
  | .isr => inferInstanceAs (Decidable (_ ∧ True))
  | .call _ => inferInstanceAs (Decidable (_ ∧ True))
  | .interrupt => inferInstanceAs (Decidable (_ ∧ True))

end Interrupted

/-! ### Verified systems -/

section Verified

variable {σ ℓ ι κ α : Type} {K : Kernel σ ℓ ι κ α} {T H : Contract σ} {cond guar : ℓ → σ → Prop}
  {envCond : Bool → ι → σ → Prop} {ready : σ → Prop}

/-- The thread keeps the contract `T`, the handler the contract `H`; from its start to its end the
handler keeps to what the thread relies on.  `ready` is what holds between two calls. -/
structure Verified (K : Kernel σ ℓ ι κ α) (T H : Contract σ) (cond guar : ℓ → σ → Prop)
    (envCond : Bool → ι → σ → Prop) (ready : σ → Prop) : Prop where
  env_thread : ∀ i s, T.inv s → envCond false i s → T.inv (K.env i s) ∧ T.rely s (K.env i s)
  env_isr : ∀ i s, H.inv s → envCond true i s → H.inv (K.env i s) ∧ H.rely s (K.env i s)
  isr : ∀ s, T.inv s → K.enabled s = true →
    H.inv s ∧ Safe H cond guar (fun _ s' => T.inv s' ∧ T.rely s s') K.isr s
  call : ∀ c s, T.inv s → ready s →
    Safe T cond guar (fun a s' => T.inv (K.finish a s') ∧ ready (K.finish a s')) (K.call c) s
  ready_rely : ∀ s s', T.inv s' → ready s → T.rely s s' → ready s'

namespace Interrupted

/-- The thread is safe, or ready for a call. -/
def ThreadSound (K : Kernel σ ℓ ι κ α) (T : Contract σ) (cond guar : ℓ → σ → Prop)
    (ready : σ → Prop) :
    Option (Prog σ ℓ α) → σ → Prop
  | none, s => ready s
  | some p, s => Safe T cond guar (fun a s' => T.inv (K.finish a s') ∧ ready (K.finish a s')) p s

/-- The invariant of a verified system. -/
def Sound (K : Kernel σ ℓ ι κ α) (T H : Contract σ) (cond guar : ℓ → σ → Prop) (ready : σ → Prop)
    (y : Interrupted σ ℓ α) : Prop :=
  match y.isr with
  | none => T.inv y.shared ∧ ThreadSound K T cond guar ready y.thread y.shared
  | some p => H.inv y.shared ∧
      Safe H cond guar (fun _ s => T.inv s ∧ ThreadSound K T cond guar ready y.thread s) p y.shared

theorem threadSound_rely (hV : Verified K T H cond guar envCond ready) {t : Option (Prog σ ℓ α)}
    {s s' : σ} (hs : T.rely s s') (hi : T.inv s') (h : ThreadSound K T cond guar ready t s) :
    ThreadSound K T cond guar ready t s' := by
  cases t with
  | none => exact hV.ready_rely s s' hi h hs
  | some p => exact Safe.rely hs h

/-- One access of a safe program. -/
theorem safe_advance {β : Type} {Q : β → σ → Prop} {p : Prog σ ℓ β} {s : σ} (hi : T.inv s)
    (h : Safe T cond guar Q p s) (hc : ∀ l, p.next = some l → cond l s) :
    (∀ l, p.next = some l → guar l s) ∧ T.inv (p.advance s).2 ∧
      Safe T cond guar Q (p.advance s).1 (p.advance s).2 := by
  cases p with
  | ret a => exact ⟨fun _ hp => (nomatch hp), hi, h⟩
  | act l f k =>
    obtain ⟨h1, h2, h3⟩ := h s (T.refl s) hi (hc l rfl)
    exact ⟨fun l' hl' => Option.some.inj hl' ▸ h1, h2, h3⟩
  | poll all rest last exit k =>
    -- a read that holds sends the loop back to its first read
    cases rest with
    | nil =>
      obtain ⟨h1, h2⟩ := h.2 s (T.refl s) hi (hc last.1 rfl)
      refine ⟨fun l' hl' => Option.some.inj hl' ▸ h1, ?_⟩
      by_cases hl : last.2 s = true
      · rw [Prog.advance, if_pos hl]
        exact ⟨hi, h.1, h.1⟩
      · rw [Prog.advance, if_neg hl]
        exact h2 (Bool.eq_false_iff.mpr hl)
    | cons c rest =>
      obtain ⟨h1, h2⟩ := h.2 s (T.refl s) hi (hc c.1 rfl)
      refine ⟨fun l' hl' => Option.some.inj hl' ▸ h1, ?_⟩
      by_cases hl : c.2 s = true
      · rw [Prog.advance, if_pos hl]
        exact ⟨hi, h.1, h.1⟩
      · rw [Prog.advance, if_neg hl]
        exact ⟨hi, h.1, h2 (Bool.eq_false_iff.mpr hl)⟩

/-- A step of the thread. -/
theorem Sound.stepThread {y : Interrupted σ ℓ α}
    (hy : Sound K T H cond guar ready y) (hisr : y.isr = none)
    (hc : ∀ l ∈ y.threadNext, cond l y.shared) :
    Sound K T H cond guar ready (y.stepThread K) := by
  obtain ⟨s, t, i⟩ := y
  obtain rfl : i = none := hisr
  obtain ⟨hi, ht⟩ := hy
  cases t with
  | none => exact ⟨hi, ht⟩
  | some p =>
    cases p with
    | ret a => exact ht s (T.refl s) hi
    | act l f k => exact (safe_advance hi ht hc).2
    | poll all rest last exit k => exact (safe_advance hi ht hc).2

/-- A step of the handler. -/
theorem Sound.stepIsr {y : Interrupted σ ℓ α} (hy : Sound K T H cond guar ready y)
    (hc : ∀ l ∈ y.isrNext, cond l y.shared) :
    Sound K T H cond guar ready y.stepIsr := by
  obtain ⟨s, t, i⟩ := y
  cases i with
  | none => exact hy
  | some p =>
    obtain ⟨hi, hp⟩ := hy
    cases p with
    | ret a => exact hp s (H.refl s) hi
    | act l f k => exact (safe_advance hi hp hc).2
    | poll all rest last exit k => exact (safe_advance hi hp hc).2

/-- **One step of a verified system.** -/
theorem Sound.step (hV : Verified K T H cond guar envCond ready) {y : Interrupted σ ℓ α}
    (hy : Sound K T H cond guar ready y) (e : SysEvent ι κ) (he : y.Meets cond envCond e) :
    Sound K T H cond guar ready (y.step K e) := by
  obtain ⟨s, t, i⟩ := y
  cases e with
  | env j =>
    cases i with
    | none =>
      obtain ⟨h1, h2⟩ := hV.env_thread j s hy.1 he.2
      exact ⟨h1, threadSound_rely hV h2 h1 hy.2⟩
    | some p =>
      obtain ⟨h1, h2⟩ := hV.env_isr j s hy.1 he.2
      exact ⟨h1, hy.2.rely h2⟩
  | call c =>
    cases t with
    | some p => exact hy
    | none =>
      cases i with
      | some q => exact hy
      | none => exact ⟨hy.1, hV.call c s hy.1 hy.2⟩
  | thread =>
    cases i with
    | some q => exact hy
    | none =>
      exact Sound.stepThread hy rfl he.1
  | interrupt =>
    cases i with
    | some q => exact hy
    | none =>
      cases hen : K.enabled s with
      | false =>
        simp only [Interrupted.step, hen, Bool.and_false, Bool.false_eq_true, if_false]
        exact hy
      | true =>
        simp only [Interrupted.step, hen, Option.isNone_none, Bool.and_self, if_true]
        -- the thread is held until the handler ends, and has then what it relies on
        obtain ⟨h1, h2⟩ := hV.isr s hy.1 hen
        exact ⟨h1, h2.mono fun _ s' _ h => ⟨h.1, threadSound_rely hV h.2 h.1 hy.2⟩⟩
  | isr =>
    exact Sound.stepIsr hy he.1

/-- The access of a step is one that is guaranteed. -/
theorem Sound.guarded {y : Interrupted σ ℓ α}
    (hy : Sound K T H cond guar ready y) (e : SysEvent ι κ) (he : y.Meets cond envCond e) :
    y.OnAccess guar e := by
  obtain ⟨s, t, i⟩ := y
  cases e with
  | thread =>
    cases i with
    | some q => exact fun _ hl => (nomatch hl)
    | none =>
      cases t with
      | none => exact fun _ hl => (nomatch hl)
      | some p => exact (safe_advance hy.1 hy.2 he.1).1
  | isr =>
    cases i with
    | none => exact fun _ hl => (nomatch hl)
    | some p => exact (safe_advance hy.1 hy.2 he.1).1
  | env j => trivial
  | call c => trivial
  | interrupt => trivial

/-- **Every run of a verified system** whose steps meet the conditions keeps the invariants. -/
theorem run_sound (hV : Verified K T H cond guar envCond ready) {y : Interrupted σ ℓ α}
    (hy : Sound K T H cond guar ready y) (es : List (SysEvent ι κ))
    (hes : Machine.StepsMeet (Interrupted.step K) (Meets cond envCond) y es) :
    Sound K T H cond guar ready (Machine.run (Interrupted.step K) y es) :=
  Machine.run_invariant (I := Sound K T H cond guar ready)
    (fun _ e hs he => Sound.step hV hs e he) es y hy hes

/-- **Every access of such a run** is one that is guaranteed. -/
theorem run_guarded (hV : Verified K T H cond guar envCond ready) {y : Interrupted σ ℓ α}
    (hy : Sound K T H cond guar ready y) (es : List (SysEvent ι κ))
    (hes : Machine.StepsMeet (Interrupted.step K) (Meets cond envCond) y es) :
    Machine.StepsMeet (Interrupted.step K) (OnAccess guar) y es := by
  induction es generalizing y with
  | nil => trivial
  | cons e es ih => exact ⟨hy.guarded e hes.1, ih (Sound.step hV hy e hes.1) hes.2⟩

end Interrupted

end Verified

/-! ### What the accesses of a system do -/

theorem Prog.Acts.advance {σ ℓ α : Type} {P : ℓ → (σ → σ) → Prop} {p : Prog σ ℓ α}
    (hp : p.Acts P) (s : σ) :
    (p.advance s).1.Acts P ∧
      ((p.advance s).2 = s ∨ ∃ l ∈ p.next, ∃ f, P l f ∧ (p.advance s).2 = f s) := by
  cases p with
  | ret a => exact ⟨trivial, Or.inl rfl⟩
  | act l f k => exact ⟨hp.2 s, Or.inr ⟨l, rfl, f, hp.1, rfl⟩⟩
  | poll all rest last exit k =>
    obtain ⟨hall, hrest, hlast, hk⟩ := hp
    cases rest with
    | nil =>
      by_cases hc : last.2 s = true
      · rw [Prog.advance, if_pos hc]
        exact ⟨⟨hall, hall, hlast, hk⟩, Or.inl rfl⟩
      · rw [Prog.advance, if_neg hc]
        exact ⟨hk, Or.inr ⟨last.1, rfl, exit, hlast, rfl⟩⟩
    | cons c rest =>
      by_cases hc : c.2 s = true
      · rw [Prog.advance, if_pos hc]
        exact ⟨⟨hall, hall, hlast, hk⟩, Or.inl rfl⟩
      · rw [Prog.advance, if_neg hc]
        exact ⟨⟨hall, fun c' hc' => hrest c' (List.mem_cons_of_mem c hc'), hlast, hk⟩, Or.inl rfl⟩

namespace Interrupted

variable {σ ℓ ι κ α : Type} {K : Kernel σ ℓ ι κ α} {P Q : ℓ → (σ → σ) → Prop}
  {y : Interrupted σ ℓ α}

/-- All accesses left of the thread satisfy `P`, and all left of the handler `Q`. -/
structure ActsBy (P Q : ℓ → (σ → σ) → Prop) (y : Interrupted σ ℓ α) : Prop where
  thread : ∀ p ∈ y.thread, p.Acts P
  isr : ∀ p ∈ y.isr, p.Acts Q

theorem ActsBy.step_of {e : SysEvent ι κ} (hcall : ∀ c, e = .call c → (K.call c).Acts P)
    (hisr : K.isr.Acts Q) (hy : ActsBy P Q y) : ActsBy P Q (y.step K e) := by
  obtain ⟨s, t, i⟩ := y
  obtain ⟨ht, hi⟩ := hy
  cases e with
  | env j => exact ⟨ht, hi⟩
  | call c =>
    simp only [Interrupted.step]
    split
    · exact ⟨fun p hp => Option.some.inj hp ▸ hcall c rfl, hi⟩
    · exact ⟨ht, hi⟩
  | thread =>
    simp only [Interrupted.step]
    split
    · cases t with
      | none => exact ⟨ht, hi⟩
      | some p =>
        have hp := ((ht p rfl).advance s).1
        cases p with
        | ret a => exact ⟨fun p hp => (nomatch hp), hi⟩
        | act l f k => exact ⟨fun q hq => Option.some.inj hq ▸ hp, hi⟩
        | poll all rest last exit k => exact ⟨fun q hq => Option.some.inj hq ▸ hp, hi⟩
    · exact ⟨ht, hi⟩
  | interrupt =>
    simp only [Interrupted.step]
    split
    · exact ⟨ht, fun p hp => Option.some.inj hp ▸ hisr⟩
    · exact ⟨ht, hi⟩
  | isr =>
    cases i with
    | none => exact ⟨ht, hi⟩
    | some p =>
      have hp := ((hi p rfl).advance s).1
      cases p with
      | ret a => exact ⟨ht, fun p hp => (nomatch hp)⟩
      | act l f k => exact ⟨ht, fun q hq => Option.some.inj hq ▸ hp⟩
      | poll all rest last exit k => exact ⟨ht, fun q hq => Option.some.inj hq ▸ hp⟩

theorem ActsBy.step (hcall : ∀ c, (K.call c).Acts P) (hisr : K.isr.Acts Q) (hy : ActsBy P Q y)
    (e : SysEvent ι κ) : ActsBy P Q (y.step K e) :=
  hy.step_of (fun c _ => hcall c) hisr

/-- **What a step does to the shared state.** -/
theorem ActsBy.shared (hy : ActsBy P Q y) (e : SysEvent ι κ) :
    (y.step K e).shared = y.shared ∨ (∃ i, (y.step K e).shared = K.env i y.shared) ∨
      (∃ a, (y.step K e).shared = K.finish a y.shared) ∨
      (∃ l f, e = .thread ∧ l ∈ y.threadNext ∧ P l f ∧ (y.step K e).shared = f y.shared) ∨
      ∃ l f, e = .isr ∧ l ∈ y.isrNext ∧ Q l f ∧ (y.step K e).shared = f y.shared := by
  obtain ⟨s, t, i⟩ := y
  obtain ⟨ht, hi⟩ := hy
  cases e with
  | env j => exact Or.inr (Or.inl ⟨j, rfl⟩)
  | call c =>
    left
    simp only [Interrupted.step]
    split <;> rfl
  | thread =>
    cases i with
    | some q => exact Or.inl rfl
    | none =>
      cases t with
      | none => exact Or.inl rfl
      | some p =>
        have hp := ((ht p rfl).advance s).2
        cases p with
        | ret a => exact Or.inr (Or.inr (Or.inl ⟨a, rfl⟩))
        | act l f k =>
          exact hp.elim Or.inl fun ⟨l, hl, f, hf, h⟩ =>
            Or.inr (Or.inr (Or.inr (Or.inl ⟨l, f, rfl, hl, hf, h⟩)))
        | poll all rest last exit k =>
          exact hp.elim Or.inl fun ⟨l, hl, f, hf, h⟩ =>
            Or.inr (Or.inr (Or.inr (Or.inl ⟨l, f, rfl, hl, hf, h⟩)))
  | interrupt =>
    left
    simp only [Interrupted.step]
    split <;> rfl
  | isr =>
    cases i with
    | none => exact Or.inl rfl
    | some p =>
      have hp := ((hi p rfl).advance s).2
      cases p with
      | ret a => exact Or.inl rfl
      | act l f k =>
        exact hp.elim Or.inl fun ⟨l, hl, f, hf, h⟩ =>
          Or.inr (Or.inr (Or.inr (Or.inr ⟨l, f, rfl, hl, hf, h⟩)))
      | poll all rest last exit k =>
        exact hp.elim Or.inl fun ⟨l, hl, f, hf, h⟩ =>
          Or.inr (Or.inr (Or.inr (Or.inr ⟨l, f, rfl, hl, hf, h⟩)))

/-- An access keeps an assertion. -/
def Keeps (A : σ → Prop) (_ : ℓ) (f : σ → σ) : Prop := ∀ s, A s → A (f s)

/-- **Every run** whose calls keep an assertion, as the handler and the environment do, keeps it. -/
theorem ActsBy.run_keeps {A : σ → Prop} (henv : ∀ i s, A s → A (K.env i s))
    (hfinish : ∀ a s, A s → A (K.finish a s)) (hisr : K.isr.Acts (Keeps A))
    {es : List (SysEvent ι κ)} (hes : ∀ e ∈ es, ∀ c, e = .call c → (K.call c).Acts (Keeps A))
    (hy : ActsBy (Keeps A) (Keeps A) y) (hA : A y.shared) :
    A (Machine.run (Interrupted.step K) y es).shared := by
  induction es generalizing y with
  | nil => exact hA
  | cons e es ih =>
    have hstep : A (y.step K e).shared := by
      rcases hy.shared (K := K) e with hs | ⟨i, hs⟩ | ⟨a, hs⟩ | ⟨_, f, -, -, hf, hs⟩ |
        ⟨_, f, -, -, hf, hs⟩
      · rw [hs]
        exact hA
      · rw [hs]
        exact henv i _ hA
      · rw [hs]
        exact hfinish a _ hA
      · rw [hs]
        exact hf _ hA
      · rw [hs]
        exact hf _ hA
    exact ih (fun e' he' => hes e' (List.mem_cons_of_mem e he'))
      (hy.step_of (hes e List.mem_cons_self) hisr) hstep

end Interrupted

/-! ### Programs that run by themselves -/

namespace Prog

variable {σ ℓ α β : Type}

/-- The result and the state at the end; none when a loop does not end. -/
def alone : Prog σ ℓ α → σ → Option (α × σ)
  | .ret a, s => some (a, s)
  | .act _ f k, s => (k s).alone (f s)
  | .poll _ rest last exit k, s =>
    if rest.any (fun c => c.2 s) || last.2 s then none else k.alone (exit s)

theorem alone_bind (p : Prog σ ℓ α) (g : α → Prog σ ℓ β) (s : σ) :
    (p >>= g).alone s = (p.alone s).bind fun r => (g r.1).alone r.2 := by
  show (p.bind g).alone s = _
  induction p generalizing s with
  | ret a => rfl
  | act l f k ih => exact ih s (f s)
  | poll all rest last exit k ih =>
    simp only [bind, alone]
    split
    · rfl
    · exact ih (exit s)

@[simp] theorem alone_pure (a : α) (s : σ) : (pure a : Prog σ ℓ α).alone s = some (a, s) := rfl

@[simp] theorem alone_read (l : ℓ) (f : σ → α) (g : α → Prog σ ℓ β) (s : σ) :
    (read l f >>= g).alone s = (g (f s)).alone s := rfl

@[simp] theorem alone_modify (l : ℓ) (f : σ → σ) (g : Unit → Prog σ ℓ β) (s : σ) :
    (modify l f >>= g).alone s = (g ()).alone (f s) := rfl

/-- A program that comes to its end by itself, from every state. -/
def Ends (p : Prog σ ℓ α) : Prop := ∀ s, ∃ r, p.alone s = some r

theorem ends_pure (a : α) : (pure a : Prog σ ℓ α).Ends := fun s => ⟨(a, s), rfl⟩

theorem ends_read (l : ℓ) (f : σ → α) : (read l f).Ends := fun s => ⟨(f s, s), rfl⟩

theorem ends_modify (l : ℓ) (f : σ → σ) : (modify l f).Ends := fun s => ⟨((), f s), rfl⟩

theorem ends_bind {p : Prog σ ℓ α} {g : α → Prog σ ℓ β} (hp : p.Ends) (hg : ∀ a, (g a).Ends) :
    (p >>= g).Ends := by
  intro s
  obtain ⟨⟨a, s'⟩, ha⟩ := hp s
  obtain ⟨r, hr⟩ := hg a s'
  exact ⟨r, by rw [alone_bind, ha]; exact hr⟩

/-- A loop whose conditions all fail is left at once. -/
theorem alone_wait {last : ℓ × (σ → Bool)} {exit : σ → σ} {s : σ} (h : last.2 s = false)
    (g : Unit → Prog σ ℓ β) : (wait [] last exit >>= g).alone s = (g ()).alone (exit s) := by
  show (if ([] : List (ℓ × (σ → Bool))).any (fun c => c.2 s) || last.2 s then none
    else (g ()).alone (exit s)) = _
  rw [h]
  rfl

/-- A loop whose last condition holds is not left. -/
theorem alone_wait_none {last : ℓ × (σ → Bool)} {exit : σ → σ} {s : σ} (h : last.2 s = true)
    (g : Unit → Prog σ ℓ β) : (wait [] last exit >>= g).alone s = none := by
  show (if ([] : List (ℓ × (σ → Bool))).any (fun c => c.2 s) || last.2 s then none
    else (g ()).alone (exit s)) = _
  rw [h]
  rfl

end Prog

/-- **What is shown of a program that is interrupted** holds when it runs by itself. -/
theorem Safe.alone {σ ℓ α : Type} {T : Contract σ} {cond guar : ℓ → σ → Prop}
    (hcond : ∀ l s, cond l s) {Q : α → σ → Prop} {p : Prog σ ℓ α} {s s' : σ} {a : α}
    (h : Safe T cond guar Q p s) (hs : T.inv s) (ha : p.alone s = some (a, s')) : Q a s' := by
  induction p generalizing s with
  | ret b =>
    obtain ⟨rfl, rfl⟩ : b = a ∧ s = s' := by simpa [Prog.alone] using ha
    exact h s (T.refl s) hs
  | act l f k ih =>
    obtain ⟨-, h2, h3⟩ := h s (T.refl s) hs (hcond l s)
    exact ih s h3 h2 ha
  | poll all rest last exit k ih =>
    simp only [Prog.alone] at ha
    split at ha
    · exact absurd ha (by simp)
    · next hno =>
      rw [Bool.not_eq_true, Bool.or_eq_false_iff] at hno
      obtain ⟨hrest, hlast⟩ := hno
      -- the reads that are left all fail, one after the other
      obtain ⟨-, hpass⟩ := h
      induction rest with
      | nil =>
        obtain ⟨h2, h3⟩ := (hpass s (T.refl s) hs (hcond _ s)).2 hlast
        exact ih h3 h2 ha
      | cons c rest ihr =>
        rw [List.any_cons, Bool.or_eq_false_iff] at hrest
        exact ihr hrest.2 ((hpass s (T.refl s) hs (hcond _ s)).2 hrest.1)

namespace Interrupted

variable {σ ℓ ι κ α : Type}

/-- One step for each read of a loop whose conditions fail. -/
theorem run_poll_alone {β : Type} {r : Prog σ ℓ β → σ → Interrupted σ ℓ α} {K : Kernel σ ℓ ι κ α}
    {e : SysEvent ι κ}
    (hstep : ∀ p s, (∀ b, p ≠ .ret b) → step K (r p s) e = r (p.advance s).1 (p.advance s).2)
    {all rest : List (ℓ × (σ → Bool))} {last : ℓ × (σ → Bool)} {exit : σ → σ}
    {k : Prog σ ℓ β} {s : σ}
    (hrest : rest.any (fun c => c.2 s) = false) (hlast : last.2 s = false) {y : Interrupted σ ℓ α}
    (h : ∃ n, Machine.run (step K) (r k (exit s)) (List.replicate n e) = y) :
    ∃ n, Machine.run (step K) (r (.poll all rest last exit k) s) (List.replicate n e) = y := by
  induction rest with
  | nil =>
    obtain ⟨n, hn⟩ := h
    refine ⟨n + 1, ?_⟩
    rw [List.replicate_succ, Machine.run_cons, hstep _ _ (by simp), ← hn]
    simp [Prog.advance, hlast]
  | cons c rest ih =>
    rw [List.any_cons, Bool.or_eq_false_iff] at hrest
    obtain ⟨m, hm⟩ := ih hrest.2
    refine ⟨m + 1, ?_⟩
    rw [List.replicate_succ, Machine.run_cons, hstep _ _ (by simp), ← hm]
    simp [Prog.advance, hrest.1]

/-- A program that runs by itself takes some number of steps `e` to its end, where `r` is the system
with the program in progress and `g` the one after it. -/
theorem run_steps_alone {β : Type} {r : Prog σ ℓ β → σ → Interrupted σ ℓ α}
    {g : β → σ → Interrupted σ ℓ α} {K : Kernel σ ℓ ι κ α} {e : SysEvent ι κ}
    (hstep : ∀ p s, (∀ b, p ≠ .ret b) → step K (r p s) e = r (p.advance s).1 (p.advance s).2)
    (hret : ∀ b s, step K (r (.ret b) s) e = g b s) {p : Prog σ ℓ β} {s s' : σ} {b : β}
    (h : p.alone s = some (b, s')) :
    ∃ n, Machine.run (step K) (r p s) (List.replicate n e) = g b s' := by
  induction p generalizing s with
  | ret a =>
    obtain ⟨rfl, rfl⟩ : a = b ∧ s = s' := by simpa [Prog.alone] using h
    exact ⟨1, hret a s⟩
  | act l f k ih =>
    obtain ⟨n, hn⟩ := ih s h
    refine ⟨n + 1, ?_⟩
    rw [List.replicate_succ, Machine.run_cons, hstep _ _ (by simp)]
    exact hn
  | poll all rest last exit k ih =>
    simp only [Prog.alone] at h
    split at h
    · exact absurd h (by simp)
    · next hno =>
      rw [Bool.not_eq_true, Bool.or_eq_false_iff] at hno
      exact run_poll_alone hstep hno.1 hno.2 (ih h)

/-- **A call that runs by itself** returns, after some number of its steps. -/
theorem run_alone (K : Kernel σ ℓ ι κ α) {p : Prog σ ℓ α} {s s' : σ} {a : α}
    (h : p.alone s = some (a, s')) :
    ∃ n, Machine.run (step K) ⟨s, some p, none⟩ (List.replicate n .thread)
      = ⟨K.finish a s', none, none⟩ := by
  refine run_steps_alone (r := fun p s => ⟨s, some p, none⟩)
    (g := fun a s => ⟨K.finish a s, none, none⟩) (fun p s hp => ?_) (fun _ _ => rfl) h
  cases p with
  | ret b => exact absurd rfl (hp b)
  | act l f k => rfl
  | poll all rest last exit k => rfl

/-- A call that waits for a condition goes on waiting as long as nothing else happens. -/
theorem run_wait_stuck (K : Kernel σ ℓ ι κ α) {last : ℓ × (σ → Bool)} {exit : σ → σ} {s : σ}
    (h : last.2 s = true) (g : Unit → Prog σ ℓ α) (n : ℕ) :
    Machine.run (step K) ⟨s, some (Prog.wait [] last exit >>= g), none⟩ (List.replicate n .thread)
      = ⟨s, some (Prog.wait [] last exit >>= g), none⟩ := by
  have hadvance : (Prog.wait [] last exit >>= g).advance s = (Prog.wait [] last exit >>= g, s) :=
    if_pos h
  induction n with
  | zero => rfl
  | succ n ih =>
    rw [List.replicate_succ, Machine.run_cons]
    show Machine.run (step K) ⟨((Prog.wait [] last exit >>= g).advance s).2,
      some ((Prog.wait [] last exit >>= g).advance s).1, none⟩ _ = _
    rw [hadvance]
    exact ih

/-- **The handler, by itself,** comes to its end after some number of its steps. -/
theorem run_isr_alone (K : Kernel σ ℓ ι κ α) (t : Option (Prog σ ℓ α))
    {p : Prog σ ℓ Unit} {s s' : σ} (h : p.alone s = some ((), s')) :
    ∃ n, Machine.run (step K) ⟨s, t, some p⟩ (List.replicate n .isr) = ⟨s', t, none⟩ := by
  refine run_steps_alone (r := fun p s => ⟨s, t, some p⟩) (g := fun _ s => ⟨s, t, none⟩)
    (fun p s hp => ?_) (fun _ _ => rfl) h
  cases p with
  | ret b => exact absurd rfl (hp b)
  | act l f k => rfl
  | poll all rest last exit k => rfl

end Interrupted

end Filestick
