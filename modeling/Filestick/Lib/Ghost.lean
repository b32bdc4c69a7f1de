import Filestick.Lib.Prog

/-!
# Records beside the state

`Prog.observe g r p` is the program `p` with a record beside its state, which no program reads: an
access with the label `l` in the state `s` makes `g l s x` of the record `x`.  `Kernel.observe` does
so on a processor, where the record is also told what each call returns.

* `acts_observe`, `safe_observe_read`, `safe_observe_modify`, `safe_observe_wait`: the rules for
  programs with a record.
* `observe_run`: the state is the one of the system without a record.
-/

namespace Filestick

namespace Prog

variable {σ ℓ γ α β α' : Type}

/-- A condition of a loop, beside the record. -/
def beside (γ : Type) (c : ℓ × (σ → Bool)) : ℓ × (σ × γ → Bool) := (c.1, fun s => c.2 s.1)

/-- A program with a record; `r` is what becomes of its result. -/
def observe (g : ℓ → σ → γ → γ) (r : α → β) : Prog σ ℓ α → Prog (σ × γ) ℓ β
  | .ret a => .ret (r a)
  | .act l f k => .act l (fun s => (f s.1, g l s.1 s.2)) fun s => (k s.1).observe g r
  | .poll all rest last exit k =>
    .poll (all.map (beside γ)) (rest.map (beside γ)) (beside γ last)
      (fun s => (exit s.1, g last.1 s.1 s.2)) (k.observe g r)

variable {g : ℓ → σ → γ → γ} {r : α → β}

theorem observe_bind (p : Prog σ ℓ α') (q : α' → Prog σ ℓ α) :
    (p >>= q).observe g r = (p.observe g id) >>= fun a => (q a).observe g r := by
  show (p.bind q).observe g r = (p.observe g id).bind fun a => (q a).observe g r
  induction p with
  | ret a => rfl
  | act l f k ih => simp only [bind, observe, ih]
  | poll all rest last exit k ih => simp only [bind, observe, ih]

/-- The accesses of a program with a record. -/
theorem acts_observe {P : ℓ → (σ → σ) → Prop} {P' : ℓ → (σ × γ → σ × γ) → Prop}
    (hid : ∀ l, P l id → P' l id) (h : ∀ l f, P l f → P' l fun s => (f s.1, g l s.1 s.2))
    {p : Prog σ ℓ α} (hp : p.Acts P) : (p.observe g r).Acts P' := by
  have hcs : ∀ cs : List (ℓ × (σ → Bool)), (∀ c ∈ cs, P c.1 id) →
      ∀ c ∈ cs.map (beside γ), P' c.1 id := by
    intro cs hcs c hc
    obtain ⟨c', hc', rfl⟩ := List.mem_map.mp hc
    exact hid c'.1 (hcs c' hc')
  induction p with
  | ret a => trivial
  | act l f k ih => exact ⟨h l f hp.1, fun s => ih s.1 (hp.2 s.1)⟩
  | poll all rest last exit k ih =>
    exact ⟨hcs all hp.1, hcs rest hp.2.1, h last.1 exit hp.2.2.1, ih hp.2.2.2⟩

/-- The record does not change what a program does. -/
theorem advance_observe (p : Prog σ ℓ α) (s : σ × γ) :
    ((p.observe g r).advance s).1 = (p.advance s.1).1.observe g r ∧
      ((p.observe g r).advance s).2.1 = (p.advance s.1).2 := by
  cases p with
  | ret a => exact ⟨rfl, rfl⟩
  | act l f k => exact ⟨rfl, rfl⟩
  | poll all rest last exit k =>
    cases rest with
    | nil =>
      simp only [observe, List.map_nil, advance, beside]
      split
      · exact ⟨rfl, rfl⟩
      · exact ⟨rfl, rfl⟩
    | cons c rest =>
      simp only [observe, List.map_cons, advance, beside]
      split
      · exact ⟨rfl, rfl⟩
      · exact ⟨rfl, rfl⟩

end Prog

/-! ### Rules -/

section Rules

variable {σ ℓ γ α β α' : Type} {T : Contract (σ × γ)} {cond guar : ℓ → σ × γ → Prop}
  {g : ℓ → σ → γ → γ} {r : α → β} {Q : β → σ × γ → Prop} {s : σ × γ}

theorem safe_observe_read {l : ℓ} {f : σ → α'} {q : α' → Prog σ ℓ α}
    (h : ∀ s', T.rely s s' → T.inv s' → cond l s' →
      guar l s' ∧ T.inv (s'.1, g l s'.1 s'.2) ∧
        Safe T cond guar Q ((q (f s'.1)).observe g r) (s'.1, g l s'.1 s'.2)) :
    Safe T cond guar Q ((Prog.read l f >>= q).observe g r) s := h

theorem safe_observe_modify {l : ℓ} {f : σ → σ} {q : Unit → Prog σ ℓ α}
    (h : ∀ s', T.rely s s' → T.inv s' → cond l s' →
      guar l s' ∧ T.inv (f s'.1, g l s'.1 s'.2) ∧
        Safe T cond guar Q ((q ()).observe g r) (f s'.1, g l s'.1 s'.2)) :
    Safe T cond guar Q ((Prog.modify l f >>= q).observe g r) s := h

theorem safe_observe_wait {cs : List (ℓ × (σ → Bool))} {last : ℓ × (σ → Bool)} {exit : σ → σ}
    {q : Unit → Prog σ ℓ α}
    (h : Passes T cond guar (Prog.beside γ last) (fun s' => (exit s'.1, g last.1 s'.1 s'.2))
      (fun s' => Safe T cond guar Q ((q ()).observe g r) s') (cs.map (Prog.beside γ)) s) :
    Safe T cond guar Q ((Prog.wait cs last exit >>= q).observe g r) s := ⟨h, h⟩

/-- Sequencing. -/
theorem safe_observe_bind {p : Prog σ ℓ α'} {q : α' → Prog σ ℓ α}
    (h : Safe T cond guar (fun a s' => Safe T cond guar Q ((q a).observe g r) s')
      (p.observe g id) s) :
    Safe T cond guar Q ((p >>= q).observe g r) s := by
  rw [Prog.observe_bind]
  exact safe_bind h

/-- What becomes of the result. -/
theorem safe_observe_map {p : Prog σ ℓ α}
    (h : Safe T cond guar (fun a s' => Q (r a) s') (p.observe g id) s) :
    Safe T cond guar Q (p.observe g r) s := by
  induction p generalizing s with
  | ret a => exact h
  | act l f k ih =>
    intro s' hr hi hc
    obtain ⟨h1, h2, h3⟩ := h s' hr hi hc
    exact ⟨h1, h2, ih s'.1 h3⟩
  | poll all rest last exit k ih => exact ⟨h.1.mono (fun _ => ih) _, h.2.mono (fun _ => ih) _⟩

/-- **Frame rule**: code that the record does not note keeps an assertion that the other parties and
each of its accesses keep. -/
theorem safe_observe_of_acts {A : σ × γ → Prop} (hA : Stable T A) {p : Prog σ ℓ α}
    (hp : p.Acts fun l f => (∀ d x, g l d x = x) ∧ ∀ z : σ × γ, T.inv z → cond l z → A z →
      guar l z ∧ T.inv (f z.1, z.2) ∧ A (f z.1, z.2)) (hs : A s) :
    Safe T cond guar (fun _ z => A z) (p.observe g r) s := by
  refine safe_of_acts hA (Prog.acts_observe ?_ ?_ hp) hs
  · intro l hid z hi hc hz
    exact hid.2 z hi hc hz
  · intro l f hf z hi hc hz
    show guar l z ∧ T.inv (f z.1, g l z.1 z.2) ∧ A (f z.1, g l z.1 z.2)
    rw [hf.1]
    exact hf.2 z hi hc hz

end Rules

/-! ### One processor -/

section System

variable {σ ℓ γ ι κ α : Type}

/-- A processor with a record; `fin` is what a call and its result make of the record. -/
def Kernel.observe (K : Kernel σ ℓ ι κ α) (g : ℓ → σ → γ → γ) (fin : κ → α → σ → γ → γ) :
    Kernel (σ × γ) ℓ ι κ (κ × α) where
  env i s := (K.env i s.1, s.2)
  call c := (K.call c).observe g (Prod.mk c)
  finish a s := (K.finish a.2 s.1, fin a.1 a.2 s.1 s.2)
  isr := K.isr.observe g id
  enabled s := K.enabled s.1

namespace Interrupted

variable {K : Kernel σ ℓ ι κ α} {g : ℓ → σ → γ → γ} {fin : κ → α → σ → γ → γ}

/-- A call in progress with a record, and without it. -/
inductive ObservesThread (g : ℓ → σ → γ → γ) :
    Option (Prog (σ × γ) ℓ (κ × α)) → Option (Prog σ ℓ α) → Prop
  | none : ObservesThread g none none
  | some (c : κ) (p : Prog σ ℓ α) : ObservesThread g (some (p.observe g (Prod.mk c))) (some p)

theorem ObservesThread.isNone_eq {t' : Option (Prog (σ × γ) ℓ (κ × α))} {t : Option (Prog σ ℓ α)}
    (h : ObservesThread g t' t) : t'.isNone = t.isNone := by
  cases h with
  | none => rfl
  | some c p => rfl

/-- A system with a record, and without it. -/
structure Observes (g : ℓ → σ → γ → γ) (z : Interrupted (σ × γ) ℓ (κ × α)) (y : Interrupted σ ℓ α) :
    Prop where
  shared : z.shared.1 = y.shared
  thread : ObservesThread g z.thread y.thread
  isr : z.isr = y.isr.map (Prog.observe g id)

theorem Observes.stepThread {z : Interrupted (σ × γ) ℓ (κ × α)} {y : Interrupted σ ℓ α}
    (h : Observes g z y) : Observes g (z.stepThread (K.observe g fin)) (y.stepThread K) := by
  obtain ⟨⟨s, x⟩, t', i'⟩ := z
  obtain ⟨s', t, i⟩ := y
  obtain ⟨hs, ht, hi⟩ := h
  obtain rfl : s = s' := hs
  cases ht with
  | none => exact ⟨rfl, .none, hi⟩
  | some c p =>
    obtain ⟨h1, h2⟩ := Prog.advance_observe (g := g) (r := Prod.mk c) p (s, x)
    cases p with
    | ret a => exact ⟨rfl, .none, hi⟩
    | act l f k => exact ⟨h2, .some c (k s), hi⟩
    | poll all rest last exit k =>
      refine ⟨h2, ?_, hi⟩
      show ObservesThread g (some _) (some _)
      rw [h1]
      exact .some c _

theorem Observes.stepIsr {z : Interrupted (σ × γ) ℓ (κ × α)} {y : Interrupted σ ℓ α}
    (h : Observes g z y) : Observes g z.stepIsr y.stepIsr := by
  obtain ⟨⟨s, x⟩, t', i'⟩ := z
  obtain ⟨s', t, i⟩ := y
  obtain ⟨hs, ht, hi⟩ := h
  obtain rfl : s = s' := hs
  obtain rfl : i' = i.map (Prog.observe g id) := hi
  cases i with
  | none => exact ⟨rfl, ht, rfl⟩
  | some p =>
    obtain ⟨h1, h2⟩ := Prog.advance_observe (g := g) (r := id) p (s, x)
    cases p with
    | ret a => exact ⟨rfl, ht, rfl⟩
    | act l f k => exact ⟨h2, ht, rfl⟩
    | poll all rest last exit k => exact ⟨h2, ht, congrArg some h1⟩

/-- One step, with a record and without it. -/
theorem Observes.step {z : Interrupted (σ × γ) ℓ (κ × α)} {y : Interrupted σ ℓ α}
    (h : Observes g z y)
    (e : SysEvent ι κ) : Observes g (z.step (K.observe g fin) e) (y.step K e) := by
  have hisr : z.isr.isNone = y.isr.isNone := by rw [h.isr, Option.isNone_map]
  have hthread : z.thread.isNone = y.thread.isNone := h.thread.isNone_eq
  cases e with
  | env i => exact ⟨congrArg (K.env i) h.shared, h.thread, h.isr⟩
  | call c =>
    simp only [Interrupted.step, hisr, hthread]
    split
    · exact ⟨h.shared, .some c (K.call c), h.isr⟩
    · exact h
  | thread =>
    simp only [Interrupted.step, hisr]
    split
    · exact h.stepThread
    · exact h
  | interrupt =>
    have hen : (K.observe g fin).enabled z.shared = K.enabled y.shared :=
      congrArg K.enabled h.shared
    simp only [Interrupted.step, hisr, hen]
    split
    · exact ⟨h.shared, h.thread, rfl⟩
    · exact h
  | isr => exact h.stepIsr

/-- The system with a record `x`, before a call. -/
def observed (κ : Type) (x : γ) (y : Interrupted σ ℓ α) : Interrupted (σ × γ) ℓ (κ × α) :=
  ⟨(y.shared, x), none, none⟩

/-- **The record does not change a run.** -/
theorem observe_run {y : Interrupted σ ℓ α} (ht : y.thread = none) (hi : y.isr = none) (x : γ)
    (es : List (SysEvent ι κ)) :
    (Machine.run (step (K.observe g fin)) (observed κ x y) es).shared.1 =
    (Machine.run (step K) y es).shared := by
  have h : Observes g (observed κ x y) y := by
    refine ⟨rfl, ?_, ?_⟩
    · rw [ht]; exact .none
    · rw [hi]; rfl
  generalize observed κ x y = z at h
  clear ht hi
  induction es generalizing z y with
  | nil => exact h.shared
  | cons e es ih => exact ih _ (h.step e)

end Interrupted

end System

end Filestick
