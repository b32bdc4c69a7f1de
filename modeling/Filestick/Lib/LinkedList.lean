import Mathlib.Data.List.Basic
import Mathlib.Logic.Function.Basic
import Mathlib.Tactic.Common

/-!
# Doubly linked lists

The nodes of a list carry the links themselves: `next` and `prev` are functions of a node.  A node
that is not in the list, the sentinel, is before the first node and behind the last one.  Its own
links mean nothing.

* `Linked next prev q p l`: the nodes of `l` are linked, with `p` before them and `q` behind them.
* `Linked.insert`: a node is put at the front.
* `Linked.erase`: a node is taken out wherever it is.
-/

namespace Filestick.LinkedList

variable {α : Type*}

/-- The nodes `l` are linked, with `p` before them and `q` behind them. -/
def Linked (next prev : α → α) (q : α) : α → List α → Prop
  | _, [] => True
  | p, a :: l => prev a = p ∧ next a = l.headD q ∧ Linked next prev q a l

variable {next prev next' prev' : α → α} {a p q : α} {l l₁ l₂ : List α}

/-- Only the links of the nodes count. -/
theorem Linked.congr (h : Linked next prev q p l) (hnext : ∀ x ∈ l, next' x = next x)
    (hprev : ∀ x ∈ l, prev' x = prev x) : Linked next' prev' q p l := by
  induction l generalizing p with
  | nil => trivial
  | cons a l ih =>
    obtain ⟨hp, hn, hl⟩ := h
    refine ⟨(hprev a List.mem_cons_self).trans hp, (hnext a List.mem_cons_self).trans hn, ?_⟩
    exact ih hl (fun x hx => hnext x (List.mem_cons_of_mem a hx))
      fun x hx => hprev x (List.mem_cons_of_mem a hx)

theorem linked_append :
    Linked next prev q p (l₁ ++ l₂) ↔
      Linked next prev (l₂.headD q) p l₁ ∧ Linked next prev q (l₁.getLastD p) l₂ := by
  induction l₁ generalizing p with
  | nil => exact (true_and _).symm.to_iff
  | cons b l₁ ih =>
    have hhead : (l₁ ++ l₂).headD q = l₁.headD (l₂.headD q) := by
      cases l₁ with
      | nil => rfl
      | cons => rfl
    have hlast : (b :: l₁).getLastD p = l₁.getLastD b := List.getLastD_cons ..
    rw [List.cons_append, Linked, Linked, ih, hhead, hlast, and_assoc, and_assoc]

/-- The nodes around a node of a list. -/
theorem linked_append_cons :
    Linked next prev q p (l₁ ++ a :: l₂) ↔
      Linked next prev a p l₁ ∧ prev a = l₁.getLastD p ∧ next a = l₂.headD q ∧
        Linked next prev q a l₂ := by
  rw [linked_append]
  rfl

theorem getLastD_mem (h : l ≠ []) : l.getLastD p ∈ l := by
  rw [List.getLastD_eq_getLast?, List.getLast?_eq_some_getLast h, Option.getD_some]
  exact List.getLast_mem h

theorem headD_mem (h : l ≠ []) : l.headD q ∈ l := by
  cases l with
  | nil => exact absurd rfl h
  | cons b l => exact List.mem_cons_self

/-- The node before a node is in the list, or the sentinel. -/
theorem Linked.prev_mem (h : Linked next prev q p l) (ha : a ∈ l) : prev a = p ∨ prev a ∈ l := by
  obtain ⟨l₁, l₂, rfl⟩ := List.append_of_mem ha
  rw [(linked_append_cons.mp h).2.1]
  by_cases hl : l₁ = []
  · subst hl
    exact Or.inl rfl
  · exact Or.inr (List.mem_append_left _ (getLastD_mem hl))

/-- The node behind a node is in the list, or the sentinel. -/
theorem Linked.next_mem (h : Linked next prev q p l) (ha : a ∈ l) : next a = q ∨ next a ∈ l := by
  obtain ⟨l₁, l₂, rfl⟩ := List.append_of_mem ha
  rw [(linked_append_cons.mp h).2.2.1]
  by_cases hl : l₂ = []
  · subst hl
    exact Or.inl rfl
  · exact Or.inr (List.mem_append_right _ (List.mem_cons_of_mem a (headD_mem hl)))

variable [DecidableEq α]

/-- The node before a list that is linked has changed. -/
theorem Linked.reroot (h : Linked next prev q p l) (hl : l.Nodup) (x : α) :
    Linked next (Function.update prev (l.headD q) x) q x l := by
  cases l with
  | nil => trivial
  | cons b l =>
    obtain ⟨-, hn, hrest⟩ := h
    refine ⟨Function.update_self .., hn, hrest.congr (fun _ _ => rfl) ?_⟩
    intro y hy
    refine Function.update_of_ne ?_ ..
    rintro rfl
    exact (List.nodup_cons.mp hl).1 hy

/-- The node behind a list that is linked has changed. -/
theorem Linked.retail (h : Linked next prev q p l) (hl : l.Nodup) (x : α) :
    Linked (Function.update next (l.getLastD p) x) prev x p l := by
  rcases List.eq_nil_or_concat l with rfl | ⟨l', b, rfl⟩
  · trivial
  · rw [List.concat_eq_append] at *
    rw [linked_append] at h ⊢
    obtain ⟨hfirst, hb, -, -⟩ := h
    have hlast : (l' ++ [b]).getLastD p = b := by
      rw [List.getLastD_eq_getLast?, List.getLast?_append, List.getLast?_singleton]
      rfl
    rw [hlast]
    refine ⟨hfirst.congr ?_ fun _ _ => rfl, hb, Function.update_self .., trivial⟩
    intro y hy
    refine Function.update_of_ne (fun heq => ?_) ..
    exact (List.nodup_append.mp hl).2.2 y hy b (List.mem_singleton_self b) heq

/-- **A node is put at the front**, with the sentinel before it. -/
theorem Linked.insert (h : Linked next prev q q l) (hl : l.Nodup) (ha : a ∉ l)
    (hnext : ∀ x ∈ a :: l, next' x = Function.update next a (l.headD q) x)
    (hprev : ∀ x ∈ l, prev' x = Function.update prev (l.headD q) a x) (hprev_a : prev' a = q) :
    Linked next' prev' q q (a :: l) := by
  refine ⟨hprev_a, ?_, (h.reroot hl a).congr ?_ hprev⟩
  · rw [hnext a List.mem_cons_self, Function.update_self]
  · intro x hx
    rw [hnext x (List.mem_cons_of_mem a hx)]
    refine Function.update_of_ne ?_ ..
    rintro rfl
    exact ha hx

/-- **A node is taken out.** -/
theorem Linked.erase (h : Linked next prev q q l) (hl : l.Nodup) (ha : a ∈ l) (hq : q ∉ l)
    (hnext : ∀ x ∈ l.erase a, next' x = Function.update next (prev a) (next a) x)
    (hprev : ∀ x ∈ l.erase a, prev' x = Function.update prev (next a) (prev a) x) :
    Linked next' prev' q q (l.erase a) := by
  obtain ⟨l₁, l₂, rfl⟩ := List.append_of_mem ha
  obtain ⟨hnd₁, hnd₂, hdisj⟩ := List.nodup_append.mp hl
  have ha₁ : a ∉ l₁ := fun hmem => hdisj a hmem a List.mem_cons_self rfl
  have herase : (l₁ ++ a :: l₂).erase a = l₁ ++ l₂ := by
    rw [List.erase_append_right _ ha₁, List.erase_cons_head]
  rw [herase] at hnext hprev ⊢
  obtain ⟨hleft, hpa, hna, hright⟩ := linked_append_cons.mp h
  rw [hpa, hna] at hnext hprev
  rw [linked_append]
  constructor
  · -- the last of the nodes before it is linked to the node behind it
    refine (hleft.retail hnd₁ (l₂.headD q)).congr ?_ ?_
    · exact fun x hx => hnext x (List.mem_append_left _ hx)
    · intro x hx
      rw [hprev x (List.mem_append_left _ hx)]
      refine Function.update_of_ne ?_ ..
      rintro rfl
      by_cases hl₂ : l₂ = []
      · subst hl₂
        exact hq (List.mem_append_left _ hx)
      · exact hdisj _ hx _ (List.mem_cons_of_mem a (headD_mem hl₂)) rfl
  · refine (hright.reroot (List.nodup_cons.mp hnd₂).2 (l₁.getLastD q)).congr ?_ ?_
    · intro x hx
      rw [hnext x (List.mem_append_right _ hx)]
      refine Function.update_of_ne ?_ ..
      rintro rfl
      by_cases hl₁ : l₁ = []
      · subst hl₁
        exact hq (List.mem_append_right _ (List.mem_cons_of_mem a hx))
      · exact hdisj _ (getLastD_mem hl₁) _ (List.mem_cons_of_mem a hx) rfl
    · exact fun x hx => hprev x (List.mem_append_right _ hx)

end Filestick.LinkedList
