import Mathlib.Data.List.Basic
import Mathlib.Data.List.DropRight

/-!
# Tokens

`tokens p xs` are the pieces of a list between the elements with `p`, without the empty ones.

* `tokens_single`, `tokens_append`: the first token of a list, and those behind it.
* `tokens_cases`: a list without tokens, with one at its end, or with one in front of a separator.
* `tokens_concat`: the tokens of a list with an element behind it.
-/

namespace Filestick.Tokens

variable {α : Type*} {p : α → Bool}

/-- The pieces between separators, without the empty ones. -/
def tokens (p : α → Bool) (xs : List α) : List (List α) := (xs.splitOnP p).filter (!·.isEmpty)

@[simp] theorem tokens_nil : tokens p [] = [] := rfl

theorem tokens_cons {x : α} (hx : p x = true) (xs : List α) : tokens p (x :: xs) = tokens p xs := by
  rw [tokens, List.splitOnP_cons_eq_if_modifyHead, if_pos hx]
  rfl

/-- Separators in front of a list. -/
theorem tokens_skip {pre : List α} (hpre : ∀ x ∈ pre, p x = true) (xs : List α) :
    tokens p (pre ++ xs) = tokens p xs := by
  induction pre with
  | nil => rfl
  | cons x pre ih =>
    rw [List.cons_append, tokens_cons (hpre x List.mem_cons_self)]
    exact ih fun y hy => hpre y (List.mem_cons_of_mem x hy)

theorem tokens_of_forall {xs : List α} (hxs : ∀ x ∈ xs, p x = true) : tokens p xs = [] := by
  have hskip := tokens_skip hxs []
  rwa [List.append_nil] at hskip

/-- One token. -/
theorem tokens_single {tok : List α} (htok : ∀ x ∈ tok, p x = false) (hne : tok ≠ []) :
    tokens p tok = [tok] := by
  rw [tokens, List.splitOnP_eq_singleton htok, List.filter_cons, List.isEmpty_eq_false_iff.mpr hne]
  rfl

/-- A token, a separator, and what follows. -/
theorem tokens_append {tok : List α} (htok : ∀ x ∈ tok, p x = false) (hne : tok ≠ []) {sep : α}
    (hsep : p sep = true) (xs : List α) : tokens p (tok ++ sep :: xs) = tok :: tokens p xs := by
  rw [tokens, List.splitOnP_append_cons_of_forall_mem htok sep hsep, List.filter_cons,
    List.isEmpty_eq_false_iff.mpr hne]
  rfl

/-- A list and the first of its elements with a property. -/
theorem forall_or_first (q : α → Bool) (xs : List α) :
    (∀ x ∈ xs, q x = false) ∨
      ∃ pre x post, xs = pre ++ x :: post ∧ (∀ y ∈ pre, q y = false) ∧ q x = true := by
  by_cases h : ∃ x ∈ xs, q x = true
  · right
    obtain ⟨x, hx⟩ := Option.isSome_iff_exists.mp (List.find?_isSome.mpr h)
    obtain ⟨hqx, pre, post, hxs, hpre⟩ := List.find?_eq_some_iff_append.mp hx
    exact ⟨pre, x, post, hxs, fun y hy => by simpa using hpre y hy, hqx⟩
  · left
    intro x hx
    by_contra hne
    exact h ⟨x, hx, by simpa using hne⟩

/-- **The first token**: there is none, it is at the end of the list, or a separator follows. -/
theorem tokens_cases (p : α → Bool) (xs : List α) :
    (∀ x ∈ xs, p x = true) ∨
      ∃ pre tok post, xs = pre ++ (tok ++ post) ∧ (∀ x ∈ pre, p x = true) ∧ tok ≠ [] ∧
        (∀ x ∈ tok, p x = false) ∧ (post = [] ∨ ∃ sep rest, post = sep :: rest ∧ p sep = true) := by
  rcases forall_or_first (fun x => !p x) xs with hall | ⟨pre, x, post, hxs, hpre, hx⟩
  · left
    intro x hx
    simpa using hall x hx
  · right
    have hpx : p x = false := by simpa using hx
    have hpre' : ∀ y ∈ pre, p y = true := fun y hy => by simpa using hpre y hy
    rcases forall_or_first p (x :: post) with hall | ⟨tok, sep, rest, hpost, htok, hsep⟩
    · refine ⟨pre, x :: post, [], ?_, hpre', List.cons_ne_nil _ _, hall, Or.inl rfl⟩
      rw [hxs, List.append_nil]
    · refine ⟨pre, tok, sep :: rest, ?_, hpre', ?_, htok, Or.inr ⟨sep, rest, rfl, hsep⟩⟩
      · rw [hxs, hpost]
      · rintro rfl
        -- the first element is no separator
        rw [List.nil_append] at hpost
        rw [← (List.cons.inj hpost).1, hpx] at hsep
        exact Bool.false_ne_true hsep

/-- A list is cut at a separator. -/
theorem tokens_append_sep {sep : α} (hsep : p sep = true) (xs ys : List α) :
    tokens p (xs ++ sep :: ys) = tokens p xs ++ tokens p ys := by
  rw [tokens, List.splitOnP_append_cons xs ys hsep, List.filter_append]
  rfl

/-- What is behind the last separator of a list. -/
def lastPiece (p : α → Bool) (xs : List α) : List α := xs.rtakeWhile fun x => !p x

theorem lastPiece_eq_nil_iff {xs : List α} :
    lastPiece p xs = [] ↔ ∀ x ∈ xs.getLast?, p x = true := by
  rw [lastPiece, List.rtakeWhile_eq_nil_iff]
  constructor
  · intro h x hx
    obtain ⟨hne, rfl⟩ := List.mem_getLast?_eq_getLast hx
    simpa using h hne
  · intro h hne
    simpa using h _ (List.getLast_mem_getLast? hne)

/-- **An element behind a list** becomes a part of its last token, or a token of its own. -/
theorem tokens_concat {c : α} (hc : p c = false) (xs : List α) :
    ∃ ws, tokens p (xs ++ [c]) = ws ++ [lastPiece p xs ++ [c]] ∧
      (lastPiece p xs = [] ∧ tokens p xs = ws ∨
        lastPiece p xs ≠ [] ∧ tokens p xs = ws ++ [lastPiece p xs]) := by
  have hpiece : ∀ x ∈ lastPiece p xs, p x = false := by
    intro x hx
    simpa using List.mem_rtakeWhile_imp hx
  have hpiece' : ∀ x ∈ lastPiece p xs ++ [c], p x = false := by
    intro x hx
    rcases List.mem_append.mp hx with hx | hx
    · exact hpiece x hx
    · rw [List.mem_singleton.mp hx, hc]
  have hsplit : xs.rdropWhile (fun x => !p x) ++ lastPiece p xs = xs :=
    List.rdropWhile_append_rtakeWhile
  have hcut : ∀ ys, tokens p (xs.rdropWhile (fun x => !p x) ++ ys) =
      tokens p (xs.rdropWhile fun x => !p x) ++ tokens p ys := by
    intro ys
    rcases List.eq_nil_or_concat (xs.rdropWhile fun x => !p x) with hnil | ⟨pre, sep, hpre⟩
    · rw [hnil]
      rfl
    · rw [List.concat_eq_append] at hpre
      have hne : xs.rdropWhile (fun x => !p x) ≠ [] := by
        rw [hpre]
        exact List.concat_ne_nil _ _
      have hlast := List.rdropWhile_last_not _ _ hne
      have hsep : p sep = true := by
        simpa [hpre] using hlast
      rw [hpre, List.append_assoc, List.singleton_append,
        tokens_append_sep hsep, tokens_append_sep hsep, tokens_nil, List.append_nil]
  refine ⟨tokens p (xs.rdropWhile fun x => !p x), ?_, ?_⟩
  · rw [← tokens_single hpiece' (List.concat_ne_nil _ _), ← hcut, ← List.append_assoc, hsplit]
  · have hxs := hcut (lastPiece p xs)
    rw [hsplit] at hxs
    by_cases hnil : lastPiece p xs = []
    · rw [hnil, tokens_nil, List.append_nil] at hxs
      exact Or.inl ⟨hnil, hxs⟩
    · rw [tokens_single hpiece hnil] at hxs
      exact Or.inr ⟨hnil, hxs⟩

end Filestick.Tokens
