import Filestick.Lib.Tokens
import Filestick.System.Equiv.EconetDelivery
import Filestick.System.Strings

/-!
# Strings in memory

* `strlen_eq`: the length of a string.
* `memcpy_eq`: a copy to a place apart from its source, by words or by bytes.
* `strtok_none`, `strtok_token`: what `strtok` makes of a string without tokens, and of one with a
  token, which is the last one or has a delimiter behind it.
-/

namespace Filestick.Elf

open Filestick.Ring Tokens

/-- The bytes of a string at an address, without the 0 behind them. -/
structure IsString (mem : Mem) (s : Addr) (xs : List (BitVec 8)) : Prop where
  holds : Holds mem s (xs ++ [0#8])
  nonzero : 0#8 ∉ xs

theorem isString_nil {mem : Mem} {s : Addr} : IsString mem s [] ↔ mem s = 0#8 := by
  constructor
  · intro h
    exact (holds_cons.mp h.holds).1
  · intro hend
    exact ⟨holds_cons.mpr ⟨hend, holds_nil _ _⟩, List.not_mem_nil⟩

theorem isString_cons {mem : Mem} {s : Addr} {x : BitVec 8} {xs : List (BitVec 8)} :
    IsString mem s (x :: xs) ↔ mem s = x ∧ x ≠ 0#8 ∧ IsString mem (s + 1#32) xs := by
  constructor
  · intro h
    obtain ⟨hx, hxs⟩ := holds_cons.mp h.holds
    have hnonzero := h.nonzero
    rw [List.mem_cons, not_or] at hnonzero
    exact ⟨hx, Ne.symm hnonzero.1, hxs, hnonzero.2⟩
  · rintro ⟨hx, hne, hxs⟩
    refine ⟨holds_cons.mpr ⟨hx, hxs.holds⟩, ?_⟩
    rw [List.mem_cons, not_or]
    exact ⟨Ne.symm hne, hxs.nonzero⟩

/-- There is one string at an address. -/
theorem IsString.unique {mem : Mem} {s : Addr} {xs ys : List (BitVec 8)} (hx : IsString mem s xs)
    (hy : IsString mem s ys) : xs = ys := by
  induction xs generalizing s ys with
  | nil =>
    rw [isString_nil] at hx
    cases ys with
    | nil => rfl
    | cons y ys =>
      obtain ⟨hcell, hne, -⟩ := isString_cons.mp hy
      exact absurd (hcell.symm.trans hx) hne
  | cons x xs ih =>
    obtain ⟨hcell, hne, hxs⟩ := isString_cons.mp hx
    cases ys with
    | nil =>
      rw [isString_nil] at hy
      exact absurd (hcell.symm.trans hy) hne
    | cons y ys =>
      obtain ⟨hcell', -, hys⟩ := isString_cons.mp hy
      rw [hcell.symm.trans hcell', ih hxs hys]

/-- The memory has no room for a longer one. -/
theorem IsString.length_lt {mem : Mem} {s : Addr} {xs : List (BitVec 8)} (h : IsString mem s xs) :
    xs.length < 2 ^ 32 := by
  by_contra hge
  obtain ⟨hxs, hend⟩ := holds_append.mp h.holds
  have hlt : xs.length % 2 ^ 32 < xs.length := by omega
  have hwrap : BitVec.ofNat 32 (xs.length % 2 ^ 32) = BitVec.ofNat 32 xs.length := by
    apply BitVec.eq_of_toNat_eq
    rw [BitVec.toNat_ofNat, BitVec.toNat_ofNat, Nat.mod_mod]
  have hcell := hxs _ hlt
  rw [hwrap, (holds_cons.mp hend).1] at hcell
  exact h.nonzero (hcell ▸ List.getElem_mem hlt)

/-! ### `strlen` -/

theorem strlenFrom_eq {mem : Mem} {s : Addr} {xs : List (BitVec 8)} (h : IsString mem s xs) {n : ℕ}
    (hn : xs.length < n) : strlenFrom mem n s = some xs.length := by
  induction xs generalizing s n with
  | nil =>
    obtain ⟨n, rfl⟩ := Nat.exists_eq_succ_of_ne_zero (Nat.ne_of_gt hn)
    rw [strlenFrom, if_pos (isString_nil.mp h)]
    rfl
  | cons x xs ih =>
    obtain ⟨n, rfl⟩ := Nat.exists_eq_succ_of_ne_zero (Nat.ne_of_gt (Nat.zero_lt_of_lt hn))
    obtain ⟨hx, hne, hxs⟩ := isString_cons.mp h
    rw [List.length_cons] at hn
    rw [strlenFrom, hx, if_neg hne, ih hxs (by omega)]
    rfl

theorem strlen_eq {mem : Mem} {s : Addr} {xs : List (BitVec 8)} (h : IsString mem s xs)
    (hxs : xs.length < 2 ^ 32) : strlen mem s = some xs.length :=
  strlenFrom_eq h hxs

/-! ### `memcpy` -/

/-- Two blocks of memory have no cell in common. -/
def Apart (a b : Addr) (n : ℕ) : Prop :=
  ∀ i j, i < n → j < n → a + BitVec.ofNat 32 i ≠ b + BitVec.ofNat 32 j

theorem copyChunks_eq (mem : Mem) (cs : List ℕ) (dest src : Addr) (hlen : cs.sum ≤ 2 ^ 32)
    (hapart : Apart dest src cs.sum) :
    copyChunks mem cs dest src = writeAll mem dest (slice mem src cs.sum) := by
  induction cs generalizing mem dest src with
  | nil => rfl
  | cons c cs ih =>
    rw [List.sum_cons] at hlen hapart ⊢
    have hsrc : slice (writeAll mem dest (slice mem src c)) (src + BitVec.ofNat 32 c) cs.sum =
        slice mem (src + BitVec.ofNat 32 c) cs.sum := by
      apply List.map_congr_left
      intro k hk
      rw [List.mem_range] at hk
      -- what is copied first is no part of the source
      apply writeAll_outside _ (by rw [length_slice]; omega)
      rw [length_slice]
      by_contra hlt
      rw [not_le] at hlt
      apply hapart (src + BitVec.ofNat 32 c + BitVec.ofNat 32 k - dest).toNat (c + k) (by omega)
        (by omega)
      rw [start_add_sub, BitVec.add_assoc, ← BitVec.ofNat_add]
    have happart' : Apart (dest + BitVec.ofNat 32 c) (src + BitVec.ofNat 32 c) cs.sum := by
      intro i j hi hj
      rw [BitVec.add_assoc, BitVec.add_assoc, ← BitVec.ofNat_add, ← BitVec.ofNat_add]
      exact hapart (c + i) (c + j) (by omega) (by omega)
    rw [copyChunks, ih _ _ _ (by omega) happart', hsrc, slice_add, writeAll_append, length_slice]

/-- **A copy to a place apart.** -/
theorem memcpy_eq (mem : Mem) {dest src : Addr} {n : ℕ} (hn : n ≤ 2 ^ 32)
    (hapart : Apart dest src n) : memcpy mem dest src n = writeAll mem dest (slice mem src n) := by
  have hsum := RawEconet.sum_memcpyChunks dest src n
  have hcopy := copyChunks_eq mem (RawEconet.memcpyChunks dest src n) dest src
    (by rw [hsum]; exact hn) (by rw [hsum]; exact hapart)
  rwa [hsum] at hcopy

/-! ### `strtok` -/

section Strtok

variable {mem : Mem} {delim : List (BitVec 8)} {s : Addr}

/-- A loop that passes over the bytes with a property comes to the first one without it. -/
theorem scan_eq {loop : ℕ → Addr → Option Addr} {q : BitVec 8 → Prop} [DecidablePred q]
    (hloop : ∀ n s, loop (n + 1) s = if q (mem s) then loop n (s + 1#32) else some s)
    {xs : List (BitVec 8)} {x : BitVec 8} {post : List (BitVec 8)}
    (h : Holds mem s (xs ++ x :: post)) (hxs : ∀ y ∈ xs, q y) (hx : ¬q x) {n : ℕ}
    (hn : xs.length < n) : loop n s = some (s + BitVec.ofNat 32 xs.length) := by
  induction xs generalizing s n with
  | nil =>
    obtain ⟨n, rfl⟩ := Nat.exists_eq_succ_of_ne_zero (Nat.ne_of_gt hn)
    rw [List.nil_append, holds_cons] at h
    rw [hloop, h.1, if_neg hx, List.length_nil, BitVec.add_zero]
  | cons y xs ih =>
    obtain ⟨n, rfl⟩ := Nat.exists_eq_succ_of_ne_zero (Nat.ne_of_gt (Nat.zero_lt_of_lt hn))
    rw [List.cons_append, holds_cons] at h
    rw [List.length_cons] at hn ⊢
    rw [hloop, h.1, if_pos (hxs y List.mem_cons_self),
      ih h.2 (fun z hz => hxs z (List.mem_cons_of_mem y hz)) (by omega), BitVec.add_assoc,
      ← BitVec.ofNat_add, Nat.add_comm 1]

theorem skipDelims_eq {pre : List (BitVec 8)} {x : BitVec 8} {post : List (BitVec 8)}
    (h : Holds mem s (pre ++ x :: post)) (hpre : ∀ y ∈ pre, y ∈ delim) (hx : x ∉ delim) {n : ℕ}
    (hn : pre.length < n) :
    skipDelims mem delim n s = some (s + BitVec.ofNat 32 pre.length) :=
  scan_eq (q := (· ∈ delim)) (fun _ _ => rfl) h hpre hx hn

theorem scanToken_eq {tok : List (BitVec 8)} {x : BitVec 8} {post : List (BitVec 8)}
    (h : Holds mem s (tok ++ x :: post)) (htok : ∀ y ∈ tok, ¬(y ∈ delim ∨ y = 0#8))
    (hx : x ∈ delim ∨ x = 0#8) {n : ℕ} (hn : tok.length < n) :
    scanToken mem delim n s = some (s + BitVec.ofNat 32 tok.length) := by
  apply scan_eq _ h htok (not_not_intro hx) hn
  intro n s
  rw [scanToken, ite_not]

/-- Where `strtok` goes on. -/
def resume (last s : Addr) : Addr := if s = 0#32 then last else s

variable {last : Addr}

/-- A string is given, or `strtok` goes on with it. -/
theorem strtok_start (hs : s ≠ 0#32) : strtok mem last s delim = strtok mem s 0#32 delim := by
  unfold strtok
  rw [if_neg hs, if_pos rfl]
  simp only [if_neg hs]

theorem strtok_null : strtok mem 0#32 0#32 delim = some ⟨0#32, 0#32, mem⟩ := rfl

/-- A string of delimiters. -/
theorem strtok_none {xs : List (BitVec 8)} (hs : resume last s ≠ 0#32)
    (h : IsString mem (resume last s) xs) (hxs : xs.length < 2 ^ 32) (hdelim : 0#8 ∉ delim)
    (hall : ∀ y ∈ xs, y ∈ delim) : strtok mem last s delim = some ⟨0#32, 0#32, mem⟩ := by
  have hend : mem (resume last s + BitVec.ofNat 32 xs.length) = 0#8 :=
    (holds_cons.mp (holds_append.mp h.holds).2).1
  unfold strtok
  rw [← resume]
  simp only [if_neg hs, skipDelims_eq h.holds hall hdelim hxs, Option.bind_eq_bind,
    Option.bind_some, hend, if_true]
  rfl

/-- The token behind the leading delimiters. -/
theorem strtok_token {pre tok : List (BitVec 8)} {x : BitVec 8} {post : List (BitVec 8)}
    (hs : resume last s ≠ 0#32) (h : Holds mem (resume last s) (pre ++ (tok ++ x :: post)))
    (hlen : pre.length + tok.length < 2 ^ 32) (hpre : ∀ y ∈ pre, y ∈ delim) (hne : tok ≠ [])
    (htok : ∀ y ∈ tok, ¬(y ∈ delim ∨ y = 0#8)) (hx : x ∈ delim ∨ x = 0#8) :
    strtok mem last s delim =
      if x = 0#8 then some ⟨resume last s + BitVec.ofNat 32 pre.length, 0#32, mem⟩
      else some ⟨resume last s + BitVec.ofNat 32 pre.length,
        resume last s + BitVec.ofNat 32 (pre.length + tok.length) + 1#32,
        Function.update mem (resume last s + BitVec.ofNat 32 (pre.length + tok.length)) 0#8⟩ := by
  obtain ⟨y, tok, rfl⟩ := List.exists_cons_of_ne_nil hne
  have hy := htok y List.mem_cons_self
  have hskip : skipDelims mem delim (2 ^ 32) (resume last s) =
      some (resume last s + BitVec.ofNat 32 pre.length) := by
    rw [List.cons_append] at h
    exact skipDelims_eq h hpre (fun hd => hy (Or.inl hd)) (by omega)
  obtain ⟨hhead, hrest⟩ := holds_cons.mp (holds_append.mp h).2
  have hscan := scanToken_eq hrest (fun z hz => htok z (List.mem_cons_of_mem y hz)) hx
    (n := 2 ^ 32) (by rw [List.length_cons] at hlen; omega)
  have hfin : resume last s + BitVec.ofNat 32 pre.length + 1#32 + BitVec.ofNat 32 tok.length =
      resume last s + BitVec.ofNat 32 (pre.length + (y :: tok).length) := by
    rw [BitVec.add_assoc, BitVec.add_assoc, List.length_cons, Nat.add_comm tok.length,
      BitVec.ofNat_add, BitVec.ofNat_add]
  have hx' : mem (resume last s + BitVec.ofNat 32 (pre.length + (y :: tok).length)) = x := by
    rw [← hfin]
    exact (holds_cons.mp (holds_append.mp hrest).2).1
  rw [hfin] at hscan
  unfold strtok
  rw [← resume]
  have hy0 : ¬y = 0#8 := fun h0 => hy (Or.inr h0)
  simp only [if_neg hs, hskip, Option.bind_eq_bind, Option.bind_some, hhead, if_neg hy0]
  rw [hscan, Option.bind_some, hx']
  rfl

end Strtok

end Filestick.Elf
