import Filestick.System.Elfload
import Filestick.System.Equiv.Strings
import Mathlib.Tactic.IntervalCases

/-!
# The arguments on the stack

`setup_stack_args` leaves the number of the arguments, seven pointers, and a copy of the string with
a 0 behind each argument.

* `strtok_next`: one call of `strtok` finds the first token of the string that is left.
* `tokeniseArgs_spec`: the loop finds the first tokens, which are strings by themselves in the end.
* `laid_iff`: the layout is the one that a C program expects if and only if there are less than
  seven arguments, and room for them below the stack pointer.
-/

namespace Filestick.Elf

open Filestick.Ring Tokens

/-! ### Words -/

/-- The word at an address. -/
def wordAt (mem : Mem) (a : Addr) : BitVec 32 := mem (a + 3) ++ mem (a + 2) ++ mem (a + 1) ++ mem a

theorem length_wordBytes (x : BitVec 32) : (wordBytes x).length = 4 := rfl

theorem append_bytes (x : BitVec 32) :
    x.extractLsb' 24 8 ++ x.extractLsb' 16 8 ++ x.extractLsb' 8 8 ++ x.extractLsb' 0 8 = x := by
  ext i hi
  simp only [BitVec.getElem_append, BitVec.getElem_extractLsb']
  rw [← BitVec.getLsbD_eq_getElem]
  split_ifs
  all_goals
    congr 1
    omega

theorem wordAt_of_holds {mem : Mem} {a : Addr} {x : BitVec 32} (h : Holds mem a (wordBytes x)) :
    wordAt mem a = x := by
  have hbyte : ∀ i, i < 4 → mem (a + BitVec.ofNat 32 i) = x.extractLsb' (8 * i) 8 := by
    intro i hi
    rw [h i hi]
    simp [wordBytes]
  have h0 := hbyte 0 (by omega)
  rw [BitVec.add_zero] at h0
  have hword : wordAt mem a =
      x.extractLsb' 24 8 ++ x.extractLsb' 16 8 ++ x.extractLsb' 8 8 ++ x.extractLsb' 0 8 :=
    congrArg₂ (· ++ ·) (congrArg₂ (· ++ ·) (congrArg₂ (· ++ ·) (hbyte 3 (by omega))
      (hbyte 2 (by omega))) (hbyte 1 (by omega))) h0
  rw [hword, append_bytes]

/-- The first byte of a word. -/
theorem setWidth_wordAt (mem : Mem) (a : Addr) : (wordAt mem a).setWidth 8 = mem a := by
  ext i hi
  rw [wordAt, BitVec.getElem_setWidth, BitVec.getLsbD_append, if_pos hi,
    BitVec.getLsbD_eq_getElem hi]

theorem wordAt_of_words {mem : Mem} {a : Addr} {ws : List (BitVec 32)}
    (h : Holds mem a (ws.flatMap wordBytes)) {k : ℕ} (hk : k < ws.length) :
    wordAt mem (a + BitVec.ofNat 32 (4 * k)) = ws[k] := by
  induction ws generalizing a k with
  | nil => exact absurd hk (Nat.not_lt_zero k)
  | cons w ws ih =>
    rw [List.flatMap_cons, holds_append, length_wordBytes] at h
    cases k with
    | zero =>
      rw [Nat.mul_zero, BitVec.add_zero]
      exact wordAt_of_holds h.1
    | succ k =>
      have hrest := ih h.2 (Nat.lt_of_succ_lt_succ hk)
      rw [BitVec.add_assoc, ← BitVec.ofNat_add] at hrest
      rw [Nat.mul_succ, Nat.add_comm (4 * k)]
      exact hrest

/-! ### The tokens -/

/-- The delimiter. -/
def isBlank (c : BitVec 8) : Bool := c == 0x20#8

/-- The tokens that are left are those of the string at `last`, which is between two addresses. -/
def Rest (lo hi : ℕ) (mem : Mem) (last : Addr) (toks : List (List (BitVec 8))) : Prop :=
  last = 0#32 ∧ toks = [] ∨
    last ≠ 0#32 ∧ ∃ xs, IsString mem last xs ∧ tokens isBlank xs = toks ∧ lo ≤ last.toNat ∧
      last.toNat + xs.length < hi

/-- What a call of `strtok` leaves of a memory: the first token is a string by itself, and the
others are behind it. -/
inductive Next (lo hi : ℕ) (mem : Mem) (t : Tok) : List (List (BitVec 8)) → Prop
  | none (htok : t.tok = 0#32) (hmem : t.mem = mem) : Next lo hi mem t []
  | token {tok : List (BitVec 8)} {rest : List (List (BitVec 8))} (htok : t.tok ≠ 0#32)
    (hlo : lo ≤ t.tok.toNat) (hhi : t.tok.toNat + tok.length < hi) (hstr : IsString t.mem t.tok tok)
    (hrest : Rest (t.tok.toNat + tok.length + 1) hi t.mem t.last rest)
    (hframe : ∀ a : Addr, a.toNat ≤ lo ∨ hi ≤ a.toNat → t.mem a = mem a) :
    Next lo hi mem t (tok :: rest)

/-- A string that is cut off by a 0. -/
theorem isString_cut {mem : Mem} {s : Addr} {xs ys : List (BitVec 8)} {x : BitVec 8}
    (h : Holds mem s (xs ++ x :: ys)) (hlen : xs.length < 2 ^ 32) (hxs : 0#8 ∉ xs) :
    IsString (Function.update mem (s + BitVec.ofNat 32 xs.length) 0#8) s xs := by
  refine ⟨?_, hxs⟩
  rw [holds_append] at h ⊢
  refine ⟨h.1.of_write_outside hlen le_rfl 0#8, ?_⟩
  rw [holds_cons]
  exact ⟨Function.update_self _ _ _, holds_nil _ _⟩

theorem mem_blank (x : BitVec 8) : x ∈ [0x20#8] ↔ isBlank x = true := by
  rw [List.mem_singleton, isBlank, beq_iff_eq]

section Step

variable {lo hi : ℕ} {mem : Mem} {last : Addr} {pre tok : List (BitVec 8)}

/-- A token with a delimiter behind it is cut off. -/
theorem next_of_cut {sep : BitVec 8} {rest : List (BitVec 8)} (hlo : lo ≤ last.toNat)
    (hfit : last.toNat + (pre.length + (tok.length + (rest.length + 1))) < hi) (hhi : hi ≤ 2 ^ 32)
    (hholds : Holds mem last (pre ++ (tok ++ sep :: (rest ++ [0#8]))))
    (hq : last + BitVec.ofNat 32 pre.length ≠ 0#32) (hpos : 0 < tok.length) (hnul : 0#8 ∉ tok)
    (hrest : 0#8 ∉ rest) :
    Next lo hi mem ⟨last + BitVec.ofNat 32 pre.length,
      last + BitVec.ofNat 32 (pre.length + tok.length) + 1#32,
      Function.update mem (last + BitVec.ofNat 32 (pre.length + tok.length)) 0#8⟩
      (tok :: tokens isBlank rest) := by
  have hqNat : (last + BitVec.ofNat 32 pre.length).toNat = last.toNat + pre.length :=
    toNat_add_ofNat (by omega)
  have hcell : last + BitVec.ofNat 32 (pre.length + tok.length) =
      last + BitVec.ofNat 32 pre.length + BitVec.ofNat 32 tok.length := by
    rw [BitVec.add_assoc, ← BitVec.ofNat_add]
  have hcellNat : (last + BitVec.ofNat 32 (pre.length + tok.length)).toNat =
      last.toNat + (pre.length + tok.length) := toNat_add_ofNat (by omega)
  have hnext : last + BitVec.ofNat 32 (pre.length + tok.length) + 1#32 =
      last + BitVec.ofNat 32 (pre.length + tok.length + 1) := by
    rw [BitVec.add_assoc, BitVec.ofNat_add (pre.length + tok.length) 1]
  have hnextNat : (last + BitVec.ofNat 32 (pre.length + tok.length + 1)).toNat =
      last.toNat + (pre.length + tok.length + 1) := toNat_add_ofNat (by omega)
  have hparts := (holds_append.mp hholds).2
  have hbehind : Holds mem (last + BitVec.ofNat 32 (pre.length + tok.length + 1))
      (rest ++ [0#8]) := by
    have hsep := (holds_cons.mp (holds_append.mp hparts).2).2
    rwa [← hcell, hnext] at hsep
  apply Next.token
  · exact hq
  · dsimp only
    omega
  · dsimp only
    omega
  · dsimp only
    rw [hcell]
    exact isString_cut hparts (by omega) hnul
  · right
    dsimp only
    rw [hnext]
    refine ⟨?_, rest, ⟨?_, hrest⟩, rfl, by omega, by omega⟩
    · intro h0
      rw [h0, BitVec.toNat_ofNat] at hnextNat
      omega
    · apply hbehind.congr
      intro k hk
      rw [List.length_append, List.length_singleton] at hk
      apply Function.update_of_ne
      intro heq
      have hnat := congrArg BitVec.toNat heq
      rw [toNat_add_ofNat (by omega), hcellNat] at hnat
      omega
  · intro a ha
    apply Function.update_of_ne
    rintro rfl
    omega

/-- **One call.** -/
theorem strtok_next {toks : List (List (BitVec 8))} (h : Rest lo hi mem last toks)
    (hhi : hi ≤ 2 ^ 32) :
    ∃ t, strtok mem last 0#32 [0x20#8] = some t ∧ Next lo hi mem t toks := by
  rcases h with ⟨rfl, rfl⟩ | ⟨hlast, xs, hstr, rfl, hlo, hfit⟩
  · exact ⟨_, strtok_null, .none rfl rfl⟩
  have hlast' : resume last 0#32 = last := if_pos rfl
  rcases tokens_cases isBlank xs with hall | ⟨pre, tok, post, rfl, hpre, hne, htok, hpost⟩
  · -- no more than blanks
    refine ⟨⟨0#32, 0#32, mem⟩, ?_, ?_⟩
    · apply strtok_none (by rwa [hlast']) (by rwa [hlast']) (by omega) (by decide)
      exact fun y hy => (mem_blank y).mpr (hall y hy)
    · rw [tokens_of_forall hall]
      exact .none rfl rfl
  rw [List.length_append, List.length_append] at hfit
  have hblank : ∀ y ∈ pre, y ∈ [0x20#8] := fun y hy => (mem_blank y).mpr (hpre y hy)
  have hnul : 0#8 ∉ tok := by
    intro h0
    exact hstr.nonzero (List.mem_append_right _ (List.mem_append_left _ h0))
  have hnone : ∀ y ∈ tok, ¬(y ∈ [0x20#8] ∨ y = 0#8) := by
    rintro y hy (hd | rfl)
    · rw [mem_blank, htok y hy] at hd
      exact Bool.false_ne_true hd
    · exact hnul hy
  have hq : (last + BitVec.ofNat 32 pre.length).toNat = last.toNat + pre.length :=
    toNat_add_ofNat (by omega)
  have hq0 : last + BitVec.ofNat 32 pre.length ≠ 0#32 := by
    intro h0
    rw [h0, BitVec.toNat_ofNat] at hq
    exact hlast (BitVec.eq_of_toNat_eq (by rw [BitVec.toNat_ofNat]; omega))
  have hholds := hstr.holds
  rw [tokens_skip hpre]
  rcases hpost with rfl | ⟨sep, rest, rfl, hsep⟩
  · -- the last token
    rw [List.append_assoc, List.append_assoc, List.nil_append] at hholds
    have hcall := strtok_token (by rwa [hlast']) (by rwa [hlast']) (by omega) hblank hne hnone
      (Or.inr rfl)
    rw [hlast', if_pos rfl] at hcall
    refine ⟨_, hcall, ?_⟩
    rw [List.append_nil, tokens_single htok hne]
    apply Next.token hq0
    · dsimp only
      omega
    · dsimp only
      omega
    · exact ⟨(holds_append.mp hholds).2, hnul⟩
    · exact Or.inl ⟨rfl, rfl⟩
    · exact fun _ _ => rfl
  · -- a blank behind the token
    rw [List.append_assoc, List.append_assoc, List.cons_append] at hholds
    have hcall := strtok_token (by rwa [hlast']) (by rwa [hlast']) (by omega) hblank hne hnone
      (Or.inl ((mem_blank sep).mpr hsep))
    have hsep0 : ¬sep = 0#8 := by
      rintro rfl
      exact Bool.false_ne_true hsep
    have hrest : 0#8 ∉ rest := by
      intro h0
      exact hstr.nonzero (List.mem_append_right _ (List.mem_append_right _
        (List.mem_cons_of_mem sep h0)))
    rw [hlast', if_neg hsep0] at hcall
    refine ⟨_, hcall, ?_⟩
    rw [tokens_append htok hne hsep]
    rw [List.length_cons] at hfit
    exact next_of_cut hlo hfit hhi hholds hq0 (List.length_pos_of_ne_nil hne) hnul hrest

end Step

/-- A token that is a string by itself, between two addresses. -/
structure Placed (lo hi : ℕ) (mem : Mem) (q : Addr) (tok : List (BitVec 8)) : Prop where
  lo : lo ≤ q.toNat
  hi : q.toNat + tok.length < hi
  string : IsString mem q tok

theorem Placed.mono {lo lo' hi : ℕ} {mem : Mem} {q : Addr} {tok : List (BitVec 8)}
    (h : Placed lo' hi mem q tok) (hlo : lo ≤ lo') : Placed lo hi mem q tok :=
  ⟨hlo.trans h.lo, h.hi, h.string⟩

/-- A memory with the same bytes between the two addresses. -/
theorem Placed.congr {lo hi : ℕ} {mem mem' : Mem} {q : Addr} {tok : List (BitVec 8)}
    (h : Placed lo hi mem q tok) (hhi : hi ≤ 2 ^ 32)
    (hmem : ∀ a : Addr, lo ≤ a.toNat → a.toNat ≤ q.toNat + tok.length → mem' a = mem a) :
    Placed lo hi mem' q tok := by
  have hlo := h.lo
  have hfit := h.hi
  refine ⟨hlo, hfit, ?_, h.string.nonzero⟩
  apply h.string.holds.congr
  intro k hk
  rw [List.length_append, List.length_singleton] at hk
  have hcell : (q + BitVec.ofNat 32 k).toNat = q.toNat + k := toNat_add_ofNat (by omega)
  exact hmem _ (by omega) (by omega)

/-- **The loop** finds the first tokens.  What it leaves of the string is not changed any more. -/
theorem tokeniseArgs_spec {n lo hi : ℕ} {mem : Mem} {t : Tok} {toks : List (List (BitVec 8))}
    (h : Next lo hi mem t toks) (hhi : hi ≤ 2 ^ 32) :
    ∃ args t', tokeniseArgs n t = some (args, t') ∧
      List.Forall₂ (Placed lo hi t'.mem) args (toks.take n) ∧
      ∀ a : Addr, a.toNat ≤ lo ∨ hi ≤ a.toNat → t'.mem a = mem a := by
  induction n generalizing lo mem t toks with
  | zero =>
    refine ⟨[], t, rfl, .nil, ?_⟩
    cases h with
    | none _ hmem => exact fun a _ => congrFun hmem a
    | token _ _ _ _ _ hframe => exact hframe
  | succ n ih =>
    cases h with
    | none htok hmem =>
      refine ⟨[], t, ?_, .nil, fun a _ => congrFun hmem a⟩
      rw [tokeniseArgs, if_pos htok]
    | @token tok rest htok hlo hfit hstr hrest hframe =>
      obtain ⟨t₁, hcall, hnext⟩ := strtok_next hrest hhi
      obtain ⟨args, t', hloop, hplaced, hframe'⟩ := ih hnext
      refine ⟨t.tok :: args, t', ?_, ?_, ?_⟩
      · rw [tokeniseArgs, if_neg htok, hcall, Option.bind_eq_bind, Option.bind_some, hloop]
        rfl
      · rw [List.take_succ_cons]
        apply List.Forall₂.cons
        · -- the calls that follow write behind the token only
          apply Placed.congr ⟨hlo, hfit, hstr⟩ hhi
          intro a _ ha
          exact hframe' a (Or.inl (by omega))
        · exact hplaced.imp fun q x hx => hx.mono (by omega)
      · intro a ha
        rw [hframe' a (by omega), hframe a ha]

/-- The loop on a whole string. -/
theorem argv_spec {mem : Mem} {s : Addr} {xs : List (BitVec 8)} (h : IsString mem s xs)
    (hs : s ≠ 0#32) (hfit : s.toNat + xs.length < 2 ^ 32) (last : Addr) (n : ℕ) :
    ∃ t args t', strtok mem last s [0x20#8] = some t ∧ tokeniseArgs n t = some (args, t') ∧
      List.Forall₂ (IsString t'.mem) args ((tokens isBlank xs).take n) := by
  have hrest : Rest s.toNat (2 ^ 32) mem s (tokens isBlank xs) :=
    Or.inr ⟨hs, xs, h, rfl, le_rfl, hfit⟩
  obtain ⟨t, hcall, hnext⟩ := strtok_next hrest le_rfl
  obtain ⟨args, t', hloop, hplaced, -⟩ := tokeniseArgs_spec (n := n) hnext le_rfl
  refine ⟨t, args, t', ?_, hloop, hplaced.imp fun _ _ hx => hx.string⟩
  rw [strtok_start hs]
  exact hcall

/-! ### The copy of the string -/

theorem toNat_and_mask (x : BitVec 16) : (x &&& 0xFFF0#16).toNat = x.toNat / 16 * 16 := by
  have hshift : x &&& 0xFFF0#16 = x >>> 4 <<< 4 := by
    ext i hi
    rw [BitVec.getElem_and, BitVec.getElem_shiftLeft]
    interval_cases i
    all_goals simp [BitVec.getLsbD_eq_getElem]
  have hlt := x.isLt
  rw [hshift, BitVec.toNat_shiftLeft, BitVec.toNat_ushiftRight, Nat.shiftRight_eq_div_pow,
    Nat.shiftLeft_eq]
  omega

/-- The size of the copy is a multiple of 16, with room for the string and its 0. -/
theorem argBytes_spec {len : ℕ} (h : len < 65520) :
    (argBytes len).toNat % 16 = 0 ∧ len < (argBytes len).toNat ∧ (argBytes len).toNat ≤ 65520 := by
  have hx : (BitVec.ofNat 16 (len + 1)).toNat = len + 1 := by
    rw [BitVec.toNat_ofNat, Nat.mod_eq_of_lt (by omega)]
  have hmask := toNat_and_mask (BitVec.ofNat 16 (len + 1))
  unfold argBytes
  dsimp only
  split_ifs with hne
  · rw [BitVec.toNat_add, hmask, hx]
    have hne' : (len + 1) / 16 * 16 ≠ len + 1 := by
      intro heq
      apply hne
      apply BitVec.eq_of_toNat_eq
      rw [hmask, hx, heq]
    simp only [BitVec.toNat_ofNat]
    omega
  · rw [not_not] at hne
    rw [hne, hx] at hmask
    omega

theorem toNat_argBytes (len : ℕ) :
    ((argBytes len).setWidth 32).toNat = (argBytes len).toNat := by
  have hlt := (argBytes len).isLt
  rw [BitVec.toNat_setWidth, Nat.mod_eq_of_lt (by omega)]

/-- Where the copy of the string begins. -/
def copyStart (sp : Addr) (len : ℕ) : Addr := sp - (argBytes len).setWidth 32

/-- The memory when the string has been copied. -/
def copied (mem : Mem) (sp : Addr) (str : List (BitVec 8)) : Mem :=
  writeAll (writeAll mem (copyStart sp str.length)
    (List.replicate (argBytes str.length).toNat 0#8)) (copyStart sp str.length) str

section Copy

variable {mem : Mem} {unparsedArgs sp : Addr} {str : List (BitVec 8)}

/-- The string is apart from its copy. -/
def SourceApart (unparsedArgs sp : Addr) (str : List (BitVec 8)) : Prop :=
  ∀ i j, i ≤ str.length → j < (argBytes str.length).toNat →
    copyStart sp str.length + BitVec.ofNat 32 j ≠ unparsedArgs + BitVec.ofNat 32 i

theorem copied_outside (hlen : str.length < 65520) {a : Addr}
    (ha : (argBytes str.length).toNat ≤ (a - copyStart sp str.length).toNat) :
    copied mem sp str a = mem a := by
  obtain ⟨-, hlt, hle⟩ := argBytes_spec hlen
  rw [copied, writeAll_outside _ (by omega) (by omega),
    writeAll_outside _ (by rw [List.length_replicate]; omega)
      (by rw [List.length_replicate]; exact ha)]

/-- The copy is a string. -/
theorem isString_copied (hstr : IsString mem unparsedArgs str) (hlen : str.length < 65520) :
    IsString (copied mem sp str) (copyStart sp str.length) str := by
  obtain ⟨-, hlt, hle⟩ := argBytes_spec hlen
  refine ⟨?_, hstr.nonzero⟩
  rw [holds_append, holds_cons]
  refine ⟨holds_writeAll _ _ (by omega), ?_, holds_nil _ _⟩
  -- the 0 behind the copy is one of those that are there before
  have hcell : (copyStart sp str.length + BitVec.ofNat 32 str.length -
      copyStart sp str.length).toNat = str.length :=
    toNat_add_ofNat_sub _ (by omega)
  rw [copied, writeAll_outside _ (by omega) hcell.ge, writeAll_replicate _ _ _ (by omega) hlt]

/-- `setup_stack_args` up to the first call of `strtok`. -/
theorem setupStackArgs_copied (hstr : IsString mem unparsedArgs str) (hlen : str.length < 65520)
    (hapart : SourceApart unparsedArgs sp str) (last : Addr) :
    setupStackArgs mem last unparsedArgs sp = (do
      let (args, t) ← tokeniseArgs maxArgs
        (← strtok (copied mem sp str) last (copyStart sp str.length) [0x20#8])
      let block := args ++ List.replicate (maxArgs - args.length) 0#32
      let mem := Ring.writeAll t.mem (copyStart sp str.length - 28#32) (block.flatMap wordBytes)
      let mem := Ring.writeAll mem (copyStart sp str.length - 28#32 - 4#32)
        (wordBytes (BitVec.ofNat 32 args.length))
      return ⟨copyStart sp str.length - 28#32 - 4#32, copyStart sp str.length, mem, t.last⟩) := by
  obtain ⟨-, hlt, hle⟩ := argBytes_spec hlen
  have hcount := toNat_argBytes str.length
  have hset : memset mem (copyStart sp str.length) 0#8 ((argBytes str.length).setWidth 32) =
      some (writeAll mem (copyStart sp str.length)
        (List.replicate (argBytes str.length).toNat 0#8)) := by
    have hne : (argBytes str.length).setWidth 32 ≠ 0#32 := by
      intro h0
      rw [h0, BitVec.toNat_ofNat] at hcount
      omega
    rw [memset, if_neg hne, hcount]
  have hkept : IsString (writeAll mem (copyStart sp str.length)
      (List.replicate (argBytes str.length).toNat 0#8)) unparsedArgs str := by
    refine ⟨?_, hstr.nonzero⟩
    apply hstr.holds.congr
    intro i hi
    rw [List.length_append, List.length_singleton] at hi
    apply writeAll_outside _ (by rw [List.length_replicate]; omega)
    rw [List.length_replicate]
    by_contra hin
    apply hapart i (unparsedArgs + BitVec.ofNat 32 i - copyStart sp str.length).toNat (by omega)
      (by omega)
    rw [start_add_sub]
  have hcopy : memcpy (writeAll mem (copyStart sp str.length)
      (List.replicate (argBytes str.length).toNat 0#8)) (copyStart sp str.length) unparsedArgs
      str.length = copied mem sp str := by
    have hsep : Apart (copyStart sp str.length) unparsedArgs str.length :=
      fun i j hi hj => hapart j i (by omega) (by omega)
    rw [memcpy_eq _ (by omega) hsep, (holds_append.mp hkept.holds).1.slice_eq]
    rfl
  unfold setupStackArgs
  rw [strlen_eq hstr (by omega), Option.bind_eq_bind, Option.bind_some]
  dsimp only
  rw [← copyStart, hset, Option.bind_eq_bind, Option.bind_some, strlen_eq hkept (by omega),
    Option.bind_eq_bind, Option.bind_some, hcopy]

end Copy

/-! ### The pointers -/

/-- The words that are pushed for the arguments: their number, and the pointers. -/
def argWords (args : List Addr) : List (BitVec 32) :=
  BitVec.ofNat 32 args.length :: (args ++ List.replicate (maxArgs - args.length) 0#32)

/-- The memory when the words have been pushed: first the pointers, and their number below them. -/
def pushed (mem : Mem) (p : Addr) (args : List Addr) : Mem :=
  writeAll
    (writeAll mem (p - 28#32)
      ((args ++ List.replicate (maxArgs - args.length) 0#32).flatMap wordBytes))
    (p - 28#32 - 4#32) (wordBytes (BitVec.ofNat 32 args.length))

theorem length_flatMap_wordBytes (ws : List (BitVec 32)) :
    (ws.flatMap wordBytes).length = 4 * ws.length := by
  induction ws with
  | nil => rfl
  | cons w ws ih =>
    rw [List.flatMap_cons, List.length_append, ih, length_wordBytes, List.length_cons]
    omega

section Pushed

variable (mem : Mem) (p : Addr) {args : List Addr}

theorem length_block (hargs : args.length ≤ maxArgs) :
    ((args ++ List.replicate (maxArgs - args.length) 0#32).flatMap wordBytes).length = 28 := by
  have hmax : maxArgs = 7 := rfl
  rw [length_flatMap_wordBytes, List.length_append, List.length_replicate]
  omega

theorem pushed_outside (hargs : args.length ≤ maxArgs) {a : Addr}
    (ha : 32 ≤ (a - (p - 28#32 - 4#32)).toNat) : pushed mem p args a = mem a := by
  have hlen := length_block hargs
  rw [pushed, writeAll_outside _ (by rw [length_wordBytes]; decide)
      (by rw [length_wordBytes]; omega),
    writeAll_outside _ (by rw [hlen]; decide) (by rw [hlen]; bv_omega)]

theorem holds_pushed (hargs : args.length ≤ maxArgs) :
    Holds (pushed mem p args) (p - 28#32 - 4#32) ((argWords args).flatMap wordBytes) := by
  have hlen := length_block hargs
  rw [argWords, List.flatMap_cons, holds_append, length_wordBytes]
  constructor
  · exact holds_writeAll _ _ (by rw [length_wordBytes]; decide)
  · have hstart : p - 28#32 - 4#32 + BitVec.ofNat 32 4 = p - 28#32 := by bv_omega
    rw [hstart]
    apply (holds_writeAll mem (p - 28#32) (by rw [hlen]; decide)).congr
    intro k hk
    rw [hlen] at hk
    -- the number is below the pointers
    apply writeAll_outside _ (by rw [length_wordBytes]; decide)
    rw [length_wordBytes]
    bv_omega

end Pushed

/-! ### The layout -/

/-- What a C program expects on its stack: the number of its arguments, the pointers to them, a null
pointer, and the arguments themselves. -/
structure Laid (mem : Mem) (sp : Addr) (toks : List (List (BitVec 8))) (r : Setup) : Prop where
  aligned : r.sp.toNat % 16 = 0
  below : r.sp.toNat < sp.toNat
  frame : ∀ a : Addr, a.toNat ∉ Set.Ico r.sp.toNat sp.toNat → r.mem a = mem a
  argc : wordAt r.mem r.sp = BitVec.ofNat 32 (min toks.length maxArgs)
  argv : ∀ i tok, i < maxArgs → toks[i]? = some tok →
    Placed (r.sp.toNat + 32) sp.toNat r.mem (wordAt r.mem (r.sp + BitVec.ofNat 32 (4 + 4 * i))) tok
  null : wordAt r.mem (r.sp + BitVec.ofNat 32 (4 + 4 * min toks.length maxArgs)) = 0#32

section Layout

variable {mem : Mem} {unparsedArgs sp last : Addr} {str : List (BitVec 8)}

/-- There is room for the copy of the string and the words below the stack pointer. -/
def Room (sp : Addr) (len : ℕ) : Prop := (argBytes len).toNat + 32 ≤ sp.toNat

theorem toNat_copyStart {len : ℕ} (hroom : Room sp len) :
    (copyStart sp len).toNat = sp.toNat - (argBytes len).toNat := by
  have hle : (argBytes len).toNat + 32 ≤ sp.toNat := hroom
  have hsp := sp.isLt
  have hcount := toNat_argBytes len
  rw [copyStart, BitVec.toNat_sub_of_le (by rw [BitVec.le_def, hcount]; omega), hcount]

/-- What is left when there is room. -/
structure LaidOut (mem : Mem) (sp : Addr) (str : List (BitVec 8)) (args : List Addr) (r : Setup) :
    Prop where
  sp_eq : r.sp.toNat + (argBytes str.length).toNat + 32 = sp.toNat
  words : Holds r.mem r.sp ((argWords args).flatMap wordBytes)
  placed : List.Forall₂ (Placed (r.sp.toNat + 32) sp.toNat r.mem) args
    ((tokens isBlank str).take maxArgs)
  frame : ∀ a : Addr, a.toNat ∉ Set.Ico r.sp.toNat sp.toNat → r.mem a = mem a
  first : ∀ x ∈ str.head?, r.mem (r.sp + 32#32) = x

theorem setupStackArgs_laidOut (hstr : IsString mem unparsedArgs str) (hlen : str.length < 65520)
    (hapart : SourceApart unparsedArgs sp str) (hroom : Room sp str.length) (last : Addr) :
    ∃ r args, setupStackArgs mem last unparsedArgs sp = some r ∧ LaidOut mem sp str args r := by
  obtain ⟨-, hlt, hle⟩ := argBytes_spec hlen
  have hsp := sp.isLt
  have hstart := toNat_copyStart hroom
  have hroom' : (argBytes str.length).toNat + 32 ≤ sp.toNat := hroom
  have hne : copyStart sp str.length ≠ 0#32 := by
    intro h0
    rw [h0, BitVec.toNat_ofNat] at hstart
    omega
  have hrest : Rest (copyStart sp str.length).toNat sp.toNat (copied mem sp str)
      (copyStart sp str.length) (tokens isBlank str) :=
    Or.inr ⟨hne, str, isString_copied hstr hlen, rfl, le_rfl, by omega⟩
  obtain ⟨t, hcall, hnext⟩ := strtok_next hrest hsp.le
  obtain ⟨args, t', hloop, hplaced, hframe⟩ := tokeniseArgs_spec (n := maxArgs) hnext hsp.le
  have hargs : args.length ≤ maxArgs := by
    rw [hplaced.length_eq]
    exact List.length_take_le _ _
  have hrun := setupStackArgs_copied hstr hlen hapart last
  rw [strtok_start hne, hcall, Option.bind_eq_bind, Option.bind_some, hloop, Option.bind_eq_bind,
    Option.bind_some] at hrun
  have hbottom : (copyStart sp str.length - 28#32 - 4#32).toNat + 32 =
      (copyStart sp str.length).toNat := by bv_omega
  have hout : ∀ a : Addr, a.toNat + 32 < (copyStart sp str.length).toNat ∨
      (copyStart sp str.length).toNat ≤ a.toNat →
        32 ≤ (a - (copyStart sp str.length - 28#32 - 4#32)).toNat := by
    intro a ha
    bv_omega
  refine ⟨_, args, hrun, ?_, holds_pushed t'.mem _ hargs, ?_, ?_, ?_⟩
  all_goals dsimp only
  · omega
  · rw [hbottom]
    apply hplaced.imp
    intro q tok hq
    apply hq.congr hsp.le
    intro a ha _
    exact pushed_outside t'.mem _ hargs (hout a (Or.inr ha))
  · intro a ha
    rw [Set.mem_Ico, not_and_or, not_le, not_lt] at ha
    have hcopy : (argBytes str.length).toNat ≤ (a - copyStart sp str.length).toNat := by bv_omega
    refine (pushed_outside t'.mem _ hargs (hout a (by omega))).trans ?_
    rw [hframe a (by omega), copied_outside hlen hcopy]
  · intro x hx
    have hfirst : copyStart sp str.length - 28#32 - 4#32 + 32#32 = copyStart sp str.length := by
      bv_omega
    rw [hfirst]
    refine (pushed_outside t'.mem _ hargs (hout _ (Or.inr le_rfl))).trans ?_
    rw [hframe _ (Or.inl le_rfl)]
    obtain ⟨rest, rfl⟩ : ∃ rest, str = x :: rest := List.head?_eq_some_iff.mp hx
    exact (holds_cons.mp (isString_copied hstr hlen).holds).1

theorem setupStackArgs_sp {r : Setup} (hstr : IsString mem unparsedArgs str)
    (hlen : str.length < 65520) (hr : setupStackArgs mem last unparsedArgs sp = some r) :
    r.sp = copyStart sp str.length - 28#32 - 4#32 := by
  unfold setupStackArgs at hr
  rw [strlen_eq hstr (by omega), Option.bind_eq_bind, Option.bind_some] at hr
  simp only [Option.bind_eq_bind, Option.bind_eq_some_iff] at hr
  obtain ⟨_, _, _, _, _, _, p, _, hr⟩ := hr
  obtain rfl := Option.some.inj hr
  rfl

namespace LaidOut

variable {args : List Addr} {r : Setup}

theorem length_args (h : LaidOut mem sp str args r) :
    args.length = min (tokens isBlank str).length maxArgs := by
  rw [h.placed.length_eq, List.length_take, Nat.min_comm]

theorem wordAt_eq (h : LaidOut mem sp str args r) {k : ℕ} {x : BitVec 32}
    (hx : (argWords args)[k]? = some x) :
    wordAt r.mem (r.sp + BitVec.ofNat 32 (4 * k)) = x := by
  obtain ⟨hk, rfl⟩ := List.getElem?_eq_some_iff.mp hx
  exact wordAt_of_words h.words hk

theorem argc (h : LaidOut mem sp str args r) :
    wordAt r.mem r.sp = BitVec.ofNat 32 (min (tokens isBlank str).length maxArgs) := by
  have hword := h.wordAt_eq (k := 0) rfl
  rw [Nat.mul_zero, BitVec.add_zero] at hword
  rw [hword, h.length_args]

/-- The pointer to an argument. -/
theorem argv (h : LaidOut mem sp str args r) {i : ℕ} {tok : List (BitVec 8)} (hi : i < maxArgs)
    (htok : (tokens isBlank str)[i]? = some tok) :
    Placed (r.sp.toNat + 32) sp.toNat r.mem (wordAt r.mem (r.sp + BitVec.ofNat 32 (4 + 4 * i)))
      tok := by
  obtain ⟨hlt, rfl⟩ := List.getElem?_eq_some_iff.mp htok
  have hargs : i < args.length := by
    rw [h.length_args]
    omega
  have htake : i < ((tokens isBlank str).take maxArgs).length := by
    rw [List.length_take]
    omega
  have hpointer : (argWords args)[i + 1]? = some args[i] := by
    rw [argWords, List.getElem?_cons_succ, List.getElem?_append_left hargs,
      List.getElem?_eq_getElem hargs]
  have hplaced := h.placed.get hargs htake
  rw [Nat.add_comm 4, ← Nat.mul_succ, h.wordAt_eq hpointer]
  rw [List.get_eq_getElem, List.get_eq_getElem, List.getElem_take] at hplaced
  exact hplaced

/-- The pointer behind those to the arguments. -/
theorem null (h : LaidOut mem sp str args r) (hlt : (tokens isBlank str).length < maxArgs) :
    wordAt r.mem (r.sp + BitVec.ofNat 32 (4 + 4 * min (tokens isBlank str).length maxArgs)) =
      0#32 := by
  have hargs := h.length_args
  have hnull : (argWords args)[args.length + 1]? = some 0#32 := by
    rw [argWords, List.getElem?_cons_succ, List.getElem?_append_right le_rfl, Nat.sub_self,
      List.getElem?_replicate_of_lt (by omega)]
  rw [← hargs, Nat.add_comm 4, ← Nat.mul_succ]
  exact h.wordAt_eq hnull

/-- With seven arguments there is the copy of the string where the null pointer should be. -/
theorem not_null (h : LaidOut mem sp str args r) (hstr : IsString mem unparsedArgs str)
    (hge : maxArgs ≤ (tokens isBlank str).length) :
    wordAt r.mem (r.sp + BitVec.ofNat 32 (4 + 4 * min (tokens isBlank str).length maxArgs)) ≠
      0#32 := by
  cases str with
  | nil => exact absurd hge (by decide)
  | cons x str =>
    have hx : r.mem (r.sp + 32#32) = x := h.first x rfl
    intro h0
    rw [Nat.min_eq_right hge] at h0
    have hzero : r.mem (r.sp + 32#32) = 0#8 :=
      (setWidth_wordAt r.mem _).symm.trans (congrArg (BitVec.setWidth 8) h0)
    rw [← hx, hzero] at hstr
    exact hstr.nonzero List.mem_cons_self

theorem laid (h : LaidOut mem sp str args r) (hlen : str.length < 65520) (hsp : sp.toNat % 16 = 0)
    (hlt : (tokens isBlank str).length < maxArgs) : Laid mem sp (tokens isBlank str) r := by
  obtain ⟨hmod, _, _⟩ := argBytes_spec hlen
  have hbottom := h.sp_eq
  refine ⟨by omega, by omega, h.frame, h.argc, fun i tok => h.argv, h.null hlt⟩

end LaidOut

/-- **The layout is the one that a program expects** if and only if there are less than seven
arguments, and room for them below the stack pointer. -/
theorem laid_iff (hstr : IsString mem unparsedArgs str) (hlen : str.length < 65520)
    (hsp : sp.toNat % 16 = 0) (hapart : SourceApart unparsedArgs sp str) :
    (∃ r, setupStackArgs mem last unparsedArgs sp = some r ∧ Laid mem sp (tokens isBlank str) r) ↔
      (tokens isBlank str).length < maxArgs ∧ Room sp str.length := by
  constructor
  · rintro ⟨r, hr, hlaid⟩
    have hroom : Room sp str.length := by
      -- otherwise the stack pointer wraps around
      by_contra hroom
      rw [Room, not_le] at hroom
      have hbelow := hlaid.below
      obtain ⟨-, -, hle⟩ := argBytes_spec hlen
      have hcount := toNat_argBytes str.length
      rw [setupStackArgs_sp hstr hlen hr, copyStart] at hbelow
      bv_omega
    refine ⟨?_, hroom⟩
    obtain ⟨r', args, hr', hout⟩ := setupStackArgs_laidOut hstr hlen hapart hroom last
    obtain rfl := Option.some.inj (hr.symm.trans hr')
    by_contra hge
    exact hout.not_null hstr (not_lt.mp hge) hlaid.null
  · rintro ⟨hlt, hroom⟩
    obtain ⟨r, args, hr, hout⟩ := setupStackArgs_laidOut hstr hlen hapart hroom last
    exact ⟨r, hr, hout.laid hlen hsp hlt⟩

end Layout

/-- A string below its copy. -/
theorem sourceApart_of_below {unparsedArgs sp : Addr} {str : List (BitVec 8)}
    (hroom : Room sp str.length)
    (hbelow : unparsedArgs.toNat + str.length < (copyStart sp str.length).toNat) :
    SourceApart unparsedArgs sp str := by
  have hstart := toNat_copyStart hroom
  have hroom' : (argBytes str.length).toNat + 32 ≤ sp.toNat := hroom
  have hsp := sp.isLt
  intro i j hi hj heq
  have hnat := congrArg BitVec.toNat heq
  rw [toNat_add_ofNat (by omega), toNat_add_ofNat (by omega)] at hnat
  omega

/-- The memory with a string at an address. -/
def stringMem (s : Addr) (str : List (BitVec 8)) : Mem := writeAll (fun _ => 0#8) s (str ++ [0#8])

/-- A command with one argument, behind two blanks. -/
def oneArgument : List (BitVec 8) := [0x61#8, 0x62#8, 0x20#8, 0x20#8, 0x63#8]

/-- A command with six arguments. -/
def sixArguments : List (BitVec 8) :=
  [0x61#8, 0x20#8, 0x62#8, 0x20#8, 0x63#8, 0x20#8, 0x64#8, 0x20#8, 0x65#8, 0x20#8, 0x66#8, 0x20#8,
    0x67#8]

theorem oneArgument_laid :
    ∃ r, setupStackArgs (stringMem 0x1000#32 oneArgument) 0#32 0x1000#32 userSp = some r ∧
      Laid (stringMem 0x1000#32 oneArgument) userSp [[0x61#8, 0x62#8], [0x63#8]] r := by
  have hstr : IsString (stringMem 0x1000#32 oneArgument) 0x1000#32 oneArgument :=
    ⟨holds_writeAll _ _ (by decide), by decide⟩
  have hroom : Room userSp oneArgument.length := by
    rw [Room]
    decide
  exact (laid_iff hstr (by decide) (by decide)
    (sourceApart_of_below hroom (by decide))).mpr ⟨by decide, hroom⟩

/-- **Seven tokens**: the word behind the pointers is the beginning of the string. -/
theorem sixArguments_not_laid :
    (tokens isBlank sixArguments).length = 7 ∧
      ∃ r, setupStackArgs (stringMem 0x1000#32 sixArguments) 0#32 0x1000#32 userSp = some r ∧
        wordAt r.mem r.sp = 7#32 ∧ wordAt r.mem (r.sp + 32#32) = 0x00620061#32 ∧
        ¬Laid (stringMem 0x1000#32 sixArguments) userSp (tokens isBlank sixArguments) r := by
  have hlen : (tokens isBlank sixArguments).length = 7 := by decide
  have hrun : (setupStackArgs (stringMem 0x1000#32 sixArguments) 0#32 0x1000#32 userSp).map
      (fun r => (wordAt r.mem r.sp, wordAt r.mem (r.sp + 32#32))) =
        some (7#32, 0x00620061#32) := by
    decide +kernel
  obtain ⟨r, hr, hwords⟩ := Option.map_eq_some_iff.mp hrun
  obtain ⟨hargc, hnull⟩ := Prod.mk.inj hwords
  refine ⟨hlen, r, hr, hargc, hnull, fun hlaid => ?_⟩
  have hzero := hlaid.null
  rw [hlen] at hzero
  exact absurd (hnull.symm.trans hzero) (by decide)

end Filestick.Elf
