import Filestick.Init.Cli
import Filestick.System.Equiv.StackArgs
import Mathlib.Data.List.DropRight
import Mathlib.Data.List.Find
import Mathlib.Data.List.GetD

/-!
# What `parse_cmd` does with a line

* `leading`, `cleaned`: the spaces before a line, and the line without the blanks around it.
* `Padded`: a string in a cleared buffer.
* `cleanCmdbuf_spec`: the buffer gets the cleaned line, or nothing.
* `internalCommand_spec`: a command is found by the first token.
* `parse_cmd_iff`: the right function is called with the tokens unless there are too many spaces
  before the line.
-/

namespace Filestick.Cli

open Elf (Addr Mem IsString isString_nil isString_cons isBlank Tok)
open Filestick.Ring
open Tokens

/-! ### Lines -/

/-- The number of spaces before a line. -/
def leading (line : List (BitVec 8)) : ℕ := (line.takeWhile isBlank).length

/-- A control character or a space. -/
def isControl (c : BitVec 8) : Bool := c.toNat ≤ 32

/-- The line without the spaces before it, and the control characters and spaces behind it. -/
def cleaned (line : List (BitVec 8)) : List (BitVec 8) :=
  (line.dropWhile isBlank).rdropWhile isControl

/-! ### The buffer -/

/-- A string in a buffer of `n` bytes, with zeros behind it. -/
def Padded (mem : Mem) (buf : Addr) (n : ℕ) (xs : List (BitVec 8)) : Prop :=
  ∀ k < n, mem (buf + BitVec.ofNat 32 k) = xs.getD k 0#8

section Buffer

variable {mem : Mem} {buf s : Addr} {n : ℕ} {xs : List (BitVec 8)}

theorem Padded.isString (h : Padded mem buf n xs) (hxs : xs.length < n) (hnul : 0#8 ∉ xs) :
    IsString mem buf xs := by
  refine ⟨?_, hnul⟩
  intro k hk
  rw [List.length_append, List.length_singleton] at hk
  rw [h k (by omega)]
  by_cases hlast : k < xs.length
  · rw [List.getD_eq_getElem _ _ hlast, List.getElem_append_left hlast]
  · have hend : k = xs.length := by omega
    subst hend
    rw [List.getElem_concat_length rfl, List.getD_eq_default _ _ le_rfl]

/-- The spaces before a string. -/
theorem skipSpaces_eq (h : IsString mem s xs) : skipSpaces mem n s = min (leading xs) n := by
  induction n generalizing s xs with
  | zero => exact (Nat.min_zero _).symm
  | succ n ih =>
    rw [skipSpaces]
    cases xs with
    | nil =>
      rw [isString_nil.mp h, if_pos (by decide)]
      exact (Nat.zero_min _).symm
    | cons x xs =>
      obtain ⟨hx, -, hxs⟩ := isString_cons.mp h
      unfold leading
      by_cases hblank : x = 0x20#8
      · rw [hx, if_neg (not_not.mpr hblank), ih hxs,
          List.takeWhile_cons_of_pos (by rw [isBlank, hblank]; rfl), List.length_cons, leading]
        omega
      · rw [hx, if_pos hblank, List.takeWhile_cons_of_neg (by rw [isBlank]; simpa using hblank)]
        exact (Nat.zero_min _).symm

theorem strcpyFrom_eq {dest : Addr} (h : IsString mem s xs) (hlen : xs.length < 2 ^ 32)
    (hapart : ∀ i j, i ≤ xs.length → j ≤ xs.length →
      dest + BitVec.ofNat 32 i ≠ s + BitVec.ofNat 32 j) (hn : xs.length < n) :
    strcpyFrom n mem dest s = some (writeAll mem dest (xs ++ [0#8])) := by
  induction xs generalizing mem dest s n with
  | nil =>
    obtain ⟨n, rfl⟩ := Nat.exists_eq_succ_of_ne_zero (Nat.ne_of_gt hn)
    rw [strcpyFrom, isString_nil.mp h]
    rfl
  | cons x xs ih =>
    obtain ⟨n, rfl⟩ := Nat.exists_eq_succ_of_ne_zero (Nat.ne_of_gt (Nat.zero_lt_of_lt hn))
    rw [List.length_cons] at hlen hapart hn
    obtain ⟨hx, hne, hxs⟩ := isString_cons.mp h
    have hrest : IsString (Function.update mem dest x) (s + 1#32) xs := by
      refine ⟨?_, hxs.nonzero⟩
      apply hxs.holds.congr
      intro k hk
      have hk' : k < (xs ++ [0#8]).length := hk
      rw [List.length_append, List.length_singleton] at hk'
      apply Function.update_of_ne
      intro heq
      apply hapart 0 (k + 1) (Nat.zero_le _) (by omega)
      rw [show dest + BitVec.ofNat 32 0 = dest from BitVec.add_zero dest, ← heq,
        BitVec.add_assoc, ← BitVec.ofNat_add, Nat.add_comm 1]
    rw [strcpyFrom, hx, if_neg hne, ih hrest (by omega) ?_ (by omega)]
    · rfl
    · intro i j hi hj heq
      apply hapart (i + 1) (j + 1) (by omega) (by omega)
      rw [Nat.add_comm i, Nat.add_comm j, BitVec.ofNat_add, BitVec.ofNat_add, ← BitVec.add_assoc,
        ← BitVec.add_assoc]
      exact heq

/-- The end of a string in a buffer is cleared. -/
theorem trimEnd_spec (hn : n ≤ 2 ^ 32) (h : Padded mem buf n xs) (hxs : xs.length ≤ n) :
    (trimEnd mem buf xs.length).2 = (xs.rdropWhile isControl).length ∧
      Padded (trimEnd mem buf xs.length).1 buf n (xs.rdropWhile isControl) := by
  induction xs using List.reverseRecOn generalizing mem with
  | nil => exact ⟨rfl, h⟩
  | append_singleton xs x ih =>
    rw [List.length_append, List.length_singleton] at hxs ⊢
    have hlast : mem (buf + BitVec.ofNat 32 xs.length) = x := by
      rw [h xs.length (by omega)]
      simp
    rw [trimEnd, hlast]
    by_cases hx : 32 < x.toNat
    · have hkeep : ¬isControl x = true := by
        rw [isControl]
        simpa using hx
      rw [if_pos hx, List.rdropWhile_concat_neg _ _ _ hkeep]
      exact ⟨by rw [List.length_append]; rfl, h⟩
    · have hdrop : isControl x = true := by
        rw [isControl]
        simpa using hx
      rw [if_neg hx, List.rdropWhile_concat_pos _ _ _ hdrop]
      apply ih
      · intro k hk
        by_cases hcell : k = xs.length
        · subst hcell
          rw [Function.update_self, List.getD_eq_default _ _ le_rfl]
        · rw [Function.update_of_ne fun heq => hcell (add_ofNat_inj (by omega) (by omega) heq),
            h k hk]
          by_cases hlt : k < xs.length
          · rw [List.getD_append _ _ _ _ hlt]
          · rw [List.getD_eq_default _ _ (by rw [List.length_append, List.length_singleton]; omega),
              List.getD_eq_default _ _ (by omega)]
      · omega

end Buffer

/-! ### Cleaning -/

/-- `cmdbuf` is a buffer of its own, and the line is shorter than it. -/
structure Frame (mem : Mem) (cmdbuf raw : Addr) (line : List (BitVec 8)) : Prop where
  string : IsString mem raw line
  short : line.length < 256
  fits : cmdbuf.toNat + 256 ≤ 2 ^ 32
  nonnull : cmdbuf ≠ 0#32
  apart : ∀ i j, i < 256 → j ≤ line.length →
    cmdbuf + BitVec.ofNat 32 i ≠ raw + BitVec.ofNat 32 j

/-- The memory with `cmdbuf` cleared. -/
def cleared (mem : Mem) (cmdbuf : Addr) : Mem := writeAll mem cmdbuf (List.replicate 256 0#8)

section Clean

variable {mem : Mem} {cmdbuf raw : Addr} {line : List (BitVec 8)}

theorem cleared_string (h : Frame mem cmdbuf raw line) :
    IsString (cleared mem cmdbuf) raw line := by
  refine ⟨?_, h.string.nonzero⟩
  apply h.string.holds.congr
  intro j hj
  rw [List.length_append, List.length_singleton] at hj
  apply writeAll_outside _ (by rw [List.length_replicate]; decide)
  rw [List.length_replicate]
  by_contra hin
  apply h.apart (raw + BitVec.ofNat 32 j - cmdbuf).toNat j (by omega) (by omega)
  rw [start_add_sub]

/-- A string that is written to the cleared buffer. -/
theorem cleared_padded (mem : Mem) (cmdbuf : Addr) {xs : List (BitVec 8)} (hxs : xs.length < 256) :
    Padded (writeAll (cleared mem cmdbuf) cmdbuf (xs ++ [0#8])) cmdbuf 256 xs := by
  intro k hk
  have hzero : cleared mem cmdbuf (cmdbuf + BitVec.ofNat 32 k) = 0#8 :=
    writeAll_replicate mem cmdbuf 0#8 (by decide) hk
  rw [writeAll_apply _ _ _ (by rw [List.length_append, List.length_singleton]; omega),
    toNat_add_ofNat_sub cmdbuf (by omega), hzero]
  by_cases hlt : k < xs.length
  · rw [List.getElem?_append_left hlt, List.getD_eq_getElem?_getD]
  · rw [List.getElem?_append_right (by omega), List.getD_eq_default _ _ (by omega)]
    cases k - xs.length <;> rfl

theorem cleaned_sublist (line : List (BitVec 8)) : (cleaned line).Sublist line :=
  (List.rdropWhile_prefix _ _).sublist.trans (List.dropWhile_sublist _)

/-- **Cleaning a line**: with four spaces before it, nothing is left of it. -/
theorem cleanCmdbuf_spec (h : Frame mem cmdbuf raw line) :
    ∃ mem', cleanCmdbuf (cleared mem cmdbuf) cmdbuf raw 4 =
        some (mem', if leading line < 4 then (cleaned line).length else 0) ∧
      (leading line < 4 → Padded mem' cmdbuf 256 (cleaned line)) := by
  have hshort := h.short
  unfold cleanCmdbuf
  rw [skipSpaces_eq (cleared_string h)]
  by_cases hlead : leading line < 4
  · have hsplit : line.takeWhile isBlank ++ line.dropWhile isBlank = line :=
      List.takeWhile_append_dropWhile
    have hlen : leading line + (line.dropWhile isBlank).length = line.length := by
      rw [leading, ← List.length_append, hsplit]
    have hrest : IsString (cleared mem cmdbuf) (raw + BitVec.ofNat 32 (leading line))
        (line.dropWhile isBlank) := by
      have hstring := cleared_string h
      have hholds := hstring.holds
      rw [← hsplit, List.append_assoc] at hholds
      refine ⟨(holds_append.mp hholds).2, ?_⟩
      intro h0
      exact hstring.nonzero ((List.dropWhile_sublist _).subset h0)
    have hapart : ∀ i j, i ≤ (line.dropWhile isBlank).length →
        j ≤ (line.dropWhile isBlank).length →
        cmdbuf + BitVec.ofNat 32 i ≠
          raw + BitVec.ofNat 32 (leading line) + BitVec.ofNat 32 j := by
      intro i j hi hj
      rw [BitVec.add_assoc, ← BitVec.ofNat_add]
      exact h.apart i (leading line + j) (by omega) (by omega)
    have hcopy := strcpyFrom_eq (n := 2 ^ 32) hrest (by omega) hapart (by omega)
    have hpadded := cleared_padded mem cmdbuf (show (line.dropWhile isBlank).length < 256 by omega)
    have hstrlen := Elf.strlen_eq (hpadded.isString (by omega) hrest.nonzero) (by omega)
    obtain ⟨hcount, htrim⟩ := trimEnd_spec (by decide) hpadded (by omega)
    rw [Nat.min_eq_left hlead.le]
    dsimp only
    rw [if_neg hlead.ne, strcpy, hcopy, Option.bind_eq_bind, Option.bind_some, hstrlen,
      Option.bind_eq_bind, Option.bind_some, if_pos hlead]
    refine ⟨_, ?_, fun _ => htrim⟩
    exact congrArg some (Prod.ext rfl hcount)
  · rw [Nat.min_eq_right (by omega), if_neg hlead]
    exact ⟨cleared mem cmdbuf, if_pos rfl, fun hlt => absurd hlt hlead⟩

end Clean

/-! ### Commands -/

theorem strncmpEq_iff {mem : Mem} {buf : Addr} {cmd : List (BitVec 8)} :
    strncmpEq mem cmd cmd.length buf = true ↔ Holds mem buf cmd := by
  induction cmd generalizing buf with
  | nil => exact ⟨fun _ => holds_nil _ _, fun _ => rfl⟩
  | cons c cmd ih =>
    rw [List.length_cons, strncmpEq, Bool.and_eq_true, decide_eq_true_eq, ih]
    exact holds_cons.symm

/-- The name of a command: a word of less than 256 bytes. -/
structure IsName (cmd : List (BitVec 8)) : Prop where
  nonempty : cmd ≠ []
  word : ∀ c ∈ cmd, isBlank c = false ∧ c ≠ 0#8
  short : cmd.length < 256

theorem commands_isName : ∀ entry ∈ commands, IsName entry.cmd := by
  intro entry hentry
  have hall : ∀ entry ∈ commands, entry.cmd ≠ [] ∧
      (∀ c ∈ entry.cmd, isBlank c = false ∧ c ≠ 0#8) ∧ entry.cmd.length < 256 := by
    decide +kernel
  obtain ⟨hne, hword, hshort⟩ := hall entry hentry
  exact ⟨hne, hword, hshort⟩

section Match

variable {mem : Mem} {buf : Addr} {s : List (BitVec 8)}

/-- A string that begins with a name, and a space or nothing behind it. -/
theorem first_token_iff {cmd : List (BitVec 8)} (hcmd : IsName cmd)
    (hhead : ∀ x ∈ s.head?, isBlank x = false) :
    (tokens isBlank s).head? = some cmd ↔
      ∃ rest, s = cmd ++ rest ∧ ∀ x ∈ rest.head?, isBlank x = true := by
  have hword : ∀ c ∈ cmd, isBlank c = false := fun c hc => (hcmd.word c hc).1
  constructor
  · intro htok
    rcases tokens_cases isBlank s with hall | ⟨pre, tok, post, rfl, hpre, hne, htok', hpost⟩
    · rw [tokens_of_forall hall] at htok
      exact nomatch htok
    · -- the first byte is not a space
      have hnil : pre = [] := by
        cases pre with
        | nil => rfl
        | cons x pre =>
          have hx := hpre x List.mem_cons_self
          rw [hhead x rfl] at hx
          exact nomatch hx
      subst hnil
      rw [List.nil_append] at htok ⊢
      rcases hpost with rfl | ⟨sep, rest, rfl, hsep⟩
      · rw [List.append_nil, tokens_single htok' hne] at htok
        obtain rfl := Option.some.inj htok
        exact ⟨[], rfl, fun x hx => nomatch hx⟩
      · rw [tokens_append htok' hne hsep] at htok
        obtain rfl := Option.some.inj htok
        refine ⟨sep :: rest, rfl, ?_⟩
        intro x hx
        obtain rfl := Option.some.inj hx
        exact hsep
  · rintro ⟨rest, rfl, hrest⟩
    cases rest with
    | nil =>
      rw [List.append_nil, tokens_single hword hcmd.nonempty]
      rfl
    | cons sep rest =>
      rw [tokens_append hword hcmd.nonempty (hrest sep rfl)]
      rfl

/-- **A command is the first token.** -/
theorem isCommand_iff (h : Padded mem buf 256 s) (hlen : s.length < 256) (hnul : 0#8 ∉ s)
    (hhead : ∀ x ∈ s.head?, isBlank x = false) {entry : CmdEntry} (hcmd : IsName entry.cmd) :
    isCommand mem buf entry = true ↔ (tokens isBlank s).head? = some entry.cmd := by
  have hshort := hcmd.short
  rw [first_token_iff hcmd hhead]
  unfold isCommand
  dsimp only
  rw [Bool.and_eq_true, strncmpEq_iff, h _ hshort, Bool.or_eq_true, decide_eq_true_eq,
    decide_eq_true_eq]
  constructor
  · rintro ⟨hend, hholds⟩
    -- the name is in front of the string
    have hcells : ∀ k (hk : k < entry.cmd.length), s[k]? = some entry.cmd[k] := by
      intro k hk
      have hcell := hholds k hk
      rw [h k (by omega), List.getD_eq_getElem?_getD] at hcell
      cases hget : s[k]? with
      | none =>
        rw [hget] at hcell
        exact absurd hcell.symm (hcmd.word _ (List.getElem_mem hk)).2
      | some c =>
        rw [hget] at hcell
        exact congrArg some hcell
    have hprefix : entry.cmd <+: s := by
      rw [List.prefix_iff_getElem?]
      exact hcells
    obtain ⟨rest, rfl⟩ := hprefix
    refine ⟨rest, rfl, ?_⟩
    intro x hx
    obtain ⟨rest', rfl⟩ : ∃ rest', rest = x :: rest' := by
      cases rest with
      | nil => exact nomatch hx
      | cons y rest' => exact ⟨rest', by rw [Option.some.inj hx]⟩
    rw [List.getD_append_right _ _ _ _ le_rfl, Nat.sub_self] at hend
    have hx0 : x ≠ 0#8 := by
      rintro rfl
      exact hnul (List.mem_append_right _ List.mem_cons_self)
    rw [isBlank, beq_iff_eq]
    exact hend.resolve_right hx0
  · rintro ⟨rest, rfl, hrest⟩
    constructor
    · rw [List.getD_append_right _ _ _ _ le_rfl, Nat.sub_self]
      cases rest with
      | nil => exact Or.inr rfl
      | cons x rest =>
        have hx := hrest x rfl
        rw [isBlank, beq_iff_eq] at hx
        exact Or.inl hx
    · intro k hk
      rw [h k (by omega), List.getD_append _ _ _ _ hk, List.getD_eq_getElem _ _ hk]

theorem internalCommand_spec (h : Padded mem buf 256 s) (hlen : s.length < 256) (hnul : 0#8 ∉ s)
    (hhead : ∀ x ∈ s.head?, isBlank x = false) :
    internalCommand mem buf =
      commands.find? fun entry => decide ((tokens isBlank s).head? = some entry.cmd) := by
  unfold internalCommand
  apply List.find?_congr
  intro entry hentry
  rw [Bool.eq_iff_iff, isCommand_iff h hlen hnul hhead (commands_isName entry hentry),
    decide_eq_true_eq]

end Match

/-! ### Dispatch -/

/-- What is to be done with a line: nothing with an empty one and a comment; the function of a
command is called with its tokens, at most seven; anything else is passed to `exec_elf`. -/
def Dispatched (line : List (BitVec 8)) (cmdbuf : Addr) (action : Option Action) : Prop :=
  let s := cleaned line
  let toks := tokens isBlank s
  if s = [] ∨ s.head? = some 0x23#8 then action = some .nothing
  else match commands.find? fun entry => decide (toks.head? = some entry.cmd) with
    | some entry => ∃ argv mem, action = some (.call entry.cmdfunc argv mem) ∧
        argv.length = min toks.length maxArgs ∧
        List.Forall₂ (IsString mem) argv (toks.take maxArgs)
    | none => ∃ mem, action = some (.execElf cmdbuf mem) ∧ IsString mem cmdbuf s

section Dispatch

variable {mem : Mem} {cmdbuf raw : Addr} {line : List (BitVec 8)}

theorem head_cleaned (line : List (BitVec 8)) :
    ∀ x ∈ (cleaned line).head?, isBlank x = false := by
  intro x hx
  have hprefix : cleaned line <+: line.dropWhile isBlank := List.rdropWhile_prefix _ _
  obtain ⟨rest, hrest⟩ := hprefix
  cases hs : cleaned line with
  | nil =>
    rw [hs] at hx
    exact nomatch hx
  | cons y ys =>
    rw [hs] at hx hrest
    obtain rfl := Option.some.inj hx
    have hhead : (line.dropWhile isBlank).head? = some y := by
      rw [← hrest]
      rfl
    have hnot := List.head?_dropWhile_not isBlank line
    rw [hhead] at hnot
    exact hnot

theorem parseCmd_short (h : Frame mem cmdbuf raw line) (hlead : leading line < 4) (last : Addr) :
    Dispatched line cmdbuf (parseCmd mem last cmdbuf raw) := by
  have hshort := h.short
  have hfits := h.fits
  have hlen := (cleaned_sublist line).length_le
  have hhead := head_cleaned line
  have hnul : 0#8 ∉ cleaned line := by
    intro h0
    exact h.string.nonzero ((cleaned_sublist line).subset h0)
  obtain ⟨mem', hclean, hpadded⟩ := cleanCmdbuf_spec h
  rw [if_pos hlead] at hclean
  replace hpadded := hpadded hlead
  have hstring := hpadded.isString (by omega) hnul
  have hfirst : mem' cmdbuf = (cleaned line).getD 0 0#8 := by
    have hcell := hpadded 0 (by decide)
    rwa [show cmdbuf + BitVec.ofNat 32 0 = cmdbuf from BitVec.add_zero cmdbuf] at hcell
  unfold parseCmd
  dsimp only
  rw [← cleared, hclean, Option.bind_eq_bind, Option.bind_some]
  dsimp only
  rw [internalCommand_spec hpadded (by omega) hnul hhead]
  have hgo : (cleaned line).length ≠ 0 ∧ mem' cmdbuf ≠ 0x23#8 ↔
      ¬(cleaned line = [] ∨ (cleaned line).head? = some 0x23#8) := by
    rw [hfirst]
    cases cleaned line with
    | nil => simp
    | cons x xs => simp
  unfold Dispatched
  dsimp only
  by_cases hempty : cleaned line = [] ∨ (cleaned line).head? = some 0x23#8
  · rw [if_pos hempty]
    exact if_neg (mt hgo.mp (not_not.mpr hempty))
  rw [if_neg hempty, if_pos (hgo.mpr hempty)]
  cases commands.find? fun entry =>
      decide ((tokens isBlank (cleaned line)).head? = some entry.cmd) with
  | none => exact ⟨mem', rfl, hstring⟩
  | some entry =>
    obtain ⟨t, argv, t', hcall, hloop, hargs⟩ :=
      Elf.argv_spec hstring h.nonnull (by omega) last maxArgs
    dsimp only
    unfold runInternalCommand
    rw [hcall, Option.bind_eq_bind, Option.bind_some, hloop, Option.bind_eq_bind, Option.bind_some]
    refine ⟨argv, t'.mem, rfl, ?_, hargs⟩
    rw [hargs.length_eq, List.length_take, Nat.min_comm]

/-- Nothing is done after four spaces. -/
theorem parseCmd_long (h : Frame mem cmdbuf raw line) (hlead : ¬leading line < 4) (last : Addr) :
    parseCmd mem last cmdbuf raw = some .nothing := by
  obtain ⟨mem', hclean, -⟩ := cleanCmdbuf_spec h
  rw [if_neg hlead] at hclean
  unfold parseCmd
  dsimp only
  rw [← cleared, hclean]
  rfl

theorem dispatched_nothing (line : List (BitVec 8)) (cmdbuf : Addr) :
    Dispatched line cmdbuf (some .nothing) ↔
      cleaned line = [] ∨ (cleaned line).head? = some 0x23#8 := by
  unfold Dispatched
  dsimp only
  constructor
  · intro hdone
    by_contra hgo
    rw [if_neg hgo] at hdone
    revert hdone
    split
    · rintro ⟨argv, mem, haction, -⟩
      exact nomatch haction
    · rintro ⟨mem, haction, -⟩
      exact nomatch haction
  · intro hempty
    rw [if_pos hempty]

/-- **The command line does what it should** unless there are four spaces before a line that is
neither empty nor a comment. -/
theorem parse_cmd_iff (h : Frame mem cmdbuf raw line) (last : Addr) :
    Dispatched line cmdbuf (parseCmd mem last cmdbuf raw) ↔
      leading line < 4 ∨ cleaned line = [] ∨ (cleaned line).head? = some 0x23#8 := by
  by_cases hlead : leading line < 4
  · exact ⟨fun _ => Or.inl hlead, fun _ => parseCmd_short h hlead last⟩
  · rw [parseCmd_long h hlead last, dispatched_nothing]
    exact ⟨Or.inr, fun hgo => hgo.resolve_left hlead⟩

end Dispatch

/-- A memory with a line in it. -/
def lineMem (line : List (BitVec 8)) : Mem := writeAll (fun _ => 0#8) 0x1000#32 line

theorem frame_lineMem {line : List (BitVec 8)} (hshort : line.length < 256) (hnul : 0#8 ∉ line) :
    Frame (lineMem line) 0x2000#32 0x1000#32 line where
  string := by
    refine ⟨?_, hnul⟩
    rw [holds_append, holds_cons]
    refine ⟨holds_writeAll _ _ (by omega), ?_, holds_nil _ _⟩
    apply writeAll_outside _ (by omega)
    bv_omega
  short := hshort
  fits := by decide
  nonnull := by decide
  apart := by
    intro i j hi hj
    bv_omega

theorem ls_dispatched : Dispatched (ascii "ls a") 0x2000#32
    (parseCmd (lineMem (ascii "ls a")) 0#32 0x2000#32 0x1000#32) :=
  (parse_cmd_iff (frame_lineMem (by decide) (by decide)) 0#32).mpr (Or.inl (by decide))

/-- A command behind four spaces. -/
theorem spaces_ls_ignored : ¬Dispatched (ascii "    ls") 0x2000#32
    (parseCmd (lineMem (ascii "    ls")) 0#32 0x2000#32 0x1000#32) := by
  rw [parseCmd_long (frame_lineMem (by decide) (by decide)) (by decide), dispatched_nothing]
  decide

end Filestick.Cli
