import Filestick.Fileserver.Starcmd
import Filestick.System.Equiv.Message
import Filestick.System.Equiv.StackArgs
import Mathlib.Data.List.Find

/-!
# What `handle_starcmd` makes of a command line

* `strcasecmpEq_iff`: the comparison ignores case.
* `CommandLine`: a message with a command line in it has come to the message loop.
* `commandLine_isString`: the payload is a string, and the 0x0D is a part of it.
* `starcmd_dispatched_iff`: the right function is called with the words if there is none to be
  called, or if the 0x0D comes after the eight words that are taken.
-/

namespace Filestick.FileServer

open Cli (ascii)
open Elf (Addr Mem IsString isString_nil isString_cons isBlank)
open Filestick.Ring
open Tokens

/-! ### The table -/

theorem toLower_eq_zero {c : BitVec 8} (h : toLower c = 0#8) : c = 0#8 := by
  revert h
  unfold toLower
  split_ifs with hletter
  · intro h
    bv_omega
  · exact id

/-- The comparison ignores case. -/
theorem strcasecmpEq_iff {mem : Mem} {s : Addr} {xs cmd : List (BitVec 8)} (h : IsString mem s xs)
    (hcmd : 0#8 ∉ cmd) :
    strcasecmpEq mem cmd s = true ↔ xs.map toLower = cmd.map toLower := by
  induction cmd generalizing s xs with
  | nil =>
    rw [strcasecmpEq, decide_eq_true_eq, List.map_nil, List.map_eq_nil_iff]
    cases xs with
    | nil =>
      rw [isString_nil.mp h]
      exact ⟨fun _ => rfl, fun _ => rfl⟩
    | cons x xs =>
      obtain ⟨hcell, hne, -⟩ := isString_cons.mp h
      rw [hcell]
      constructor
      · intro hzero
        exact absurd (toLower_eq_zero hzero) hne
      · intro hnil
        exact nomatch hnil
  | cons c cmd ih =>
    have hc : c ≠ 0#8 := fun h0 => hcmd (h0 ▸ List.mem_cons_self)
    rw [strcasecmpEq, Bool.and_eq_true, decide_eq_true_eq]
    cases xs with
    | nil =>
      rw [isString_nil.mp h]
      constructor
      · rintro ⟨hzero, -⟩
        exact absurd (toLower_eq_zero hzero) hc
      · intro hnil
        exact nomatch hnil
    | cons x xs =>
      obtain ⟨hcell, -, hxs⟩ := isString_cons.mp h
      rw [hcell, ih hxs fun h0 => hcmd (List.mem_cons_of_mem c h0), List.map_cons, List.map_cons,
        List.cons.injEq, eq_comm]

/-- The entry of the table for a word, whatever its case. -/
def entryFor (word : Option (List (BitVec 8))) : Option CmdTable :=
  commands.find? fun entry => decide (word.map (List.map toLower) = some (entry.cmd.map toLower))

theorem find_strcasecmp {mem : Mem} {s : Addr} {xs : List (BitVec 8)} (h : IsString mem s xs) :
    (commands.find? fun entry => strcasecmpEq mem entry.cmd s) = entryFor (some xs) := by
  apply List.find?_congr
  intro entry hentry
  have hall : ∀ entry ∈ commands, 0#8 ∉ entry.cmd := by decide
  rw [Bool.eq_iff_iff, strcasecmpEq_iff h (hall entry hentry), decide_eq_true_eq, Option.map_some,
    Option.some.injEq]

/-- No command ends with 0x0D. -/
theorem entryFor_concat (w : List (BitVec 8)) : entryFor (some (w ++ [0x0D#8])) = none := by
  unfold entryFor
  rw [List.find?_eq_none]
  intro entry hentry
  have hall : ∀ entry ∈ commands, 0x0D#8 ∉ entry.cmd.map toLower := by decide
  rw [decide_eq_true_eq, Option.map_some, Option.some.injEq, List.map_append]
  intro heq
  apply hall entry hentry
  rw [← heq]
  exact List.mem_append_right _ List.mem_cons_self

/-- The entries have functions. -/
theorem entryFor_func {word : Option (List (BitVec 8))} {entry : CmdTable}
    (h : entryFor word = some entry) : ∃ cmdfunc, entry.cmdfunc = some cmdfunc := by
  have hall : ∀ entry ∈ commands, entry.cmdfunc.isSome = true := by decide
  exact Option.isSome_iff_exists.mp (hall entry (List.mem_of_find?_eq_some h))

/-! ### Messages -/

/-- The bytes of a message with a command line: a header, the words, 0x0D, and maybe a 0. -/
def wire (header body : List (BitVec 8)) (nul : Bool) : List (BitVec 8) :=
  header ++ (body ++ 0x0D#8 :: if nul then [0#8] else [])

/-- A message with a command line, as it is passed to `econet_handle_message` by a turn of the
loop; `mem` is the memory then, and `buf` the address of `econet_buf`. -/
structure CommandLine (mem : Mem) (buf : Addr) (msg : NetFSMsg) (body : List (BitVec 8)) :
    Prop where
  fits : buf.toNat + bufSize < 2 ^ 32
  text : 0#8 ∉ body ∧ 0x0D#8 ∉ body
  received : ∃ old port header nul, header.length = 7 ∧ header[3]? = some 0#8 ∧
    (wire header body nul).length ≤ bufSize ∧
    (econetMsgloop old (.data port (wire header body nul))).msg = some msg ∧
    ∀ i ≤ bufSize, mem (buf + BitVec.ofNat 32 i) =
      (econetMsgloop old (.data port (wire header body nul))).mem i

section Message

variable {mem : Mem} {buf : Addr} {msg : NetFSMsg} {body : List (BitVec 8)}

/-- The bytes with the 0 of the message loop behind them. -/
theorem stored_getElem? (old : ℕ → BitVec 8) (bytes : List (BitVec 8)) {i : ℕ}
    (hi : i ≤ bytes.length) :
    (bytes ++ [0#8])[i]? = some (Function.update (readInto old bytes) bytes.length 0#8 i) := by
  rcases Nat.lt_or_eq_of_le hi with hlt | rfl
  · rw [Function.update_of_ne hlt.ne, readInto_of_lt hlt, List.getElem?_append_left hlt,
      List.getElem?_eq_getElem hlt]
  · rw [Function.update_self, List.getElem?_concat_length]

/-- **The payload is a string**, and the 0x0D is a part of it. -/
theorem commandLine_isString (h : CommandLine mem buf msg body) :
    msg.functionCode = fcCommandline ∧ 0 < msg.paysize.toNat ∧ msg.payload = 7 ∧
      body.length + 8 ≤ bufSize ∧ IsString mem (buf + 7#32) (body ++ [0x0D#8]) := by
  obtain ⟨old, port, header, nul, hheader, hcode, hsize, hmsg, hmem⟩ := h.received
  have hlen : body.length + 8 ≤ (wire header body nul).length := by
    rw [wire, List.length_append, List.length_append, List.length_cons, hheader]
    omega
  obtain ⟨msg', hturn, hfunction, hpaysize, hpayload⟩ :=
    econetMsgloop_message old port (show 7 ≤ (wire header body nul).length by omega) hsize
  rw [hturn] at hmsg hmem
  obtain rfl := Option.some.inj hmsg
  have hcommand : (wire header body nul)[3] = 0#8 := by
    apply Option.some.inj
    rw [← List.getElem?_eq_getElem, wire, List.getElem?_append_left (by omega), hcode]
  -- behind the header, there is a string with maybe one more 0
  have hbytes : wire header body nul ++ [0#8] =
      header ++ ((body ++ [0x0D#8] ++ [0#8]) ++ if nul then [0#8] else []) := by
    cases nul <;> simp [wire]
  have hholds : Holds mem (buf + 7#32) (body ++ [0x0D#8] ++ [0#8]) := by
    intro k hk
    have hk' : k < body.length + 2 := by simpa using hk
    apply Option.some.inj
    rw [BitVec.add_assoc, ← BitVec.ofNat_add, hmem (7 + k) (by omega),
      ← stored_getElem? old _ (by omega), hbytes, List.getElem?_append_right (by omega), hheader,
      Nat.add_sub_cancel_left, List.getElem?_append_left hk, List.getElem?_eq_getElem hk]
  refine ⟨?_, by omega, hpayload, by omega, hholds, ?_⟩
  · rw [hfunction, hcommand]
    rfl
  · intro h0
    rcases List.mem_append.mp h0 with h0 | h0
    · exact h.text.1 h0
    · exact absurd h0 (by decide)

end Message

/-! ### Dispatch -/

/-- What is to be done with a command line: the entry for its first word is called with its words,
at most eight; if there is no such entry, nothing is called. -/
def Dispatched (body : List (BitVec 8)) (action : Option Action) : Prop :=
  let words := tokens isBlank body
  match entryFor words.head? with
  | some entry => ∃ cmdfunc argv mem, entry.cmdfunc = some cmdfunc ∧
      action = some (.call cmdfunc argv mem) ∧ argv.length = min words.length maxArgs ∧
      List.Forall₂ (IsString mem) argv (words.take maxArgs)
  | none => action = some .nothing ∨ action = some .notHandled

section Dispatch

variable {mem : Mem} {buf : Addr} {msg : NetFSMsg} {body : List (BitVec 8)}

/-- The entry for the first token of the payload is called with the tokens of the payload. -/
theorem econetHandleMessage_eq (h : CommandLine mem buf msg body) (last : Addr) :
    let toks := tokens isBlank (body ++ [0x0D#8])
    ∃ argv mem', List.Forall₂ (IsString mem') argv (toks.take maxArgs) ∧
      (entryFor toks.head? = none → econetHandleMessage mem last buf msg = some .notHandled) ∧
      ∀ cmd cmdfunc, entryFor toks.head? = some ⟨cmd, some cmdfunc⟩ →
        econetHandleMessage mem last buf msg = some (.call cmdfunc argv mem') := by
  obtain ⟨hcode, hpaysize, hpayload, hsize, hstring⟩ := commandLine_isString h
  have hfits := h.fits
  have hbuf : (buf + 7#32).toNat = buf.toNat + 7 := by
    unfold bufSize at hfits
    bv_omega
  obtain ⟨t, argv, t', hcall, hloop, hargs⟩ := Elf.argv_spec hstring (by bv_omega)
    (by rw [hbuf, List.length_append, List.length_singleton]; omega) last maxArgs
  have htaken : starcmdArgs mem last buf msg = some (argv, t'.mem) := by
    rw [starcmdArgs, if_pos hpaysize, hpayload, hcall, Option.bind_eq_bind, Option.bind_some, hloop]
    rfl
  refine ⟨argv, t'.mem, hargs, ?_⟩
  rw [econetHandleMessage, if_pos hcode, handleStarcmd, htaken, Option.bind_eq_bind,
    Option.bind_some]
  -- there is a first token
  obtain ⟨ws, htoks, -⟩ := tokens_concat (p := isBlank) (c := 0x0D#8) rfl body
  cases htok : tokens isBlank (body ++ [0x0D#8]) with
  | nil =>
    rw [htok] at htoks
    exact absurd htoks.symm (by simp)
  | cons tok toks =>
    rw [htok] at hargs
    obtain ⟨arg, args, harg, -, rfl⟩ := List.forall₂_cons_right_iff.mp hargs
    dsimp only
    rw [find_strcasecmp harg, List.head?_cons]
    constructor
    · intro hnone
      rw [hnone]
      rfl
    · intro cmd cmdfunc hentry
      rw [hentry]
      rfl

/-- There are eight words before the last piece of a line. -/
theorem eight_le_iff {ws : List (List (BitVec 8))}
    (hwords : lastPiece isBlank body = [] ∧ tokens isBlank body = ws ∨
      lastPiece isBlank body ≠ [] ∧ tokens isBlank body = ws ++ [lastPiece isBlank body]) :
    maxArgs ≤ ws.length ↔ maxArgs < (tokens isBlank body).length ∨
      (tokens isBlank body).length = maxArgs ∧ body.getLast? = some 0x20#8 := by
  rcases hwords with ⟨hnil, hws⟩ | ⟨hne, hws⟩
  · rw [hws, le_iff_lt_or_eq]
    apply or_congr_right
    constructor
    · intro hlen
      refine ⟨hlen.symm, ?_⟩
      cases hlast : body.getLast? with
      | none =>
        rw [List.getLast?_eq_none_iff] at hlast
        rw [← hws, hlast] at hlen
        exact nomatch hlen
      | some x =>
        have hx := lastPiece_eq_nil_iff.mp hnil x hlast
        rw [isBlank, beq_iff_eq] at hx
        rw [hx]
    · exact fun h => h.1.symm
  · rw [hws, List.length_append, List.length_singleton]
    constructor
    · intro hlen
      exact Or.inl (Nat.lt_succ_of_le hlen)
    · rintro (hlt | ⟨-, hlast⟩)
      · exact Nat.le_of_lt_succ hlt
      · exfalso
        apply hne
        rw [lastPiece_eq_nil_iff, hlast]
        rintro x ⟨⟩
        rfl

/-- The arguments are the words if the 0x0D comes after those that are taken.  Else it is a part of
the last argument, or an argument of its own. -/
theorem args_iff {mem : Mem} {argv : List Addr} {words ws : List (List (BitVec 8))}
    {piece : List (BitVec 8)}
    (hargs : List.Forall₂ (IsString mem) argv ((ws ++ [piece ++ [0x0D#8]]).take maxArgs))
    (hwords : piece = [] ∧ words = ws ∨ piece ≠ [] ∧ words = ws ++ [piece]) :
    argv.length = min words.length maxArgs ∧
        List.Forall₂ (IsString mem) argv (words.take maxArgs) ↔
      maxArgs ≤ ws.length := by
  constructor
  · rintro ⟨-, hargs'⟩
    by_contra hfew
    have hsame := List.right_unique_forall₂' (fun _ _ _ hx hy => hx.unique hy) hargs hargs'
    rw [List.take_of_length_le (by rw [List.length_append, List.length_singleton]; omega)] at hsame
    rcases hwords with ⟨-, rfl⟩ | ⟨-, rfl⟩
    · have hlen := congrArg List.length hsame
      rw [List.length_take, List.length_append, List.length_singleton] at hlen
      omega
    · rw [List.take_of_length_le (by rw [List.length_append, List.length_singleton]; omega),
        List.append_cancel_left_eq, List.cons.injEq] at hsame
      simpa using congrArg List.length hsame.1
  · intro hmany
    have htake : (ws ++ [piece ++ [0x0D#8]]).take maxArgs = words.take maxArgs := by
      rw [List.take_append_of_le_length hmany]
      rcases hwords with ⟨-, rfl⟩ | ⟨-, rfl⟩
      · rfl
      · rw [List.take_append_of_le_length hmany]
    rw [htake] at hargs
    refine ⟨?_, hargs⟩
    rw [hargs.length_eq, List.length_take, Nat.min_comm]

/-- **A command line is dispatched by its words** unless there is an entry for it, and the 0x0D
gets into the arguments: the eight that are taken must be followed by more bytes. -/
theorem starcmd_dispatched_iff (h : CommandLine mem buf msg body) (last : Addr) :
    Dispatched body (econetHandleMessage mem last buf msg) ↔
      entryFor (tokens isBlank body).head? = none ∨ maxArgs < (tokens isBlank body).length ∨
        (tokens isBlank body).length = maxArgs ∧ body.getLast? = some 0x20#8 := by
  obtain ⟨argv, mem', hargs, hunknown, hknown⟩ := econetHandleMessage_eq h last
  obtain ⟨ws, htoks, hwords⟩ := tokens_concat (p := isBlank) (c := 0x0D#8) rfl body
  rw [← eight_le_iff hwords]
  rw [htoks] at hargs hunknown hknown
  unfold Dispatched
  dsimp only
  cases hentry : entryFor (tokens isBlank body).head? with
  | none =>
    refine ⟨fun _ => Or.inl rfl, fun _ => Or.inr (hunknown ?_)⟩
    cases ws with
    | nil => exact entryFor_concat _
    | cons tok ws =>
      rcases hwords with ⟨-, hws⟩ | ⟨-, hws⟩
      all_goals
        rw [hws] at hentry
        exact hentry
  | some entry =>
    obtain ⟨cmdfunc, hfunc⟩ := entryFor_func hentry
    cases ws with
    | nil =>
      -- the 0x0D is a part of the first token
      rw [hunknown (entryFor_concat _)]
      constructor
      · rintro ⟨cmdfunc', argv', mem'', -, haction, -⟩
        exact nomatch haction
      · rintro (hnone | hlen)
        · exact nomatch hnone
        · exact absurd hlen (by decide)
    | cons tok ws =>
      have hhead : (tokens isBlank body).head? = some tok := by
        rcases hwords with ⟨-, hws⟩ | ⟨-, hws⟩
        all_goals rw [hws]; rfl
      rw [hhead] at hentry
      obtain ⟨cmd, func⟩ := entry
      obtain rfl : func = some cmdfunc := hfunc
      rw [hknown cmd cmdfunc hentry]
      constructor
      · rintro ⟨cmdfunc', argv', mem'', -, haction, hwords'⟩
        obtain ⟨-, rfl, rfl⟩ := Action.call.inj (Option.some.inj haction)
        exact Or.inr ((args_iff hargs hwords).mp hwords')
      · rintro (hnone | hmany)
        · exact nomatch hnone
        · exact ⟨cmdfunc, argv, mem', rfl, rfl, (args_iff hargs hwords).mpr hmany⟩

end Dispatch

/-- A turn in which a command line comes from station 25. -/
def textTurn (body : List (BitVec 8)) : Turn :=
  econetMsgloop (fun _ => 0#8) (.data 0x99#8
    (wire [0x19#8, 0x00#8, 0x90#8, 0x00#8, 0x00#8, 0x00#8, 0x00#8] body false))

/-- The message of this turn. -/
def textMsg (body : List (BitVec 8)) : NetFSMsg :=
  { replyNet := 0x00#8, replyStation := 0x19#8, replyPort := 0x90#8, functionCode := fcCommandline
    urd := 0x00#8, csd := 0x00#8, lib := 0x00#8
    paysize := BitVec.ofNat 16 (body.length + 1), payload := 7 }

/-- The memory after this turn. -/
def textMem (body : List (BitVec 8)) : Mem := fun a => (textTurn body).mem (a - 0x1000#32).toNat

theorem commandLine_text {body : List (BitVec 8)} (htext : 0#8 ∉ body ∧ 0x0D#8 ∉ body)
    (hlen : body.length + 8 ≤ bufSize) (hmsg : (textTurn body).msg = some (textMsg body)) :
    CommandLine (textMem body) 0x1000#32 (textMsg body) body where
  fits := by decide
  text := htext
  received := by
    refine ⟨_, _, _, false, rfl, rfl, ?_, hmsg, ?_⟩
    · rw [wire, List.length_append, List.length_append]
      show 7 + (body.length + 1) ≤ bufSize
      omega
    · intro i hi
      unfold bufSize at hi
      rw [textMem, toNat_add_ofNat_sub _ (by omega)]
      rfl

theorem long_command_dispatched : Dispatched (ascii "I 1 2 3 4 5 6 7 8")
    (econetHandleMessage (textMem (ascii "I 1 2 3 4 5 6 7 8")) 0#32 0x1000#32
      (textMsg (ascii "I 1 2 3 4 5 6 7 8"))) :=
  (starcmd_dispatched_iff (commandLine_text (by decide) (by decide) (by decide)) 0#32).mpr
    (Or.inr (Or.inl (by decide)))

/-- A command of one word is not found. -/
theorem echo_not_dispatched : ¬Dispatched (ascii "echo")
    (econetHandleMessage (textMem (ascii "echo")) 0#32 0x1000#32 (textMsg (ascii "echo"))) := by
  have hline : CommandLine (textMem (ascii "echo")) 0x1000#32 (textMsg (ascii "echo"))
      (ascii "echo") := commandLine_text (by decide) (by decide) (by decide)
  obtain ⟨argv, mem', -, hunknown, -⟩ := econetHandleMessage_eq hline 0#32
  rw [hunknown (by decide)]
  have hentry : entryFor (tokens isBlank (ascii "echo")).head? =
      some ⟨ascii "echo", some .cmdEcho⟩ := by decide
  unfold Dispatched
  dsimp only
  rw [hentry]
  rintro ⟨cmdfunc, argv', mem'', -, haction, -⟩
  exact nomatch haction

end Filestick.FileServer
