import Filestick.System.Console

/-!
# Lines read from the console

* `press`, `text`: what the keys of a line leave of it.
* `Line`: the keys of the first line in what comes in, for a limit on its text.
* `readLine`: the editor without its buffer; `readLine_of_line` and `exists_line` say when it comes
  to an end.
* `Editing`, `readLoop_spec`: the loop keeps the text in the buffer.
* `consoleReadInteractive_spec`: what a call returns, and where it writes.
-/

namespace Filestick.Console

open Elf (Addr Mem)
open Filestick.Ring

/-! ### Lines -/

/-- The text of a line after one more key. -/
def press (held : List (BitVec 8)) (key : BitVec 8) : List (BitVec 8) :=
  if key = 127#8 ∨ key = 8#8 then held.dropLast else held ++ [key]

/-- The text of a line. -/
def text (keys : List (BitVec 8)) : List (BitVec 8) := keys.foldl press []

/-- `rx` begins with a line: `keys` up to a carriage return, or up to the key that makes its text
`n` characters long. -/
structure Line (n : ℕ) (rx keys rest : List (BitVec 8)) : Prop where
  no_cr : 0x0D#8 ∉ keys
  lt : ∀ before, before <+: keys → before ≠ keys → (text before).length < n
  ended : (text keys).length < n ∧ rx = keys ++ 0x0D#8 :: rest ∨
    (text keys).length = n ∧ rx = keys ++ rest

/-- The line editor, with the text it holds. -/
def readLine (n : ℕ) (held : List (BitVec 8)) :
    List (BitVec 8) → List (BitVec 8) × Option (List (BitVec 8))
  | [] => (held, if held.length = n then some [] else none)
  | key :: rx =>
    if held.length = n then (held, some (key :: rx))
    else if key = 0x0D#8 then (held, some rx)
    else readLine n (press held key) rx

theorem length_press_le (held : List (BitVec 8)) (key : BitVec 8) :
    (press held key).length ≤ held.length + 1 := by
  unfold press
  split_ifs
  · rw [List.length_dropLast]
    omega
  · exact List.length_append.le

/-- Keys that neither end the line nor fill it are used up. -/
theorem readLine_append {n : ℕ} {keys : List (BitVec 8)} (hcr : 0x0D#8 ∉ keys)
    (held rx : List (BitVec 8))
    (hlt : ∀ before, before <+: keys → before ≠ keys → (before.foldl press held).length < n) :
    readLine n held (keys ++ rx) = readLine n (keys.foldl press held) rx := by
  induction keys generalizing held with
  | nil => rfl
  | cons key keys ih =>
    rw [List.mem_cons, not_or] at hcr
    have hheld : held.length < n := hlt [] List.nil_prefix (List.cons_ne_nil _ _).symm
    rw [List.cons_append, readLine, if_neg hheld.ne, if_neg (Ne.symm hcr.1), List.foldl_cons]
    apply ih hcr.2
    intro before hbefore hne
    apply hlt (key :: before) (List.cons_prefix_cons.mpr ⟨rfl, hbefore⟩)
    intro heq
    exact hne (List.cons.inj heq).2

/-- **The editor reads the line.** -/
theorem readLine_of_line {n : ℕ} {rx keys rest : List (BitVec 8)} (h : Line n rx keys rest) :
    readLine n [] rx = (text keys, some rest) := by
  rcases h.ended with ⟨hlt, rfl⟩ | ⟨heq, rfl⟩
  · rw [readLine_append h.no_cr [] _ h.lt, ← text, readLine, if_neg hlt.ne, if_pos rfl]
  · rw [readLine_append h.no_cr [] _ h.lt, ← text]
    cases rest with
    | nil => rw [readLine, if_pos heq]
    | cons key rest => rw [readLine, if_pos heq]

/-- Where the editor ends, there is a line. -/
theorem exists_line_from {n : ℕ} (rx : List (BitVec 8)) :
    ∀ (keys : List (BitVec 8)), 0x0D#8 ∉ keys → (text keys).length ≤ n →
      (∀ before, before <+: keys → before ≠ keys → (text before).length < n) →
      ∀ {rest}, (readLine n (text keys) rx).2 = some rest →
        ∃ keys', Line n (keys ++ rx) keys' rest := by
  induction rx with
  | nil =>
    intro keys hcr hle hlt rest hrest
    rw [readLine] at hrest
    split_ifs at hrest with heq
    obtain rfl := Option.some.inj hrest
    exact ⟨keys, hcr, hlt, Or.inr ⟨heq, rfl⟩⟩
  | cons key rx ih =>
    intro keys hcr hle hlt rest hrest
    rw [readLine] at hrest
    split_ifs at hrest with heq hkey
    · obtain rfl := Option.some.inj hrest
      exact ⟨keys, hcr, hlt, Or.inr ⟨heq, rfl⟩⟩
    · obtain rfl := Option.some.inj hrest
      rw [hkey]
      exact ⟨keys, hcr, hlt, Or.inl ⟨lt_of_le_of_ne hle heq, rfl⟩⟩
    · have htext : text (keys ++ [key]) = press (text keys) key := by
        unfold text
        rw [List.foldl_append, List.foldl_cons, List.foldl_nil]
      have hnext := ih (keys ++ [key])
      rw [List.append_assoc, List.singleton_append, htext] at hnext
      refine hnext ?_ ?_ ?_ hrest
      · rw [List.mem_append, List.mem_singleton, not_or]
        exact ⟨hcr, Ne.symm hkey⟩
      · have := length_press_le (text keys) key
        omega
      · intro before hbefore hne
        rcases List.prefix_concat_iff.mp hbefore with hall | hbefore
        · exact absurd hall hne
        · by_cases hkeys : before = keys
          · rw [hkeys]
            exact lt_of_le_of_ne hle heq
          · exact hlt before hbefore hkeys

theorem exists_line {n : ℕ} {rx rest : List (BitVec 8)} (h : (readLine n [] rx).2 = some rest) :
    ∃ keys, Line n rx keys rest := by
  apply exists_line_from rx [] List.not_mem_nil (Nat.zero_le n) _ h
  intro before hbefore hne
  exact absurd (List.prefix_nil.mp hbefore) hne

/-! ### The buffer -/

/-- The loop is at work: the text is in the buffer, and the rest of the memory is as it was. -/
structure Editing (mem : Mem) (buf : Addr) (count : BitVec 32) (held : List (BitVec 8)) (r : Read) :
    Prop where
  le : held.length ≤ count.toNat
  bufptr_eq : r.bufptr = buf + BitVec.ofNat 32 held.length
  count_eq : r.count = count - BitVec.ofNat 32 held.length
  bytesRead_eq : r.bytesRead = BitVec.ofNat 32 held.length
  holds : Holds r.mem buf held
  outside : ∀ a, count.toNat ≤ (a - buf).toNat → r.mem a = mem a

variable {mem : Mem} {buf : Addr} {count : BitVec 32} {held : List (BitVec 8)} {r : Read}

theorem Editing.count_eq_zero_iff (h : Editing mem buf count held r) :
    r.count = 0#32 ↔ held.length = count.toNat := by
  have hle := h.le
  have hlt := count.isLt
  rw [h.count_eq]
  constructor
  · intro hzero
    bv_omega
  · intro heq
    rw [heq, BitVec.ofNat_toNat, BitVec.setWidth_eq, BitVec.sub_self]

/-- The pointer is behind the start of the buffer if there is a character to delete. -/
theorem Editing.lt_bufptr_iff (h : Editing mem buf count held r)
    (hbuf : buf.toNat + count.toNat ≤ 2 ^ 32) (hne : held.length ≠ count.toNat) :
    buf < r.bufptr ↔ held ≠ [] := by
  have hle := h.le
  rw [h.bufptr_eq, BitVec.lt_def, toNat_add_ofNat (by omega), ← List.length_pos_iff]
  omega

/-- A byte stored at a place of the buffer leaves the memory around it as it is. -/
theorem outside_update {mem mem' : Mem} {k : ℕ} (hk : k < count.toNat)
    (h : ∀ a, count.toNat ≤ (a - buf).toNat → mem' a = mem a) (x : BitVec 8) :
    ∀ a, count.toNat ≤ (a - buf).toNat →
      Function.update mem' (buf + BitVec.ofNat 32 k) x a = mem a := by
  intro a ha
  have hlt := count.isLt
  rw [Function.update_of_ne, h a ha]
  rintro rfl
  rw [toNat_add_ofNat_sub buf (by omega)] at ha
  omega

theorem Editing.put (h : Editing mem buf count held r) (hne : held.length ≠ count.toNat)
    (key : BitVec 8) : Editing mem buf count (held ++ [key]) (r.put key) := by
  have hlt : held.length < count.toNat := lt_of_le_of_ne h.le hne
  have hcount := count.isLt
  have hlen : (held ++ [key]).length = held.length + 1 := List.length_append
  constructor
  · rw [hlen]
    exact hlt
  · rw [hlen, BitVec.ofNat_add, ← BitVec.add_assoc, ← h.bufptr_eq]
    rfl
  · rw [hlen, BitVec.ofNat_add]
    have hcount_eq := h.count_eq
    unfold Read.put
    bv_omega
  · rw [hlen, BitVec.ofNat_add, ← h.bytesRead_eq]
    rfl
  · unfold Read.put
    rw [holds_append, h.bufptr_eq]
    constructor
    · exact h.holds.of_write_outside (by omega) le_rfl key
    · intro k hk
      obtain rfl : k = 0 := by simpa using hk
      rw [BitVec.add_zero]
      exact Function.update_self _ _ _
  · unfold Read.put
    rw [h.bufptr_eq]
    exact outside_update hlt h.outside key

theorem Editing.rubOut (h : Editing mem buf count held r) (hheld : held ≠ []) :
    Editing mem buf count held.dropLast r.rubOut := by
  have hle := h.le
  have hcount := count.isLt
  have hpos := List.length_pos_of_ne_nil hheld
  have hlen : held.dropLast.length = held.length - 1 := List.length_dropLast
  have hbufptr : r.bufptr - 1#32 = buf + BitVec.ofNat 32 (held.length - 1) := by
    rw [h.bufptr_eq]
    bv_omega
  constructor
  · omega
  · rw [hlen]
    exact hbufptr
  · rw [hlen]
    have hcount_eq := h.count_eq
    unfold Read.rubOut
    bv_omega
  · rw [hlen]
    have hread := h.bytesRead_eq
    unfold Read.rubOut
    bv_omega
  · unfold Read.rubOut
    rw [hbufptr]
    apply Holds.of_write_outside _ (by omega) hlen.le
    have hall := h.holds
    rw [← List.dropLast_append_getLast hheld, holds_append] at hall
    exact hall.1
  · unfold Read.rubOut
    rw [hbufptr]
    exact outside_update (by omega) h.outside 0#8

/-- **The loop edits the line in the buffer.** -/
theorem readLoop_spec (hbuf : buf.toNat + count.toNat ≤ 2 ^ 32) (rx : List (BitVec 8))
    (h : Editing mem buf count held r) :
    (readLoop buf rx r).2 = (readLine count.toNat held rx).2 ∧
      Editing mem buf count (readLine count.toNat held rx).1 (readLoop buf rx r).1 := by
  induction rx generalizing held r with
  | nil =>
    rw [readLoop, readLine]
    simp only [h.count_eq_zero_iff]
    exact ⟨trivial, h⟩
  | cons key rx ih =>
    rw [readLoop, readLine]
    simp only [h.count_eq_zero_iff]
    by_cases hfull : held.length = count.toNat
    · rw [if_pos hfull, if_pos hfull]
      exact ⟨rfl, h⟩
    rw [if_neg hfull, if_neg hfull]
    by_cases hcr : key = 0x0D#8
    · rw [if_pos hcr, if_pos hcr]
      exact ⟨rfl, h.le, h.bufptr_eq, h.count_eq, h.bytesRead_eq, h.holds, h.outside⟩
    rw [if_neg hcr, if_neg hcr]
    by_cases hback : key = 127#8 ∨ key = 8#8
    · have hpress : press held key = held.dropLast := if_pos hback
      rw [if_pos hback, hpress]
      simp only [h.lt_bufptr_iff hbuf hfull]
      by_cases hheld : held = []
      · -- the bell
        rw [if_neg (not_not_intro hheld), hheld, List.dropLast_nil]
        subst hheld
        exact ih ⟨h.le, h.bufptr_eq, h.count_eq, h.bytesRead_eq, h.holds, h.outside⟩
      · rw [if_pos hheld]
        exact ih (h.rubOut hheld)
    · have hpress : press held key = held ++ [key] := if_neg hback
      rw [if_neg hback, hpress]
      exact ih (h.put hfull key)

/-! ### A call -/

/-- **Interactive reads**: whatever has come in, nothing has been written outside of the buffer. A
call comes back when there is a line, with its text in the buffer and all that is behind it still
to be read. -/
theorem consoleReadInteractive_spec (mem : Mem) (tx : List (BitVec 8)) (buf : Addr)
    (count : BitVec 32) (rx : List (BitVec 8)) (hbuf : buf.toNat + count.toNat ≤ 2 ^ 32) :
    let r := consoleReadInteractive mem tx buf count rx
    (∀ a, count.toNat ≤ (a - buf).toNat → r.1.mem a = mem a) ∧
      (∀ keys rest, Line count.toNat rx keys rest →
        r.2 = some rest ∧ r.1.bytesRead.toNat = (text keys).length ∧ r.1.bytesRead ≤ count ∧
          Holds r.1.mem buf (text keys)) ∧
      (r.2 = none ↔ ∀ keys rest, ¬Line count.toNat rx keys rest) := by
  have hstart : Editing mem buf count [] ⟨buf, count, 0#32, mem, tx⟩ :=
    ⟨Nat.zero_le _, (BitVec.add_zero buf).symm, (BitVec.sub_zero count).symm, rfl,
      holds_nil mem buf, fun _ _ => rfl⟩
  have hcall : consoleReadInteractive mem tx buf count rx =
      readLoop buf rx ⟨buf, count, 0#32, mem, tx⟩ := by
    unfold consoleReadInteractive
    dsimp only
    split_ifs with hzero
    · cases rx with
      | nil => rw [readLoop, if_pos hzero]
      | cons key rx => rw [readLoop, if_pos hzero]
    · rfl
  obtain ⟨hrest, hediting⟩ := readLoop_spec hbuf rx hstart
  rw [hcall]
  refine ⟨hediting.outside, ?_, ?_⟩
  · intro keys rest hline
    rw [readLine_of_line hline] at hrest hediting
    have hle := hediting.le
    have hlt := count.isLt
    have hn : (readLoop buf rx ⟨buf, count, 0#32, mem, tx⟩).1.bytesRead.toNat =
        (text keys).length := by
      rw [hediting.bytesRead_eq, BitVec.toNat_ofNat]
      exact Nat.mod_eq_of_lt (by omega)
    refine ⟨hrest, hn, ?_, hediting.holds⟩
    rw [BitVec.le_def, hn]
    exact hle
  · rw [hrest]
    constructor
    · intro hnone keys rest hline
      rw [readLine_of_line hline] at hnone
      cases hnone
    · intro hline
      rw [Option.eq_none_iff_forall_ne_some]
      intro rest hsome
      obtain ⟨keys, hkeys⟩ := exists_line hsome
      exact hline keys rest hkeys

/-- `ab`, a backspace, `c` and a carriage return: the text is `ac`, and `x` stays unread. -/
theorem corrected_line_read :
    let rx := [0x61#8, 0x62#8, 8#8, 0x63#8, 0x0D#8, 0x78#8]
    let r := consoleReadInteractive (fun _ => 0#8) [] 0x12000#32 10#32 rx
    r.2 = some [0x78#8] ∧ r.1.bytesRead.toNat = 2 ∧ Holds r.1.mem 0x12000#32 [0x61#8, 0x63#8] := by
  intro rx r
  have hline : Line (10#32).toNat rx [0x61#8, 0x62#8, 8#8, 0x63#8] [0x78#8] := by
    refine ⟨by decide, ?_, Or.inl ⟨by decide, rfl⟩⟩
    intro before hbefore
    have hall : ∀ b ∈ [0x61#8, 0x62#8, 8#8, 0x63#8].inits, (text b).length < (10#32).toNat := by
      decide
    exact fun _ => hall before ((List.mem_inits before _).mpr hbefore)
  have hspec := consoleReadInteractive_spec (fun _ => 0#8) [] 0x12000#32 10#32 rx (by decide)
  obtain ⟨hrest, hn, -, hholds⟩ := hspec.2.1 _ _ hline
  exact ⟨hrest, hn, hholds⟩

end Filestick.Console
