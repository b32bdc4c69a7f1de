import Filestick.Lib.Loop
import Filestick.System.Strings

/-!
# Dumps and hexadecimal numbers (`hexdump.c`)

`hextoint` shifts by more than the width of a word when a number has more than eight digits; the
processor takes the low five bits of such a shift.  `Parsed.wide` keeps that there has been one,
which C does not define.

What `hexdump` reads and prints is a list of `Event`s.  Its loops get a number of turns, since not
all of them end.
-/

namespace Filestick.Hexdump

open Elf (Addr Mem strlen)
open Loop

/-! ### Numbers -/

/-- What `hextoint` returns, what it leaves in `*val`, and whether a shift was too wide. -/
structure Parsed where
  ok : Bool
  val : BitVec 32
  wide : Bool
deriving DecidableEq, Repr

/-- `tmpval` for a character, which is a digit or ends the loop. -/
def hexDigit (c : BitVec 8) : Option (BitVec 32) :=
  if 0x30#8 ≤ c ∧ c ≤ 0x39#8 then some (c.setWidth 32 - 0x30#32)
  else if 0x61#8 ≤ c ∧ c ≤ 0x66#8 then some (c.setWidth 32 - 0x61#32 + 10#32)
  else none

/-- The loop of `hextoint` over the characters before the place `i`, from the last one. -/
def hextointFrom (mem : Mem) (hexstr : Addr) : ℕ → BitVec 32 → Parsed → Parsed
  | 0, _, p => { p with ok := true }
  | i + 1, shift, p =>
    match hexDigit (mem (hexstr + BitVec.ofNat 32 i)) with
    | none => { p with ok := false }
    | some tmpval =>
      hextointFrom mem hexstr i (shift + 4#32)
        { p with
          val := p.val ||| tmpval <<< (shift.toNat % 32)
          wide := p.wide || 32 ≤ shift.toNat }

/-- `hextoint`; its `i` is an `int`. -/
def hextoint (mem : Mem) (hexstr : Addr) : Option Parsed := do
  let i := BitVec.ofNat 32 (← strlen mem hexstr) - 1#32
  return hextointFrom mem hexstr (if i.slt 0#32 then 0 else i.toNat + 1) 0#32 ⟨false, 0#32, false⟩

/-! ### Dumps -/

/-- A byte is read, or something is printed. -/
inductive Event where
  | read (a : Addr)
  /-- `"%08x   "` -/
  | addr (x : BitVec 32)
  /-- `"%02x "` -/
  | byte (x : BitVec 8)
  /-- `"   "` -/
  | blank
  /-- `serial_putc` -/
  | putc (c : BitVec 8)
  /-- `"|\n"` -/
  | newline
deriving DecidableEq, Repr

/-- A gap in the middle of a line. -/
def gap (i : ℕ) : List Event := if i = 7 then [.putc 0x20#8] else []

/-- The first loop of `hexline`, with `left` bytes to go. -/
def hexBytes (mem : Mem) : ℕ → ℕ → Addr → List Event
  | 0, _, _ => []
  | left + 1, i, buf =>
    .read buf :: .byte (mem buf) :: gap i ++ hexBytes mem left (i + 1) (buf + 1#32)

/-- The second loop of `hexline`. -/
def hexBlanks : ℕ → ℕ → List Event
  | 0, _ => []
  | left + 1, i => .blank :: gap i ++ hexBlanks left (i + 1)

/-- `hexline`; its `size` has been a `uint16_t`. -/
def hexline (mem : Mem) (buf : Addr) (size : ℕ) : List Event :=
  hexBytes mem size 0 buf ++ if size < 16 then hexBlanks (16 - size) size else []

/-- The loop of `printchars`. -/
structure Chars where
  i : BitVec 8
  buf : Addr
  out : List Event

/-- The body of this loop. -/
def charBody (mem : Mem) (size : ℕ) (s : Chars) : Option (Chars ⊕ List Event) :=
  if s.i.toNat < size then
    let c := if 31#8 < mem s.buf ∧ mem s.buf < 127#8 then mem s.buf else 0x2E#8
    some (.inl ⟨s.i + 1#8, s.buf + 1#32, s.out ++ [.read s.buf, .putc c]⟩)
  else some (.inr s.out)

/-- `printchars`, with at most `turns` turns of the loop. -/
def printchars (mem : Mem) (turns : ℕ) (buf : Addr) (size : ℕ) : Option (List Event) :=
  (loop (charBody mem size) turns ⟨0#8, buf, [.putc 0x7C#8]⟩).map (· ++ [.newline])

/-- The loop of `hexdump`. -/
structure Dump where
  buf : Addr
  size : BitVec 32
  addr : BitVec 32
  out : List Event

/-- `linelen`, which is a `uint16_t`. -/
def linelen (size : BitVec 32) : BitVec 16 := if (16#32).sle size then 16#16 else size.setWidth 16

/-- The body of this loop. -/
def lineBody (mem : Mem) (turns : ℕ) (s : Dump) : Option (Dump ⊕ List Event) := do
  let len := (linelen s.size).toNat
  let chars ← printchars mem turns s.buf len
  let out := s.out ++ (.addr s.addr :: hexline mem s.buf len ++ chars)
  let size := s.size - 16#32
  return if (0#32).slt size then .inl ⟨s.buf + 16#32, size, s.addr + 16#32, out⟩ else .inr out

/-- `hexdump`, with at most `turns` turns of each loop. -/
def hexdump (mem : Mem) (turns : ℕ) (ptr : Addr) (size addr : BitVec 32) : Option (List Event) :=
  loop (lineBody mem turns) turns ⟨ptr, size, addr, []⟩

/-! ### The command of the supervisor -/

/-- `super_hexdump`, whose `argc` is the length of `argv`: a text, or a dump. -/
def superHexdump (mem : Mem) (turns : ℕ) (argv : List Addr) :
    Option (Except String (List Event)) := do
  let [_, address, length] := argv | return .error "usage: hexdump [hex address] [hex length]\n"
  let start ← hextoint mem address
  if !start.ok then return .error "invalid start address\n"
  let len ← hextoint mem length
  if !len.ok then return .error "invalid length\n"
  return .ok (← hexdump mem turns start.val len.val start.val)

end Filestick.Hexdump
