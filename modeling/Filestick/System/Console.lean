import Filestick.System.Strings

/-!
# The console with the FIFO of the UART (`console.c`, `serial_putc.S`)

`rx` are the bytes that come in, in their order; `tx` is what has been sent.  A call that has used
up `rx` still waits for the next byte.
-/

namespace Filestick.Console

open Elf (Addr Mem)

/-- `serial_putc`. -/
def serialPutc (tx : List (BitVec 8)) (c : BitVec 8) : List (BitVec 8) :=
  if c = 0x0A#8 then tx ++ [0x0D#8, 0x0A#8] else tx ++ [c]

/-- The variables of `console_read_interactive`, the memory and the line to the terminal. -/
structure Read where
  bufptr : Addr
  count : BitVec 32
  bytesRead : BitVec 32
  mem : Mem
  tx : List (BitVec 8)

/-- A backspace with a character before it. -/
def Read.rubOut (r : Read) : Read where
  bufptr := r.bufptr - 1#32
  count := r.count + 1#32
  bytesRead := r.bytesRead - 1#32
  mem := Function.update r.mem (r.bufptr - 1#32) 0#8
  tx := serialPutc (serialPutc (serialPutc r.tx 8#8) 0x20#8) 8#8

/-- A character. -/
def Read.put (r : Read) (byte : BitVec 8) : Read where
  bufptr := r.bufptr + 1#32
  count := r.count - 1#32
  bytesRead := r.bytesRead + 1#32
  mem := Function.update r.mem r.bufptr byte
  tx := serialPutc r.tx byte

/-- The loop of `console_read_interactive`: the bytes that it leaves, or `none` while it waits. -/
def readLoop (buf : Addr) : List (BitVec 8) → Read → Read × Option (List (BitVec 8))
  | [], r => (r, if r.count = 0#32 then some [] else none)
  | byte :: rx, r =>
    if r.count = 0#32 then (r, some (byte :: rx))
    else if byte = 0x0D#8 then
      ({ r with tx := serialPutc (serialPutc r.tx 0x0A#8) 0x0D#8 }, some rx)
    else if byte = 127#8 ∨ byte = 8#8 then
      if buf < r.bufptr then readLoop buf rx r.rubOut
      else readLoop buf rx { r with tx := serialPutc r.tx 7#8 }
    else readLoop buf rx (r.put byte)

/-- `console_read_interactive`. -/
def consoleReadInteractive (mem : Mem) (tx : List (BitVec 8)) (buf : Addr) (count : BitVec 32)
    (rx : List (BitVec 8)) : Read × Option (List (BitVec 8)) :=
  let r : Read := ⟨buf, count, 0#32, mem, tx⟩
  if count = 0#32 then (r, some rx) else readLoop buf rx r

end Filestick.Console
