import Filestick.System.EconetIoctl

/-!
# The message loop of the file server (`fileserver/message.c`)

`econet_msgloop` reads a frame into `econet_buf`, takes the header of a message from its first seven
bytes, and puts a 0 behind it.  What it passes on to `econet_handle_message` is part of the result
of a turn; what the loop prints is not modelled.
-/

namespace Filestick.FileServer

open RawEconet

/-- `sizeof(econet_buf)`. -/
def bufSize : ℕ := 2048

/-- The header and the payload of a message; the pointer to the payload is an offset in
`econet_buf`. -/
structure NetFSMsg where
  replyNet : BitVec 8
  replyStation : BitVec 8
  replyPort : BitVec 8
  functionCode : BitVec 32
  urd : BitVec 8
  csd : BitVec 8
  lib : BitVec 8
  paysize : BitVec 16
  payload : ℕ
deriving DecidableEq, Repr

/-- What a turn of the loop leaves in the memory from `econet_buf` on, where in it the turn stores,
and the message that it passes on. -/
structure Turn where
  mem : ℕ → BitVec 8
  stores : List ℕ
  msg : Option NetFSMsg

/-- The bytes that `read` copies. -/
def copied : Reply → List (BitVec 8)
  | .data _ bytes | .monitored bytes => bytes
  | .count _ | .error _ => []

/-- What `read` returns: an error becomes -1. -/
def rxbytes : Reply → BitVec 32
  | .data _ bytes | .monitored bytes => BitVec.ofNat 32 bytes.length
  | .count n => n
  | .error _ => -1#32

/-- The memory after `read`. -/
def readInto (mem : ℕ → BitVec 8) (bytes : List (BitVec 8)) (i : ℕ) : BitVec 8 :=
  if i < bytes.length then bytes.getD i 0#8 else mem i

/-- A turn of `econet_msgloop`, by what `read` returns. -/
def econetMsgloop (mem : ℕ → BitVec 8) (reply : Reply) : Turn :=
  let buf := readInto mem (copied reply)
  let rxbytes := rxbytes reply
  if rxbytes.slt 7#32 then
    { mem := buf, stores := List.range (copied reply).length, msg := none }
  else
    { mem := Function.update buf rxbytes.toNat 0#8
      stores := List.range (copied reply).length ++ [rxbytes.toNat]
      msg := some
        { replyNet := buf 1
          replyStation := buf 0
          replyPort := buf 2
          functionCode := (buf 3).setWidth 32
          urd := buf 4
          csd := buf 5
          lib := buf 6
          paysize := (rxbytes - 7#32).setWidth 16
          payload := 7 } }

/-- The bytes that a message has as its payload. -/
def Turn.payload (t : Turn) (msg : NetFSMsg) : List (BitVec 8) :=
  (List.range msg.paysize.toNat).map fun i => t.mem (msg.payload + i)

end Filestick.FileServer
