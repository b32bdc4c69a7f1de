import Filestick.System.Hexdump

/-!
# The numbers of `init` (`peekpoke.c`)

The commands `peek` and `poke` of `init` have a copy of `hextoint`, with the text of the one of the
supervisor.
-/

namespace Filestick.Peekpoke

open Elf (Addr Mem)
open Hexdump (Parsed)

/-- `hextoint`. -/
def hextoint (mem : Mem) (hexstr : Addr) : Option Parsed := Hexdump.hextoint mem hexstr

end Filestick.Peekpoke
