import Filestick.Init.Peekpoke
import Filestick.System.Equiv.Hextoint

/-!
# The two copies of `hextoint`

`hextoint_converts_iff` is about both of them.
-/

namespace Filestick.Peekpoke

open Elf (Addr Mem IsString isString_nil isString_cons)
open Hexdump (Convertible Converts converts_iff hextoint_short)

/-- **Exactly the convertible strings are converted**, by the supervisor and by `init`. -/
theorem hextoint_converts_iff {mem : Mem} {s : Addr} {xs : List (BitVec 8)}
    (h : IsString mem s xs) :
    (Converts xs (Hexdump.hextoint mem s) ↔ Convertible xs) ∧
      (Converts xs (hextoint mem s) ↔ Convertible xs) :=
  ⟨converts_iff h, converts_iff h⟩

/-- `"1f"`, in an empty memory. -/
def twoDigits : Mem := fun a =>
  if a = 0x1000#32 then 0x31#8 else if a = 0x1001#32 then 0x66#8 else 0#8

theorem two_digits_converted : IsString twoDigits 0x1000#32 [0x31#8, 0x66#8] ∧
    Converts [0x31#8, 0x66#8] (Hexdump.hextoint twoDigits 0x1000#32) ∧
      Converts [0x31#8, 0x66#8] (hextoint twoDigits 0x1000#32) := by
  have h : IsString twoDigits 0x1000#32 [0x31#8, 0x66#8] := ⟨by decide, by decide⟩
  have hconvertible : Convertible [0x31#8, 0x66#8] :=
    Or.inl ⟨by decide, fun _ => by decide⟩
  obtain ⟨hsuper, hinit⟩ := hextoint_converts_iff h
  exact ⟨h, hsuper.mpr hconvertible, hinit.mpr hconvertible⟩

/-- `"100000000"`, in an empty memory. -/
def nineDigits : Mem := fun a =>
  if a = 0x1000#32 then 0x31#8 else if 0x1000#32 < a ∧ a < 0x1009#32 then 0x30#8 else 0#8

/-- Nine digits are taken for the number 1. -/
theorem nine_digits_not_converted :
    IsString nineDigits 0x1000#32 (0x31#8 :: List.replicate 8 0x30#8) ∧
      Hexdump.hextoint nineDigits 0x1000#32 = some ⟨true, 1#32, true⟩ ∧
      hextoint nineDigits 0x1000#32 = some ⟨true, 1#32, true⟩ ∧
      ¬Converts (0x31#8 :: List.replicate 8 0x30#8) (hextoint nineDigits 0x1000#32) := by
  have h : IsString nineDigits 0x1000#32 (0x31#8 :: List.replicate 8 0x30#8) :=
    ⟨by decide, by decide⟩
  have hparsed : Hexdump.hextoint nineDigits 0x1000#32 = some ⟨true, 1#32, true⟩ := by
    rw [hextoint_short h (by decide)]
    decide
  refine ⟨h, hparsed, hparsed, ?_⟩
  rintro ⟨p, hp, hiff, -⟩
  obtain rfl := Option.some.inj (hparsed.symm.trans hp)
  exact absurd (hiff.mp rfl).2 (by decide)

end Filestick.Peekpoke
