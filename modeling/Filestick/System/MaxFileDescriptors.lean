import Mathlib.Algebra.GroupWithZero.Nat

/-!
# The number of file descriptors (`fd.h`)

`MAX_FILE_DESCRIPTORS` is 16, for the table of descriptors and for what the drivers keep for each of
them.
-/

namespace Filestick

/-- Every literal is a descriptor. -/
instance neZero_maxFileDescriptors : NeZero 16 := ⟨by decide⟩

end Filestick
