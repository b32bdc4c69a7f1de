import Mathlib.Data.Nat.Notation

/-!
# Results of the disc drivers (`diskio.h`)
-/

namespace Filestick

/-- `DRESULT`. -/
inductive DResult
  /-- `RES_OK`. -/
  | ok
  /-- `RES_ERROR`. -/
  | error
  /-- `RES_WRPRT`. -/
  | wrprt
  /-- `RES_NOTRDY`. -/
  | notrdy
  /-- `RES_PARERR`. -/
  | parerr
deriving DecidableEq, Repr

end Filestick
