import Mathlib.Data.List.Basic

/-!
# The frame check sequence (`fcs.v`)

The module keeps a 16-bit register that is set to `FCSINIT` while its reset is high and otherwise
takes in one byte on each clock on which `enable` is high, by one look-up in the table of
`fcstab.hex`.
-/

namespace Filestick.Fcs

/-- `FCSINIT`: the value of the register at the start of a frame. -/
def fcsInit : BitVec 16 := 0xFFFF#16

/-- `FCSGOOD`: the value of the register after a frame with a right check sequence. -/
def fcsGood : BitVec 16 := 0xF0B8#16

/-- The table of `fcstab.hex`. -/
def fcstab : List (BitVec 16) := [
  0x0000#16, 0x1189#16, 0x2312#16, 0x329b#16, 0x4624#16, 0x57ad#16, 0x6536#16, 0x74bf#16,
  0x8c48#16, 0x9dc1#16, 0xaf5a#16, 0xbed3#16, 0xca6c#16, 0xdbe5#16, 0xe97e#16, 0xf8f7#16,
  0x1081#16, 0x0108#16, 0x3393#16, 0x221a#16, 0x56a5#16, 0x472c#16, 0x75b7#16, 0x643e#16,
  0x9cc9#16, 0x8d40#16, 0xbfdb#16, 0xae52#16, 0xdaed#16, 0xcb64#16, 0xf9ff#16, 0xe876#16,
  0x2102#16, 0x308b#16, 0x0210#16, 0x1399#16, 0x6726#16, 0x76af#16, 0x4434#16, 0x55bd#16,
  0xad4a#16, 0xbcc3#16, 0x8e58#16, 0x9fd1#16, 0xeb6e#16, 0xfae7#16, 0xc87c#16, 0xd9f5#16,
  0x3183#16, 0x200a#16, 0x1291#16, 0x0318#16, 0x77a7#16, 0x662e#16, 0x54b5#16, 0x453c#16,
  0xbdcb#16, 0xac42#16, 0x9ed9#16, 0x8f50#16, 0xfbef#16, 0xea66#16, 0xd8fd#16, 0xc974#16,
  0x4204#16, 0x538d#16, 0x6116#16, 0x709f#16, 0x0420#16, 0x15a9#16, 0x2732#16, 0x36bb#16,
  0xce4c#16, 0xdfc5#16, 0xed5e#16, 0xfcd7#16, 0x8868#16, 0x99e1#16, 0xab7a#16, 0xbaf3#16,
  0x5285#16, 0x430c#16, 0x7197#16, 0x601e#16, 0x14a1#16, 0x0528#16, 0x37b3#16, 0x263a#16,
  0xdecd#16, 0xcf44#16, 0xfddf#16, 0xec56#16, 0x98e9#16, 0x8960#16, 0xbbfb#16, 0xaa72#16,
  0x6306#16, 0x728f#16, 0x4014#16, 0x519d#16, 0x2522#16, 0x34ab#16, 0x0630#16, 0x17b9#16,
  0xef4e#16, 0xfec7#16, 0xcc5c#16, 0xddd5#16, 0xa96a#16, 0xb8e3#16, 0x8a78#16, 0x9bf1#16,
  0x7387#16, 0x620e#16, 0x5095#16, 0x411c#16, 0x35a3#16, 0x242a#16, 0x16b1#16, 0x0738#16,
  0xffcf#16, 0xee46#16, 0xdcdd#16, 0xcd54#16, 0xb9eb#16, 0xa862#16, 0x9af9#16, 0x8b70#16,
  0x8408#16, 0x9581#16, 0xa71a#16, 0xb693#16, 0xc22c#16, 0xd3a5#16, 0xe13e#16, 0xf0b7#16,
  0x0840#16, 0x19c9#16, 0x2b52#16, 0x3adb#16, 0x4e64#16, 0x5fed#16, 0x6d76#16, 0x7cff#16,
  0x9489#16, 0x8500#16, 0xb79b#16, 0xa612#16, 0xd2ad#16, 0xc324#16, 0xf1bf#16, 0xe036#16,
  0x18c1#16, 0x0948#16, 0x3bd3#16, 0x2a5a#16, 0x5ee5#16, 0x4f6c#16, 0x7df7#16, 0x6c7e#16,
  0xa50a#16, 0xb483#16, 0x8618#16, 0x9791#16, 0xe32e#16, 0xf2a7#16, 0xc03c#16, 0xd1b5#16,
  0x2942#16, 0x38cb#16, 0x0a50#16, 0x1bd9#16, 0x6f66#16, 0x7eef#16, 0x4c74#16, 0x5dfd#16,
  0xb58b#16, 0xa402#16, 0x9699#16, 0x8710#16, 0xf3af#16, 0xe226#16, 0xd0bd#16, 0xc134#16,
  0x39c3#16, 0x284a#16, 0x1ad1#16, 0x0b58#16, 0x7fe7#16, 0x6e6e#16, 0x5cf5#16, 0x4d7c#16,
  0xc60c#16, 0xd785#16, 0xe51e#16, 0xf497#16, 0x8028#16, 0x91a1#16, 0xa33a#16, 0xb2b3#16,
  0x4a44#16, 0x5bcd#16, 0x6956#16, 0x78df#16, 0x0c60#16, 0x1de9#16, 0x2f72#16, 0x3efb#16,
  0xd68d#16, 0xc704#16, 0xf59f#16, 0xe416#16, 0x90a9#16, 0x8120#16, 0xb3bb#16, 0xa232#16,
  0x5ac5#16, 0x4b4c#16, 0x79d7#16, 0x685e#16, 0x1ce1#16, 0x0d68#16, 0x3ff3#16, 0x2e7a#16,
  0xe70e#16, 0xf687#16, 0xc41c#16, 0xd595#16, 0xa12a#16, 0xb0a3#16, 0x8238#16, 0x93b1#16,
  0x6b46#16, 0x7acf#16, 0x4854#16, 0x59dd#16, 0x2d62#16, 0x3ceb#16, 0x0e70#16, 0x1ff9#16,
  0xf78f#16, 0xe606#16, 0xd49d#16, 0xc514#16, 0xb1ab#16, 0xa022#16, 0x92b9#16, 0x8330#16,
  0x7bc7#16, 0x6a4e#16, 0x58d5#16, 0x495c#16, 0x3de3#16, 0x2c6a#16, 0x1ef1#16, 0x0f78#16]

/-- One look-up of the module: `(fcsval >> 8) ^ fcstab[fcsval[7:0] ^ data]`. -/
def update (fcsval : BitVec 16) (data : BitVec 8) : BitVec 16 :=
  (fcsval >>> 8) ^^^ fcstab.getD (fcsval.setWidth 8 ^^^ data).toNat 0

/-- The register after a clock edge: the (asynchronous) reset wins over `enable`. -/
def step (fcsval : BitVec 16) (reset enable : Bool) (data : BitVec 8) : BitVec 16 :=
  if reset then fcsInit else if enable then update fcsval data else fcsval

/-- The register after the bytes `bs` of a frame. -/
def ofBytes (bs : List (BitVec 8)) : BitVec 16 := bs.foldl update fcsInit

@[simp] theorem ofBytes_nil : ofBytes [] = fcsInit := rfl

theorem ofBytes_concat (bs : List (BitVec 8)) (b : BitVec 8) :
    ofBytes (bs ++ [b]) = update (ofBytes bs) b := by
  rw [ofBytes, List.foldl_append]; rfl

end Filestick.Fcs
