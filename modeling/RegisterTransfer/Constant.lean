import RegisterTransfer.DataType
import RegisterTransfer.Text.Hex

namespace RegisterTransfer

structure Constant where
  dataType : DataType
  value : BitVec dataType.bits
deriving DecidableEq, Repr

namespace Constant

def ofNat (t : DataType) (n : Nat) : Constant := ⟨t, BitVec.ofNat _ n⟩

def byte (x : BitVec 8) : Constant := ⟨.byte, x⟩

def word16 (x : BitVec 16) : Constant := ⟨.word16, x⟩

def word32 (x : BitVec 32) : Constant := ⟨.word32, x⟩

def int32 (x : BitVec 32) : Constant := ⟨.int32, x⟩

def bool (b : Bool) : Constant := ⟨.bool, BitVec.ofBool b⟩

def toNat (c : Constant) : Nat := c.value.toNat

def toInt (c : Constant) : Int := c.value.toInt

def isZero (c : Constant) : Bool := c.toNat == 0

def resize (c : Constant) (width : Nat) : BitVec width := c.value.setWidth width

def text (c : Constant) : String := "0x" ++ Text.upperHex ((c.dataType.bits + 3) / 4) c.toNat

end Constant

end RegisterTransfer
