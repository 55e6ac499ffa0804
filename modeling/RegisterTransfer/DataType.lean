namespace RegisterTransfer

inductive DataType
  | bool | byte | word16 | word32 | word64 | int32 | ptr16 | ptr32
deriving DecidableEq, Repr

namespace DataType

@[reducible] def bits : DataType → Nat
  | .bool => 1
  | .byte => 8
  | .word16 | .ptr16 => 16
  | .word32 | .int32 | .ptr32 => 32
  | .word64 => 64

def ofWidth : Nat → DataType
  | 1 => .bool
  | 8 => .byte
  | 16 => .word16
  | 32 => .word32
  | _ => .word64

def mask (t : DataType) : Nat := (BitVec.allOnes t.bits).toNat

def text : DataType → String
  | .bool => "bool"
  | .byte => "byte"
  | .word16 => "word16"
  | .word32 => "word32"
  | .word64 => "word64"
  | .int32 => "int32"
  | .ptr16 => "ptr16"
  | .ptr32 => "ptr32"

theorem bits_pos (t : DataType) : 0 < t.bits := by cases t <;> decide

theorem bits_le (t : DataType) : t.bits ≤ 64 := by cases t <;> decide

end DataType

end RegisterTransfer
