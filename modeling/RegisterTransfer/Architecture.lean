import RegisterTransfer.Lifting
import RegisterTransfer.Mips.Decode
import RegisterTransfer.Mips.Lift
import RegisterTransfer.Mos6502.Decode
import RegisterTransfer.Mos6502.Lift
import RegisterTransfer.RegisterSet

namespace RegisterTransfer

inductive ArchitectureKind
  | mips32 | mos6502
deriving DecidableEq, Repr

def ArchitectureKind.text : ArchitectureKind → String
  | .mips32 => "mips32"
  | .mos6502 => "m6502"

inductive Architecture
  | mips (order : ByteOrder)
  | mos6502
deriving DecidableEq, Repr

inductive Instruction
  | mips (i : Mips.Instruction)
  | mos6502 (i : Mos6502.Instruction)
deriving DecidableEq, Repr

structure DecodeError where
  address : Address
deriving DecidableEq, Repr

def DecodeError.message (e : DecodeError) : String :=
  "malformed instruction at " ++ e.address.text

namespace Instruction

def address : Instruction → Address
  | .mips i => i.address
  | .mos6502 i => i.address

def length : Instruction → Nat
  | .mips i => i.length
  | .mos6502 i => i.length

def mnemonic : Instruction → String
  | .mips i => i.operation.mnemonic
  | .mos6502 i => i.mnemonic.text

def text : Instruction → String
  | .mips i => i.text
  | .mos6502 i => i.text

def nextAddress (i : Instruction) : Address := i.address.addOffset i.length

def lift (host : Host) : Instruction → Lifting (List Transfer)
  | .mips i => Mips.lift host i
  | .mos6502 i => Mos6502.lift host i

theorem length_pos (i : Instruction) : 0 < i.length := by
  cases i with
  | mips i => exact Nat.zero_lt_succ 3
  | mos6502 i =>
    simp only [length, Mos6502.Instruction.length, Mos6502.Mode.length]
    split <;> decide

end Instruction

namespace Architecture

def ofKind (kind : ArchitectureKind) (order : ByteOrder) : Architecture :=
  match kind with
  | .mips32 => .mips order
  | .mos6502 => .mos6502

def ofName? (name : String) : Option Architecture :=
  if name = "mips-le-32" then some (.mips .little)
  else if name = "mips-be-32" then some (.mips .big)
  else if name = "m6502" then some .mos6502
  else none

def name : Architecture → String
  | .mips .little => "mips-le-32"
  | .mips .big => "mips-be-32"
  | .mos6502 => "m6502"

def kind : Architecture → ArchitectureKind
  | .mips _ => .mips32
  | .mos6502 => .mos6502

def wordBits : Architecture → Nat
  | .mips _ => 32
  | .mos6502 => 16

def byteOrder : Architecture → ByteOrder
  | .mips order => order
  | .mos6502 => .little

def registers : Architecture → List Register
  | .mips _ => Mips.registers
  | .mos6502 => Mos6502.registers

def stackRegister : Architecture → Register
  | .mips _ => Mips.stackPointer.register
  | .mos6502 => Mos6502.regS

def register? (a : Architecture) (name : String) : Option Register :=
  a.registers.find? (·.name == name)

def emptyRegisterSet (a : Architecture) : RegisterSet := .empty a.registers.length

def emptyFrame (a : Architecture) : Frame := .empty a.wordBits

def addressOfConstant (a : Architecture) (c : Constant) : Address := .ofConstant c a.wordBits

def decode? (a : Architecture) (c : Cursor) : Option Instruction :=
  match a with
  | .mips _ => do
    let word ← (c.peek32 0).toOption
    let operation ← Mips.decode c.address word
    return .mips ⟨c.address, operation⟩
  | .mos6502 => (Mos6502.decode c).map .mos6502

def step (a : Architecture) (c : Cursor) : Except DecodeError Instruction × Cursor :=
  match a.decode? c with
  | some i => (.ok i, c.advance i.length)
  | none => (.error ⟨c.address⟩, c)

end Architecture

end RegisterTransfer
