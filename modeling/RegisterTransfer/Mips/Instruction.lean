import RegisterTransfer.Address
import RegisterTransfer.Mips.Registers

namespace RegisterTransfer.Mips

inductive ShiftOp
  | sll | srl | sra
deriving DecidableEq, Repr

inductive AluOp
  | add | addu | sub | subu | and | or | xor | nor | slt | sltu
deriving DecidableEq, Repr

inductive ArithmeticOp
  | addi | addiu | slti | sltiu
deriving DecidableEq, Repr

inductive LogicalOp
  | andi | ori | xori
deriving DecidableEq, Repr

inductive LoadOp
  | lb | lbu | lh | lhu | lw
deriving DecidableEq, Repr

inductive StoreOp
  | sb | sh | sw
deriving DecidableEq, Repr

inductive ProductOp
  | mult | multu | div | divu
deriving DecidableEq, Repr

inductive CompareBranch
  | beq | bne
deriving DecidableEq, Repr

inductive SignBranch
  | blez | bgtz | bltz | bgez | bltzal | bgezal
deriving DecidableEq, Repr

inductive Opcode
  | nop
  | shift (op : ShiftOp)
  | shiftVariable (op : ShiftOp)
  | alu (op : AluOp)
  | arithmetic (op : ArithmeticOp)
  | logical (op : LogicalOp)
  | lui
  | load (op : LoadOp)
  | store (op : StoreOp)
  | product (op : ProductOp)
  | moveFrom (source : HiLo)
  | moveTo (destination : HiLo)
  | compareBranch (op : CompareBranch)
  | signBranch (op : SignBranch)
  | jump
  | jumpAndLink
  | jumpRegister
  | jumpAndLinkRegister
  | syscall
  | breakpoint
deriving DecidableEq, Repr

inductive Operation
  | nop
  | shift (op : ShiftOp) (rd rt : Gpr) (amount : BitVec 5)
  | shiftVariable (op : ShiftOp) (rd rt rs : Gpr)
  | alu (op : AluOp) (rd rs rt : Gpr)
  | arithmetic (op : ArithmeticOp) (rt rs : Gpr) (immediate : BitVec 16)
  | logical (op : LogicalOp) (rt rs : Gpr) (immediate : BitVec 16)
  | lui (rt : Gpr) (immediate : BitVec 16)
  | load (op : LoadOp) (rt base : Gpr) (offset : BitVec 16)
  | store (op : StoreOp) (rt base : Gpr) (offset : BitVec 16)
  | product (op : ProductOp) (rs rt : Gpr)
  | moveFrom (source : HiLo) (rd : Gpr)
  | moveTo (destination : HiLo) (rs : Gpr)
  | compareBranch (op : CompareBranch) (rs rt : Gpr) (target : Address)
  | signBranch (op : SignBranch) (rs : Gpr) (target : Address)
  | jump (target : Address)
  | jumpAndLink (target : Address)
  | jumpRegister (rs : Gpr)
  | jumpAndLinkRegister (rd rs : Gpr)
  | syscall
  | breakpoint
deriving DecidableEq, Repr

inductive Operand
  | register (r : Gpr)
  | signed (value : BitVec 16)
  | unsigned (value : BitVec 16)
  | memory (base : Gpr) (offset : BitVec 16)
  | address (a : Address)
deriving DecidableEq, Repr

structure Instruction where
  address : Address
  operation : Operation
deriving DecidableEq, Repr

/-- An instruction as it is listed. Nothing says here that the operands are those of the opcode. -/
structure Listed where
  address : Address
  opcode : Opcode
  operands : List Operand
deriving DecidableEq, Repr

def ShiftOp.mnemonic : ShiftOp → String
  | .sll => "sll"
  | .srl => "srl"
  | .sra => "sra"

def ShiftOp.variableMnemonic : ShiftOp → String
  | .sll => "sllv"
  | .srl => "srlv"
  | .sra => "srav"

def AluOp.mnemonic : AluOp → String
  | .add => "add"
  | .addu => "addu"
  | .sub => "sub"
  | .subu => "subu"
  | .and => "and"
  | .or => "or"
  | .xor => "xor"
  | .nor => "nor"
  | .slt => "slt"
  | .sltu => "sltu"

def ArithmeticOp.mnemonic : ArithmeticOp → String
  | .addi => "addi"
  | .addiu => "addiu"
  | .slti => "slti"
  | .sltiu => "sltiu"

def LogicalOp.mnemonic : LogicalOp → String
  | .andi => "andi"
  | .ori => "ori"
  | .xori => "xori"

def LoadOp.mnemonic : LoadOp → String
  | .lb => "lb"
  | .lbu => "lbu"
  | .lh => "lh"
  | .lhu => "lhu"
  | .lw => "lw"

def StoreOp.mnemonic : StoreOp → String
  | .sb => "sb"
  | .sh => "sh"
  | .sw => "sw"

def ProductOp.mnemonic : ProductOp → String
  | .mult => "mult"
  | .multu => "multu"
  | .div => "div"
  | .divu => "divu"

def CompareBranch.mnemonic : CompareBranch → String
  | .beq => "beq"
  | .bne => "bne"

def SignBranch.mnemonic : SignBranch → String
  | .blez => "blez"
  | .bgtz => "bgtz"
  | .bltz => "bltz"
  | .bgez => "bgez"
  | .bltzal => "bltzal"
  | .bgezal => "bgezal"

def SignBranch.links : SignBranch → Bool
  | .bltzal | .bgezal => true
  | .blez | .bgtz | .bltz | .bgez => false

namespace Opcode

def mnemonic : Opcode → String
  | .nop => "nop"
  | .shift op => op.mnemonic
  | .shiftVariable op => op.variableMnemonic
  | .alu op => op.mnemonic
  | .arithmetic op => op.mnemonic
  | .logical op => op.mnemonic
  | .lui => "lui"
  | .load op => op.mnemonic
  | .store op => op.mnemonic
  | .product op => op.mnemonic
  | .moveFrom .hi => "mfhi"
  | .moveFrom .lo => "mflo"
  | .moveTo .hi => "mthi"
  | .moveTo .lo => "mtlo"
  | .compareBranch op => op.mnemonic
  | .signBranch op => op.mnemonic
  | .jump => "j"
  | .jumpAndLink => "jal"
  | .jumpRegister => "jr"
  | .jumpAndLinkRegister => "jalr"
  | .syscall => "syscall"
  | .breakpoint => "break"

def hasDelaySlot : Opcode → Bool
  | .compareBranch _ | .signBranch _ | .jump | .jumpAndLink | .jumpRegister
  | .jumpAndLinkRegister => true
  | _ => false

end Opcode

namespace Operation

def opcode : Operation → Opcode
  | .nop => .nop
  | .shift op .. => .shift op
  | .shiftVariable op .. => .shiftVariable op
  | .alu op .. => .alu op
  | .arithmetic op .. => .arithmetic op
  | .logical op .. => .logical op
  | .lui .. => .lui
  | .load op .. => .load op
  | .store op .. => .store op
  | .product op .. => .product op
  | .moveFrom source _ => .moveFrom source
  | .moveTo destination _ => .moveTo destination
  | .compareBranch op .. => .compareBranch op
  | .signBranch op .. => .signBranch op
  | .jump _ => .jump
  | .jumpAndLink _ => .jumpAndLink
  | .jumpRegister _ => .jumpRegister
  | .jumpAndLinkRegister .. => .jumpAndLinkRegister
  | .syscall => .syscall
  | .breakpoint => .breakpoint

def mnemonic (op : Operation) : String := op.opcode.mnemonic

def operands : Operation → List Operand
  | .nop | .syscall | .breakpoint => []
  | .shift _ rd rt amount => [.register rd, .register rt, .unsigned (amount.setWidth 16)]
  | .shiftVariable _ rd rt rs => [.register rd, .register rt, .register rs]
  | .alu _ rd rs rt => [.register rd, .register rs, .register rt]
  | .arithmetic _ rt rs immediate => [.register rt, .register rs, .signed immediate]
  | .logical _ rt rs immediate => [.register rt, .register rs, .unsigned immediate]
  | .lui rt immediate => [.register rt, .unsigned immediate]
  | .load _ rt base offset | .store _ rt base offset => [.register rt, .memory base offset]
  | .product _ rs rt => [.register rs, .register rt]
  | .moveFrom _ r | .moveTo _ r | .jumpRegister r => [.register r]
  | .compareBranch _ rs rt target => [.register rs, .register rt, .address target]
  | .signBranch _ rs target => [.register rs, .address target]
  | .jump target | .jumpAndLink target => [.address target]
  | .jumpAndLinkRegister rd rs => [.register rd, .register rs]

def hasDelaySlot (op : Operation) : Bool := op.opcode.hasDelaySlot

end Operation

def unsignedText (n : Nat) : String := "0x" ++ Text.upperHex 0 n

def signedText (n : Int) : String :=
  if n < 0 then "-" ++ unsignedText n.natAbs else unsignedText n.natAbs

def Operand.text : Operand → String
  | .register r => r.register.name
  | .signed value => signedText value.toInt
  | .unsigned value => unsignedText value.toNat
  | .memory base offset => signedText offset.toInt ++ "(" ++ base.register.name ++ ")"
  | .address a => a.text

namespace Operand

def register? : Operand → Option Gpr
  | .register r => some r
  | _ => none

def signed? : Operand → Option (BitVec 16)
  | .signed value => some value
  | _ => none

def unsigned? : Operand → Option (BitVec 16)
  | .unsigned value => some value
  | _ => none

def memory? : Operand → Option (Gpr × BitVec 16)
  | .memory base offset => some (base, offset)
  | _ => none

def address? : Operand → Option Address
  | .address a => some a
  | _ => none

end Operand

namespace Listed

def register? (i : Listed) (n : Nat) : Option Gpr := i.operands[n]?.bind Operand.register?

def signed? (i : Listed) (n : Nat) : Option (BitVec 16) := i.operands[n]?.bind Operand.signed?

def unsigned? (i : Listed) (n : Nat) : Option (BitVec 16) := i.operands[n]?.bind Operand.unsigned?

def memory? (i : Listed) (n : Nat) : Option (Gpr × BitVec 16) :=
  i.operands[n]?.bind Operand.memory?

def address? (i : Listed) (n : Nat) : Option Address := i.operands[n]?.bind Operand.address?

def text (i : Listed) : String :=
  match i.operands with
  | [] => i.opcode.mnemonic
  | operands => i.opcode.mnemonic ++ "\t" ++ ",".intercalate (operands.map Operand.text)

end Listed

namespace Instruction

def listed (i : Instruction) : Listed := ⟨i.address, i.operation.opcode, i.operation.operands⟩

def length (_ : Instruction) : Nat := 4

def text (i : Instruction) : String := i.listed.text

end Instruction

end RegisterTransfer.Mips
