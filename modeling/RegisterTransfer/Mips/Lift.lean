import RegisterTransfer.Lifting
import RegisterTransfer.Mips.Instruction

/-!
The register transfers of MIPS32 instructions. Register 0 reads as the constant zero, and writes
to it are dropped. Operands are read before anything is written.
-/
namespace RegisterTransfer.Mips

def read (r : Gpr) : Lifting Expression :=
  if r = zeroRegister then return .constant (.word32 0) else Lifting.read r.register

def write (r : Gpr) (source : Expression) : Lifting Transfer :=
  if r = zeroRegister then return .nop else Lifting.assign r.register source

def foldKnown (op : Operator) (r : Gpr) (c : Constant) : Lifting (Option Constant) := do
  if r = zeroRegister then return some (op.fold (.word32 0) c)
  else return (← Lifting.contents? r.register).map fun known => op.fold known c

def writeKnown (r : Gpr) (source : Expression) (known : Option Constant) : Lifting Transfer := do
  let transfer ← write r source
  if r ≠ zeroRegister then
    if let some c := known then Lifting.record r.register c
  return transfer

def binary (op : Operator) (t : DataType) (rs rt : Gpr) : Lifting Expression := do
  let left ← read rs
  let right ← read rt
  return .binary op t left right

/-- An operation with zero as its neutral element is a move when one register is register 0. -/
def binaryOrMove (op : Operator) (rs rt : Gpr) : Lifting Expression :=
  if rt = zeroRegister then read rs
  else if rs = zeroRegister then read rt
  else binary op .word32 rs rt

def location (base : Gpr) (offset : BitVec 16) : Lifting Expression := do
  if base = zeroRegister then return .constant (.word32 (offset.signExtend 32))
  else
    let base ← read base
    return .binary .iadd .word32 base (.constant (.int32 (offset.signExtend 32)))

def ofComparison (e : Expression) : Expression := .cast .word32 false e

def ShiftOp.operator : ShiftOp → Operator
  | .sll => .shl
  | .srl => .shr
  | .sra => .sar

def AluOp.source (op : AluOp) (rs rt : Gpr) : Lifting Expression :=
  match op with
  | .add | .addu => binaryOrMove .iadd rs rt
  | .sub | .subu => binary .isub .word32 rs rt
  | .and => binary .and .word32 rs rt
  | .or => binaryOrMove .or rs rt
  | .xor => binary .xor .word32 rs rt
  | .nor => return .unary .not .word32 (← binary .or .word32 rs rt)
  | .slt => return ofComparison (← binary .lt .bool rs rt)
  | .sltu => return ofComparison (← binary .ult .bool rs rt)

def LogicalOp.operator : LogicalOp → Operator
  | .andi => .and
  | .ori => .or
  | .xori => .xor

def liftArithmetic (op : ArithmeticOp) (rt rs : Gpr) (immediate : BitVec 16) :
    Lifting Transfer := do
  let value := immediate.signExtend 32
  match op with
  | .addi | .addiu =>
    let known ← foldKnown .iadd rs (.word32 value)
    if rs = zeroRegister then writeKnown rt (.constant (.word32 value)) known
    else
      let left ← read rs
      writeKnown rt (.binary .iadd .word32 left (.constant (.int32 value))) known
  | .slti =>
    let left ← read rs
    write rt (ofComparison (.binary .lt .bool left (.constant (.int32 value))))
  | .sltiu =>
    let left ← read rs
    write rt (ofComparison (.binary .ult .bool left (.constant (.word32 value))))

def liftLogical (op : LogicalOp) (rt rs : Gpr) (immediate : BitVec 16) : Lifting Transfer := do
  let c := Constant.word32 (immediate.setWidth 32)
  let known ← foldKnown op.operator rs c
  if rs = zeroRegister ∧ op ≠ .andi then writeKnown rt (.constant c) known
  else
    let left ← read rs
    writeKnown rt (.binary op.operator .word32 left (.constant c)) known

def LoadOp.source (op : LoadOp) (location : Expression) : Expression :=
  match op with
  | .lb => .cast .int32 true (.memory location .byte)
  | .lbu => .cast .word32 false (.memory location .byte)
  | .lh => .cast .int32 true (.memory location .word16)
  | .lhu => .cast .word32 false (.memory location .word16)
  | .lw => .memory location .word32

def StoreOp.transfer (op : StoreOp) (location value : Expression) : Transfer :=
  match op with
  | .sb => .assignment (.memory location .byte) (.cast .byte false value)
  | .sh => .assignment (.memory location .word16) (.cast .word16 false value)
  | .sw => .assignment (.memory location .word32) value

def ProductOp.halves (op : ProductOp) (a b : Expression) : Expression × Expression :=
  match op with
  | .mult => (.binary .imul .word32 a b, .application "__smul_hi" [a, b] .word32)
  | .multu => (.binary .umul .word32 a b, .application "__umul_hi" [a, b] .word32)
  | .div => (.binary .sdiv .word32 a b, .binary .smod .word32 a b)
  | .divu => (.binary .udiv .word32 a b, .binary .umod .word32 a b)

def SignBranch.operator : SignBranch → Operator
  | .blez => .le
  | .bgtz => .gt
  | .bltz | .bltzal => .lt
  | .bgez | .bgezal => .ge

def branchKind : TransferClass := { TransferClass.delayed with conditional := true }

def callKind : TransferClass := { TransferClass.delayed with call := true }

def liftCompareBranch (op : CompareBranch) (rs rt : Gpr) (target : Address) :
    Lifting (List Transfer) := do
  if op = .beq ∧ rs = rt then return [.goto (.address target) .delayed]
  else
    let condition ← binary (if op = .beq then .eq else .ne) .bool rs rt
    return [.branch condition (.address target) branchKind]

def continuation (a : Address) : Address := a.addOffset 8

def liftSignBranch (a : Address) (op : SignBranch) (rs : Gpr) (target : Address) :
    Lifting (List Transfer) := do
  let condition := Expression.binary op.operator .bool (← read rs) (.constant (.int32 0))
  if op.links then
    let link ← write returnAddress (.address (continuation a))
    return [link, .branch condition (.address target) { branchKind with call := true }]
  else return [.branch condition (.address target) branchKind]

/-- The link register of a call to a register is left out when it is the usual one. -/
def liftCallRegister (a : Address) (rd rs : Gpr) : Lifting (List Transfer) := do
  let target ← read rs
  let link ←
    if rd ≠ returnAddress ∧ rd ≠ zeroRegister then
      pure [← write rd (.address (continuation a))]
    else pure []
  Lifting.forget returnAddress.register
  return link ++ [.call target 0 callKind]

def Listed.lift? (host : Host) (i : Listed) : Option (Lifting (List Transfer)) :=
  match i.opcode with
  | .nop => some (return [.nop])
  | .shift op => do
    let rd ← i.register? 0
    let rt ← i.register? 1
    let amount := Constant.word32 ((← i.unsigned? 2).setWidth 32)
    some do
      let value ← read rt
      return [← write rd (.binary op.operator .word32 value (.constant amount))]
  | .shiftVariable op => do
    let rd ← i.register? 0
    let rt ← i.register? 1
    let rs ← i.register? 2
    some do return [← write rd (← binary op.operator .word32 rt rs)]
  | .alu op => do
    let rd ← i.register? 0
    let rs ← i.register? 1
    let rt ← i.register? 2
    some do return [← write rd (← op.source rs rt)]
  | .arithmetic op => do
    let rt ← i.register? 0
    let rs ← i.register? 1
    let immediate ← i.signed? 2
    some do return [← liftArithmetic op rt rs immediate]
  | .logical op => do
    let rt ← i.register? 0
    let rs ← i.register? 1
    let immediate ← i.unsigned? 2
    some do return [← liftLogical op rt rs immediate]
  | .lui => do
    let rt ← i.register? 0
    let immediate ← i.unsigned? 1
    some do return [← write rt (.constant (.word32 (immediate ++ 0#16)))]
  | .load op => do
    let rt ← i.register? 0
    let (base, offset) ← i.memory? 1
    some do return [← write rt (op.source (← location base offset))]
  | .store op => do
    let rt ← i.register? 0
    let (base, offset) ← i.memory? 1
    some do
      let place ← location base offset
      return [op.transfer place (← read rt)]
  | .product op => do
    let rs ← i.register? 0
    let rt ← i.register? 1
    some do
      let a ← read rs
      let b ← read rt
      let lo ← Lifting.assign HiLo.lo.register (op.halves a b).1
      let hi ← Lifting.assign HiLo.hi.register (op.halves a b).2
      return [lo, hi]
  | .moveFrom source => do
    let rd ← i.register? 0
    some do return [← write rd (← Lifting.read source.register)]
  | .moveTo destination => do
    let rs ← i.register? 0
    some do return [← Lifting.assign destination.register (← read rs)]
  | .compareBranch op => do
    let rs ← i.register? 0
    let rt ← i.register? 1
    let target ← i.address? 2
    some (liftCompareBranch op rs rt target)
  | .signBranch op => do
    let rs ← i.register? 0
    let target ← i.address? 1
    some (liftSignBranch i.address op rs target)
  | .jump => do
    let target ← i.address? 0
    some (return [.goto (.address target) .delayed])
  | .jumpAndLink => do
    let target ← i.address? 0
    some do
      let callee ← Lifting.callee host target (continuation i.address)
      Lifting.forget returnAddress.register
      return [.call callee 0 callKind]
  | .jumpRegister => do
    let rs ← i.register? 0
    some do
      if rs = returnAddress then return [.returning 0 .delayed]
      else return [.goto (← read rs) .delayed]
  | .jumpAndLinkRegister => do
    let rd ← i.register? 0
    let rs ← i.register? 1
    some (liftCallRegister i.address rd rs)
  | .syscall => some (return [.sideEffect (.application "__syscall" [] .word32)])
  | .breakpoint => some (return [.sideEffect (.application "__break" [] .word32)])

def Listed.lift (host : Host) (i : Listed) : Lifting (List Transfer) :=
  (i.lift? host).getD (return [.invalid])

def lift (host : Host) (i : Instruction) : Lifting (List Transfer) := i.listed.lift host

end RegisterTransfer.Mips
