import RegisterTransfer.Lifting
import RegisterTransfer.Mos6502.Instruction
import RegisterTransfer.Mos6502.Registers

/-!
The register transfers of MOS 6502 instructions. Flags are assigned in groups, as the flags of an
expression; an operand in memory that is changed in place goes through a temporary.
-/
namespace RegisterTransfer.Mos6502

open Lifting (read assign)

def flagGroup (flags : List Flag) : Lifting Expression :=
  Lifting.flagGroup regP (flagMask flags) (flagName flags)

def setFlags (flags : List Flag) (e : Expression) : Lifting Transfer :=
  return .assignment (← flagGroup flags) (.conditionOf e)

def setFlag (flag : Flag) (value : Bool) : Lifting Transfer :=
  return .assignment (← flagGroup [flag]) (.constant (.bool value))

def byte (x : BitVec 8) : Expression := .constant (.byte x)

def absolute (value : BitVec 16) : Expression := .address (.ptr16 value.toNat)

def indexed (base : Expression) (index : Register) : Lifting Expression :=
  return .binary .iadd .ptr16 base (.cast .word16 false (← read index))

def location? (i : Instruction) : Lifting (Option Expression) :=
  let base := absolute i.value
  match i.mode with
  | .zeroPage | .absolute => return some base
  | .zeroPageX | .absoluteX => return some (← indexed base regX)
  | .zeroPageY | .absoluteY => return some (← indexed base regY)
  | .indexedIndirect => return some (.memory (← indexed base regX) .ptr16)
  | .indirectIndexed => return some (← indexed (.memory base .ptr16) regY)
  | _ => return none

def operand? (i : Instruction) : Lifting (Option Expression) :=
  match i.mode with
  | .immediate => return some (byte (i.value.setWidth 8))
  | .accumulator => return some (← read regA)
  | _ => return (← location? i).map (.memory · .byte)

def stackSlot : Lifting Expression :=
  return .memory (← indexed (absolute 0x0100) regS) .byte

def moveStack (op : Operator) : Lifting Transfer := do
  let s ← read regS
  assign regS (.binary op .byte s (byte 1))

def push (value : Expression) : Lifting (List Transfer) := do
  let store := Transfer.assignment (← stackSlot) value
  return [store, ← moveStack .isub]

def pull (r : Register) : Lifting (List Transfer) := do
  let move ← moveStack .iadd
  let slot ← stackSlot
  return [move, ← assign r slot]

def resultFlags : List Flag := [.negative, .zero]

def carryFlags : List Flag := [.negative, .zero, .carry]

def assignWithFlags (r : Register) (source : Expression) (flags : List Flag) :
    Lifting (List Transfer) := do
  let write ← assign r source
  return [write, ← setFlags flags (← read r)]

def modifyAccumulator (flags : List Flag) (change : Expression → Lifting Expression) :
    Lifting (List Transfer) := do
  let a ← read regA
  assignWithFlags regA (← change a) flags

def modifyMemory (location : Expression) (flags : List Flag)
    (change : Expression → Lifting Expression) : Lifting (List Transfer) := do
  let slot ← Lifting.temporary .byte
  let changed ← change slot
  return [.assignment slot (.memory location .byte), .assignment slot changed,
    .assignment (.memory location .byte) slot, ← setFlags flags slot]

def modify (i : Instruction) (flags : List Flag) (change : Expression → Lifting Expression) :
    Lifting (List Transfer) := do
  if i.mode = .accumulator then modifyAccumulator flags change
  else
    match ← location? i with
    | some location => modifyMemory location flags change
    | none => return [.invalid]

def withOperand (i : Instruction) (continuation : Expression → Lifting (List Transfer)) :
    Lifting (List Transfer) := do
  match ← operand? i with
  | some value => continuation value
  | none => return [.invalid]

def loadRegister (i : Instruction) (r : Register) : Lifting (List Transfer) :=
  withOperand i fun value => assignWithFlags r value resultFlags

def storeRegister (i : Instruction) (r : Register) : Lifting (List Transfer) := do
  match ← location? i with
  | some location => return [.assignment (.memory location .byte) (← read r)]
  | none => return [.invalid]

def moveRegister (source destination : Register) : Lifting (List Transfer) := do
  let value ← read source
  if destination = regS then return [← assign destination value]
  else assignWithFlags destination value resultFlags

def logic (i : Instruction) (op : Operator) : Lifting (List Transfer) :=
  withOperand i fun value => do
    let a ← read regA
    assignWithFlags regA (.binary op .byte a value) resultFlags

def addOrSubtract (i : Instruction) (op : Operator) (carry : Expression → Expression) :
    Lifting (List Transfer) :=
  withOperand i fun value => do
    let a ← read regA
    let c ← flagGroup [.carry]
    assignWithFlags regA (.binary op .byte (.binary op .byte a value) (carry c))
      [.negative, .overflow, .zero, .carry]

def byOne (op : Operator) (e : Expression) : Lifting Expression :=
  return .binary op .byte e (byte 1)

def rotate (function : String) (e : Expression) : Lifting Expression :=
  return .application function [e, byte 1, ← flagGroup [.carry]] .byte

def stepRegister (r : Register) (op : Operator) : Lifting (List Transfer) := do
  let known ← Lifting.contents? r
  let value ← read r
  let write ← assign r (.binary op .byte value (byte 1))
  if let some c := known then Lifting.record r (op.fold c (.byte 1))
  return [write, ← setFlags resultFlags value]

def compareRegister (i : Instruction) (r : Register) : Lifting (List Transfer) :=
  withOperand i fun value => do
    let difference := Expression.binary .isub .byte (← read r) value
    return [← setFlags carryFlags difference]

def testBits (i : Instruction) : Lifting (List Transfer) :=
  withOperand i fun value => do
    let common := Expression.binary .and .byte (← read regA) value
    return [← setFlags [.negative, .overflow, .zero] common]

def branchKind : TransferClass := { TransferClass.ofTransfer with conditional := true }

def callKind : TransferClass := { TransferClass.ofTransfer with call := true }

def branch (i : Instruction) (code : ConditionCode) (flag : Flag) : Lifting (List Transfer) :=
  return [.branch (.test code (← flagGroup [flag])) (absolute i.value) branchKind]

def jumpTarget (i : Instruction) : Expression :=
  if i.mode = .indirect then .memory (absolute i.value) .ptr16 else absolute i.value

def returning : Transfer := .returning 2 .ofTransfer

def lift (host : Host) (i : Instruction) : Lifting (List Transfer) := do
  match i.mnemonic with
  | .lda => loadRegister i regA
  | .ldx => loadRegister i regX
  | .ldy => loadRegister i regY
  | .sta => storeRegister i regA
  | .stx => storeRegister i regX
  | .sty => storeRegister i regY
  | .tax => moveRegister regA regX
  | .tay => moveRegister regA regY
  | .txa => moveRegister regX regA
  | .tya => moveRegister regY regA
  | .tsx => moveRegister regS regX
  | .txs => moveRegister regX regS
  | .and => logic i .and
  | .ora => logic i .or
  | .eor => logic i .xor
  | .adc => addOrSubtract i .iadd id
  | .sbc => addOrSubtract i .isub (.unary .not .bool ·)
  | .asl => modify i carryFlags (byOne .shl)
  | .lsr => modify i carryFlags (byOne .shr)
  | .rol => modify i carryFlags (rotate "__rcl")
  | .ror => modify i carryFlags (rotate "__rcr")
  | .inc => modify i resultFlags (byOne .iadd)
  | .dec => modify i resultFlags (byOne .isub)
  | .inx => stepRegister regX .iadd
  | .iny => stepRegister regY .iadd
  | .dex => stepRegister regX .isub
  | .dey => stepRegister regY .isub
  | .cmp => compareRegister i regA
  | .cpx => compareRegister i regX
  | .cpy => compareRegister i regY
  | .bit => testBits i
  | .bpl => branch i .ns .negative
  | .bmi => branch i .sg .negative
  | .bvc => branch i .no .overflow
  | .bvs => branch i .ov .overflow
  | .bcc => branch i .uge .carry
  | .bcs => branch i .ult .carry
  | .bne => branch i .ne .zero
  | .beq => branch i .eq .zero
  | .jmp => return [.goto (jumpTarget i) .ofTransfer]
  | .jsr => return [.call (← Lifting.callee host (.ptr16 i.value.toNat) i.nextAddress) 2 callKind]
  | .rts => return [returning]
  | .rti => return (← pull regP) ++ [returning]
  | .brk => return [.sideEffect (.application "__brk" [] .byte)]
  | .pha => push (← read regA)
  | .php => push (← read regP)
  | .pla =>
    let transfers ← pull regA
    return transfers ++ [← setFlags resultFlags (← read regA)]
  | .plp => pull regP
  | .clc => return [← setFlag .carry false]
  | .sec => return [← setFlag .carry true]
  | .cli => return [← setFlag .interrupt false]
  | .sei => return [← setFlag .interrupt true]
  | .cld => return [← setFlag .decimal false]
  | .sed => return [← setFlag .decimal true]
  | .clv => return [← setFlag .overflow false]
  | .nop => return [.nop]

end RegisterTransfer.Mos6502
