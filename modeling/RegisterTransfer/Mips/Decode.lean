import RegisterTransfer.Mips.Instruction

namespace RegisterTransfer.Mips

def field (w : BitVec 32) (start width : Nat) : BitVec width := w.extractLsb' start width

def gprField (w : BitVec 32) (start : Nat) : Gpr := (field w start 5).toFin

def branchTarget (a : Address) (w : BitVec 32) : Address :=
  a.addOffset (4 + 4 * (field w 0 16).toInt)

def jumpTarget (a : Address) (w : BitVec 32) : Address :=
  let slot := BitVec.ofNat 32 (a.addOffset 4).value
  .ptr32 (field slot 28 4 ++ field w 0 26 ++ 0#2).toNat

def decodeSpecial (w : BitVec 32) : Option Operation :=
  let rs := gprField w 21
  let rt := gprField w 16
  let rd := gprField w 11
  let amount := field w 6 5
  match (field w 0 6).toNat with
  | 0x00 => some (if w = 0 then .nop else .shift .sll rd rt amount)
  | 0x02 => some (.shift .srl rd rt amount)
  | 0x03 => some (.shift .sra rd rt amount)
  | 0x04 => some (.shiftVariable .sll rd rt rs)
  | 0x06 => some (.shiftVariable .srl rd rt rs)
  | 0x07 => some (.shiftVariable .sra rd rt rs)
  | 0x08 => some (.jumpRegister rs)
  | 0x09 => some (.jumpAndLinkRegister rd rs)
  | 0x0C => some .syscall
  | 0x0D => some .breakpoint
  | 0x10 => some (.moveFrom .hi rd)
  | 0x11 => some (.moveTo .hi rs)
  | 0x12 => some (.moveFrom .lo rd)
  | 0x13 => some (.moveTo .lo rs)
  | 0x18 => some (.product .mult rs rt)
  | 0x19 => some (.product .multu rs rt)
  | 0x1A => some (.product .div rs rt)
  | 0x1B => some (.product .divu rs rt)
  | 0x20 => some (.alu .add rd rs rt)
  | 0x21 => some (.alu .addu rd rs rt)
  | 0x22 => some (.alu .sub rd rs rt)
  | 0x23 => some (.alu .subu rd rs rt)
  | 0x24 => some (.alu .and rd rs rt)
  | 0x25 => some (.alu .or rd rs rt)
  | 0x26 => some (.alu .xor rd rs rt)
  | 0x27 => some (.alu .nor rd rs rt)
  | 0x2A => some (.alu .slt rd rs rt)
  | 0x2B => some (.alu .sltu rd rs rt)
  | _ => none

def decodeRegisterImmediate (a : Address) (w : BitVec 32) : Option Operation :=
  let rs := gprField w 21
  match (field w 16 5).toNat with
  | 0x00 => some (.signBranch .bltz rs (branchTarget a w))
  | 0x01 => some (.signBranch .bgez rs (branchTarget a w))
  | 0x10 => some (.signBranch .bltzal rs (branchTarget a w))
  | 0x11 => some (.signBranch .bgezal rs (branchTarget a w))
  | _ => none

def decode (a : Address) (w : BitVec 32) : Option Operation :=
  let rs := gprField w 21
  let rt := gprField w 16
  let immediate := field w 0 16
  match (field w 26 6).toNat with
  | 0x00 => decodeSpecial w
  | 0x01 => decodeRegisterImmediate a w
  | 0x02 => some (.jump (jumpTarget a w))
  | 0x03 => some (.jumpAndLink (jumpTarget a w))
  | 0x04 => some (.compareBranch .beq rs rt (branchTarget a w))
  | 0x05 => some (.compareBranch .bne rs rt (branchTarget a w))
  | 0x06 => if rt = zeroRegister then some (.signBranch .blez rs (branchTarget a w)) else none
  | 0x07 => if rt = zeroRegister then some (.signBranch .bgtz rs (branchTarget a w)) else none
  | 0x08 => some (.arithmetic .addi rt rs immediate)
  | 0x09 => some (.arithmetic .addiu rt rs immediate)
  | 0x0A => some (.arithmetic .slti rt rs immediate)
  | 0x0B => some (.arithmetic .sltiu rt rs immediate)
  | 0x0C => some (.logical .andi rt rs immediate)
  | 0x0D => some (.logical .ori rt rs immediate)
  | 0x0E => some (.logical .xori rt rs immediate)
  | 0x0F => if rs = zeroRegister then some (.lui rt immediate) else none
  | 0x20 => some (.load .lb rt rs immediate)
  | 0x21 => some (.load .lh rt rs immediate)
  | 0x23 => some (.load .lw rt rs immediate)
  | 0x24 => some (.load .lbu rt rs immediate)
  | 0x25 => some (.load .lhu rt rs immediate)
  | 0x28 => some (.store .sb rt rs immediate)
  | 0x29 => some (.store .sh rt rs immediate)
  | 0x2B => some (.store .sw rt rs immediate)
  | _ => none

end RegisterTransfer.Mips
