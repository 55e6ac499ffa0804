import RegisterTransfer.Image
import RegisterTransfer.Mos6502.Instruction

namespace RegisterTransfer.Mos6502

def accumulatorMnemonic : Nat → Mnemonic
  | 0 => .ora
  | 1 => .and
  | 2 => .eor
  | 3 => .adc
  | 4 => .sta
  | 5 => .lda
  | 6 => .cmp
  | _ => .sbc

def accumulatorMode : Nat → Mode
  | 0 => .indexedIndirect
  | 1 => .zeroPage
  | 2 => .immediate
  | 3 => .absolute
  | 4 => .indirectIndexed
  | 5 => .zeroPageX
  | 6 => .absoluteY
  | _ => .absoluteX

/-- Accumulator instructions have 01 in the low two bits. There is no store to an immediate. -/
def decodeAccumulator (opcode : Nat) : Option (Mnemonic × Mode) :=
  if opcode = 0x89 then none
  else some (accumulatorMnemonic (opcode / 32), accumulatorMode (opcode / 4 % 8))

def decodeOther : Nat → Option (Mnemonic × Mode)
  | 0x00 => some (.brk, .implied)
  | 0x08 => some (.php, .implied)
  | 0x10 => some (.bpl, .relative)
  | 0x18 => some (.clc, .implied)
  | 0x20 => some (.jsr, .absolute)
  | 0x24 => some (.bit, .zeroPage)
  | 0x28 => some (.plp, .implied)
  | 0x2C => some (.bit, .absolute)
  | 0x30 => some (.bmi, .relative)
  | 0x38 => some (.sec, .implied)
  | 0x40 => some (.rti, .implied)
  | 0x48 => some (.pha, .implied)
  | 0x4C => some (.jmp, .absolute)
  | 0x50 => some (.bvc, .relative)
  | 0x58 => some (.cli, .implied)
  | 0x60 => some (.rts, .implied)
  | 0x68 => some (.pla, .implied)
  | 0x6C => some (.jmp, .indirect)
  | 0x70 => some (.bvs, .relative)
  | 0x78 => some (.sei, .implied)
  | 0x84 => some (.sty, .zeroPage)
  | 0x88 => some (.dey, .implied)
  | 0x8C => some (.sty, .absolute)
  | 0x90 => some (.bcc, .relative)
  | 0x94 => some (.sty, .zeroPageX)
  | 0x98 => some (.tya, .implied)
  | 0xA0 => some (.ldy, .immediate)
  | 0xA4 => some (.ldy, .zeroPage)
  | 0xA8 => some (.tay, .implied)
  | 0xAC => some (.ldy, .absolute)
  | 0xB0 => some (.bcs, .relative)
  | 0xB4 => some (.ldy, .zeroPageX)
  | 0xB8 => some (.clv, .implied)
  | 0xBC => some (.ldy, .absoluteX)
  | 0xC0 => some (.cpy, .immediate)
  | 0xC4 => some (.cpy, .zeroPage)
  | 0xC8 => some (.iny, .implied)
  | 0xCC => some (.cpy, .absolute)
  | 0xD0 => some (.bne, .relative)
  | 0xD8 => some (.cld, .implied)
  | 0xE0 => some (.cpx, .immediate)
  | 0xE4 => some (.cpx, .zeroPage)
  | 0xE8 => some (.inx, .implied)
  | 0xEC => some (.cpx, .absolute)
  | 0xF0 => some (.beq, .relative)
  | 0xF8 => some (.sed, .implied)
  | 0x06 => some (.asl, .zeroPage)
  | 0x0A => some (.asl, .accumulator)
  | 0x0E => some (.asl, .absolute)
  | 0x16 => some (.asl, .zeroPageX)
  | 0x1E => some (.asl, .absoluteX)
  | 0x26 => some (.rol, .zeroPage)
  | 0x2A => some (.rol, .accumulator)
  | 0x2E => some (.rol, .absolute)
  | 0x36 => some (.rol, .zeroPageX)
  | 0x3E => some (.rol, .absoluteX)
  | 0x46 => some (.lsr, .zeroPage)
  | 0x4A => some (.lsr, .accumulator)
  | 0x4E => some (.lsr, .absolute)
  | 0x56 => some (.lsr, .zeroPageX)
  | 0x5E => some (.lsr, .absoluteX)
  | 0x66 => some (.ror, .zeroPage)
  | 0x6A => some (.ror, .accumulator)
  | 0x6E => some (.ror, .absolute)
  | 0x76 => some (.ror, .zeroPageX)
  | 0x7E => some (.ror, .absoluteX)
  | 0x86 => some (.stx, .zeroPage)
  | 0x8A => some (.txa, .implied)
  | 0x8E => some (.stx, .absolute)
  | 0x96 => some (.stx, .zeroPageY)
  | 0x9A => some (.txs, .implied)
  | 0xA2 => some (.ldx, .immediate)
  | 0xA6 => some (.ldx, .zeroPage)
  | 0xAA => some (.tax, .implied)
  | 0xAE => some (.ldx, .absolute)
  | 0xB6 => some (.ldx, .zeroPageY)
  | 0xBA => some (.tsx, .implied)
  | 0xBE => some (.ldx, .absoluteY)
  | 0xC6 => some (.dec, .zeroPage)
  | 0xCA => some (.dex, .implied)
  | 0xCE => some (.dec, .absolute)
  | 0xD6 => some (.dec, .zeroPageX)
  | 0xDE => some (.dec, .absoluteX)
  | 0xE6 => some (.inc, .zeroPage)
  | 0xEA => some (.nop, .implied)
  | 0xEE => some (.inc, .absolute)
  | 0xF6 => some (.inc, .zeroPageX)
  | 0xFE => some (.inc, .absoluteX)
  | _ => none

def decodeOpcode (opcode : BitVec 8) : Option (Mnemonic × Mode) :=
  let n := opcode.toNat
  if n % 4 = 1 then decodeAccumulator n else decodeOther n

def branchTarget (a : Address) (displacement : BitVec 8) : BitVec 16 :=
  BitVec.ofNat 16 (a.addOffset (2 + displacement.toInt)).value

def operandValue (c : Cursor) (mode : Mode) : Except ImageError (BitVec 16) :=
  match mode.length with
  | 1 => .ok 0
  | 2 =>
    (c.peek8 1).map fun b =>
      if mode = .relative then branchTarget c.address b else b.setWidth 16
  | _ => c.peek16 1

def decode (c : Cursor) : Option Instruction := do
  let opcode ← (c.peek8 0).toOption
  let (mnemonic, mode) ← decodeOpcode opcode
  let value ← (operandValue c mode).toOption
  return ⟨c.address, mnemonic, mode, value⟩

end RegisterTransfer.Mos6502
