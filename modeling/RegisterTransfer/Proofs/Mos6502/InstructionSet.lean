import RegisterTransfer.Mos6502.Decode
import RegisterTransfer.Proofs.Mos6502.Machine

/-!
The data instructions of the MOS 6502 by their bytes: the documented opcodes, and what each does to
the registers and to memory in binary mode. Flags are left out, but for the carry that is read.
-/

namespace RegisterTransfer.Mos6502

def Mnemonic.opcodes : Mnemonic → List (Mode × Nat)
  | .adc => [(.immediate, 0x69), (.zeroPage, 0x65), (.zeroPageX, 0x75), (.absolute, 0x6D),
      (.absoluteX, 0x7D), (.absoluteY, 0x79), (.indexedIndirect, 0x61), (.indirectIndexed, 0x71)]
  | .and => [(.immediate, 0x29), (.zeroPage, 0x25), (.zeroPageX, 0x35), (.absolute, 0x2D),
      (.absoluteX, 0x3D), (.absoluteY, 0x39), (.indexedIndirect, 0x21), (.indirectIndexed, 0x31)]
  | .asl => [(.accumulator, 0x0A), (.zeroPage, 0x06), (.zeroPageX, 0x16), (.absolute, 0x0E),
      (.absoluteX, 0x1E)]
  | .bcc => [(.relative, 0x90)]
  | .bcs => [(.relative, 0xB0)]
  | .beq => [(.relative, 0xF0)]
  | .bit => [(.zeroPage, 0x24), (.absolute, 0x2C)]
  | .bmi => [(.relative, 0x30)]
  | .bne => [(.relative, 0xD0)]
  | .bpl => [(.relative, 0x10)]
  | .brk => [(.implied, 0x00)]
  | .bvc => [(.relative, 0x50)]
  | .bvs => [(.relative, 0x70)]
  | .clc => [(.implied, 0x18)]
  | .cld => [(.implied, 0xD8)]
  | .cli => [(.implied, 0x58)]
  | .clv => [(.implied, 0xB8)]
  | .cmp => [(.immediate, 0xC9), (.zeroPage, 0xC5), (.zeroPageX, 0xD5), (.absolute, 0xCD),
      (.absoluteX, 0xDD), (.absoluteY, 0xD9), (.indexedIndirect, 0xC1), (.indirectIndexed, 0xD1)]
  | .cpx => [(.immediate, 0xE0), (.zeroPage, 0xE4), (.absolute, 0xEC)]
  | .cpy => [(.immediate, 0xC0), (.zeroPage, 0xC4), (.absolute, 0xCC)]
  | .dec => [(.zeroPage, 0xC6), (.zeroPageX, 0xD6), (.absolute, 0xCE), (.absoluteX, 0xDE)]
  | .dex => [(.implied, 0xCA)]
  | .dey => [(.implied, 0x88)]
  | .eor => [(.immediate, 0x49), (.zeroPage, 0x45), (.zeroPageX, 0x55), (.absolute, 0x4D),
      (.absoluteX, 0x5D), (.absoluteY, 0x59), (.indexedIndirect, 0x41), (.indirectIndexed, 0x51)]
  | .inc => [(.zeroPage, 0xE6), (.zeroPageX, 0xF6), (.absolute, 0xEE), (.absoluteX, 0xFE)]
  | .inx => [(.implied, 0xE8)]
  | .iny => [(.implied, 0xC8)]
  | .jmp => [(.absolute, 0x4C), (.indirect, 0x6C)]
  | .jsr => [(.absolute, 0x20)]
  | .lda => [(.immediate, 0xA9), (.zeroPage, 0xA5), (.zeroPageX, 0xB5), (.absolute, 0xAD),
      (.absoluteX, 0xBD), (.absoluteY, 0xB9), (.indexedIndirect, 0xA1), (.indirectIndexed, 0xB1)]
  | .ldx => [(.immediate, 0xA2), (.zeroPage, 0xA6), (.zeroPageY, 0xB6), (.absolute, 0xAE),
      (.absoluteY, 0xBE)]
  | .ldy => [(.immediate, 0xA0), (.zeroPage, 0xA4), (.zeroPageX, 0xB4), (.absolute, 0xAC),
      (.absoluteX, 0xBC)]
  | .lsr => [(.accumulator, 0x4A), (.zeroPage, 0x46), (.zeroPageX, 0x56), (.absolute, 0x4E),
      (.absoluteX, 0x5E)]
  | .nop => [(.implied, 0xEA)]
  | .ora => [(.immediate, 0x09), (.zeroPage, 0x05), (.zeroPageX, 0x15), (.absolute, 0x0D),
      (.absoluteX, 0x1D), (.absoluteY, 0x19), (.indexedIndirect, 0x01), (.indirectIndexed, 0x11)]
  | .pha => [(.implied, 0x48)]
  | .php => [(.implied, 0x08)]
  | .pla => [(.implied, 0x68)]
  | .plp => [(.implied, 0x28)]
  | .rol => [(.accumulator, 0x2A), (.zeroPage, 0x26), (.zeroPageX, 0x36), (.absolute, 0x2E),
      (.absoluteX, 0x3E)]
  | .ror => [(.accumulator, 0x6A), (.zeroPage, 0x66), (.zeroPageX, 0x76), (.absolute, 0x6E),
      (.absoluteX, 0x7E)]
  | .rti => [(.implied, 0x40)]
  | .rts => [(.implied, 0x60)]
  | .sbc => [(.immediate, 0xE9), (.zeroPage, 0xE5), (.zeroPageX, 0xF5), (.absolute, 0xED),
      (.absoluteX, 0xFD), (.absoluteY, 0xF9), (.indexedIndirect, 0xE1), (.indirectIndexed, 0xF1)]
  | .sec => [(.implied, 0x38)]
  | .sed => [(.implied, 0xF8)]
  | .sei => [(.implied, 0x78)]
  | .sta => [(.zeroPage, 0x85), (.zeroPageX, 0x95), (.absolute, 0x8D), (.absoluteX, 0x9D),
      (.absoluteY, 0x99), (.indexedIndirect, 0x81), (.indirectIndexed, 0x91)]
  | .stx => [(.zeroPage, 0x86), (.zeroPageY, 0x96), (.absolute, 0x8E)]
  | .sty => [(.zeroPage, 0x84), (.zeroPageX, 0x94), (.absolute, 0x8C)]
  | .tax => [(.implied, 0xAA)]
  | .tay => [(.implied, 0xA8)]
  | .tsx => [(.implied, 0xBA)]
  | .txa => [(.implied, 0x8A)]
  | .txs => [(.implied, 0x9A)]
  | .tya => [(.implied, 0x98)]

def Mnemonic.all : List Mnemonic :=
  [.adc, .and, .asl, .bcc, .bcs, .beq, .bit, .bmi, .bne, .bpl, .brk, .bvc, .bvs, .clc,
    .cld, .cli, .clv, .cmp, .cpx, .cpy, .dec, .dex, .dey, .eor, .inc, .inx, .iny, .jmp,
    .jsr, .lda, .ldx, .ldy, .lsr, .nop, .ora, .pha, .php, .pla, .plp, .rol, .ror, .rti,
    .rts, .sbc, .sec, .sed, .sei, .sta, .stx, .sty, .tax, .tay, .tsx, .txa, .txs, .tya]

def documented? (opcode : Nat) : Option (Mnemonic × Mode) :=
  Mnemonic.all.findSome? fun mnemonic =>
    (mnemonic.opcodes.find? (·.2 == opcode)).map fun entry => (mnemonic, entry.1)

theorem decodeOpcode_of_mem : ∀ mnemonic, ∀ entry ∈ Mnemonic.opcodes mnemonic,
    decodeOpcode (.ofNat 8 entry.2) = some (mnemonic, entry.1) := by
  intro mnemonic
  cases mnemonic <;> decide

theorem mem_all (mnemonic : Mnemonic) : mnemonic ∈ Mnemonic.all := by
  cases mnemonic <;> decide

theorem mem_opcodes : ∀ opcode : BitVec 8, ∀ found ∈ decodeOpcode opcode,
    (found.2, opcode.toNat) ∈ found.1.opcodes := by
  decide +kernel

theorem documented?_eq (opcode : BitVec 8) : documented? opcode.toNat = decodeOpcode opcode := by
  cases hd : documented? opcode.toNat with
  | some found =>
    obtain ⟨mnemonic, -, he⟩ := List.exists_of_findSome?_eq_some hd
    obtain ⟨entry, hentry, rfl⟩ := Option.map_eq_some_iff.mp he
    have hn : entry.2 = opcode.toNat := by simpa using List.find?_some hentry
    have h := decodeOpcode_of_mem mnemonic entry (List.mem_of_find?_eq_some hentry)
    rw [hn, BitVec.ofNat_toNat, BitVec.setWidth_eq] at h
    exact h.symm
  -- An opcode that is decoded has its entry, which a search of the table does not miss.
  | none =>
    cases hf : decodeOpcode opcode with
    | none => rfl
    | some found =>
      have hm := mem_opcodes opcode found hf
      have hnone := List.findSome?_eq_none_iff.mp hd found.1 (mem_all found.1)
      rw [Option.map_eq_none_iff, List.find?_eq_none] at hnone
      exact absurd (beq_self_eq_true opcode.toNat) (hnone _ hm)

def Machine.pointer (s : Machine) (z : BitVec 8) : BitVec 16 :=
  s.memory ((z + 1).setWidth 16) ++ s.memory (z.setWidth 16)

namespace Mode

/-- The effective address; indexing does not leave the zero page. -/
def location (m : Mode) (operand : BitVec 16) (s : Machine) : BitVec 16 :=
  let z := operand.setWidth 8
  match m with
  | .zeroPageX => (z + s.x).setWidth 16
  | .zeroPageY => (z + s.y).setWidth 16
  | .absoluteX => operand + s.x.setWidth 16
  | .absoluteY => operand + s.y.setWidth 16
  | .indexedIndirect => s.pointer (z + s.x)
  | .indirectIndexed => s.pointer z + s.y.setWidth 16
  | _ => operand

def operand (m : Mode) (given : BitVec 16) (s : Machine) : BitVec 8 :=
  match m with
  | .immediate => given.setWidth 8
  | .accumulator => s.a
  | _ => s.memory (m.location given s)

end Mode

namespace Machine

def stackPlace (s : Machine) : BitVec 16 := 0x0100 + s.stack.setWidth 16

def push (s : Machine) (v : BitVec 8) : Machine :=
  (s.store s.stackPlace v).put regS.number (s.stack - 1)

def pull (s : Machine) (r : Register) : Machine :=
  let t := s.put regS.number (s.stack + 1)
  t.put r.number (t.memory t.stackPlace)

def replace (s : Machine) (m : Mode) (operand : BitVec 16) (v : BitVec 8) : Machine :=
  if m = .accumulator then s.put regA.number v else s.store (m.location operand s) v

end Machine

def ofCarry (c : Bool) : BitVec 8 := if c then 1 else 0

namespace Mnemonic

def effect (mnemonic : Mnemonic) (m : Mode) (operand : BitVec 16) (s : Machine) : Machine :=
  let v := m.operand operand s
  let place := m.location operand s
  match mnemonic with
  | .lda => s.put regA.number v
  | .ldx => s.put regX.number v
  | .ldy => s.put regY.number v
  | .sta => s.store place s.a
  | .stx => s.store place s.x
  | .sty => s.store place s.y
  | .tax => s.put regX.number s.a
  | .tay => s.put regY.number s.a
  | .txa => s.put regA.number s.x
  | .tya => s.put regA.number s.y
  | .tsx => s.put regX.number s.stack
  | .txs => s.put regS.number s.x
  | .and => s.put regA.number (s.a &&& v)
  | .ora => s.put regA.number (s.a ||| v)
  | .eor => s.put regA.number (s.a ^^^ v)
  | .adc => s.put regA.number (s.a + v + ofCarry s.carry)
  | .sbc => s.put regA.number (s.a - v - ofCarry (!s.carry))
  | .asl => s.replace m operand (v <<< 1)
  | .lsr => s.replace m operand (v >>> 1)
  | .rol => s.replace m operand (v <<< 1 ||| ofCarry s.carry)
  | .ror => s.replace m operand (v >>> 1 ||| ofCarry s.carry <<< 7)
  | .inc => s.replace m operand (v + 1)
  | .dec => s.replace m operand (v - 1)
  | .inx => s.put regX.number (s.x + 1)
  | .iny => s.put regY.number (s.y + 1)
  | .dex => s.put regX.number (s.x - 1)
  | .dey => s.put regY.number (s.y - 1)
  | .pha => s.push s.a
  | .pla => s.pull regA
  | _ => s

end Mnemonic

def effect (opcode : UInt8) (operand : List UInt8) (s : Machine) : Machine :=
  match documented? opcode.toNat with
  | some (mnemonic, m) => mnemonic.effect m (.ofNat 16 (littleEndian operand)) s
  | none => s

end RegisterTransfer.Mos6502
