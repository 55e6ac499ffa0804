import RegisterTransfer.Address

namespace RegisterTransfer.Mos6502

inductive Mnemonic
  | adc | and | asl | bcc | bcs | beq | bit | bmi | bne | bpl | brk | bvc | bvs | clc
  | cld | cli | clv | cmp | cpx | cpy | dec | dex | dey | eor | inc | inx | iny | jmp
  | jsr | lda | ldx | ldy | lsr | nop | ora | pha | php | pla | plp | rol | ror | rti
  | rts | sbc | sec | sed | sei | sta | stx | sty | tax | tay | tsx | txa | txs | tya
deriving DecidableEq, Repr

def Mnemonic.text : Mnemonic → String
  | .adc => "adc"
  | .and => "and"
  | .asl => "asl"
  | .bcc => "bcc"
  | .bcs => "bcs"
  | .beq => "beq"
  | .bit => "bit"
  | .bmi => "bmi"
  | .bne => "bne"
  | .bpl => "bpl"
  | .brk => "brk"
  | .bvc => "bvc"
  | .bvs => "bvs"
  | .clc => "clc"
  | .cld => "cld"
  | .cli => "cli"
  | .clv => "clv"
  | .cmp => "cmp"
  | .cpx => "cpx"
  | .cpy => "cpy"
  | .dec => "dec"
  | .dex => "dex"
  | .dey => "dey"
  | .eor => "eor"
  | .inc => "inc"
  | .inx => "inx"
  | .iny => "iny"
  | .jmp => "jmp"
  | .jsr => "jsr"
  | .lda => "lda"
  | .ldx => "ldx"
  | .ldy => "ldy"
  | .lsr => "lsr"
  | .nop => "nop"
  | .ora => "ora"
  | .pha => "pha"
  | .php => "php"
  | .pla => "pla"
  | .plp => "plp"
  | .rol => "rol"
  | .ror => "ror"
  | .rti => "rti"
  | .rts => "rts"
  | .sbc => "sbc"
  | .sec => "sec"
  | .sed => "sed"
  | .sei => "sei"
  | .sta => "sta"
  | .stx => "stx"
  | .sty => "sty"
  | .tax => "tax"
  | .tay => "tay"
  | .tsx => "tsx"
  | .txa => "txa"
  | .txs => "txs"
  | .tya => "tya"

inductive Mode
  | implied
  | accumulator
  | immediate
  | zeroPage | zeroPageX | zeroPageY
  | absolute | absoluteX | absoluteY
  | indirect
  | indexedIndirect
  | indirectIndexed
  /-- A displacement, held as the address that it leads to. -/
  | relative
deriving DecidableEq, Repr

def Mode.length : Mode → Nat
  | .implied | .accumulator => 1
  | .absolute | .absoluteX | .absoluteY | .indirect => 3
  | _ => 2

structure Instruction where
  address : Address
  mnemonic : Mnemonic
  mode : Mode
  value : BitVec 16
deriving DecidableEq, Repr

namespace Instruction

def length (i : Instruction) : Nat := i.mode.length

def nextAddress (i : Instruction) : Address := i.address.addOffset i.length

def operandText (i : Instruction) : String :=
  let byte := "$" ++ Text.upperHex 2 i.value.toNat
  let word := "$" ++ Text.upperHex 4 i.value.toNat
  match i.mode with
  | .implied => ""
  | .accumulator => "a"
  | .immediate => "#" ++ byte
  | .zeroPage => byte
  | .zeroPageX => byte ++ ",x"
  | .zeroPageY => byte ++ ",y"
  | .absolute | .relative => word
  | .absoluteX => word ++ ",x"
  | .absoluteY => word ++ ",y"
  | .indirect => "(" ++ word ++ ")"
  | .indexedIndirect => "(" ++ byte ++ ",x)"
  | .indirectIndexed => "(" ++ byte ++ "),y"

def text (i : Instruction) : String :=
  if i.mode = .implied then i.mnemonic.text else i.mnemonic.text ++ "\t" ++ i.operandText

end Instruction

end RegisterTransfer.Mos6502
