import RegisterTransfer.Register

namespace RegisterTransfer.Mos6502

def regA : Register := ⟨"a", 0, 8, .general⟩

def regX : Register := ⟨"x", 1, 8, .general⟩

def regY : Register := ⟨"y", 2, 8, .general⟩

def regS : Register := ⟨"s", 3, 8, .stack⟩

def regP : Register := ⟨"p", 4, 8, .flags⟩

def regPc : Register := ⟨"pc", 5, 16, .programCounter⟩

def registers : List Register := [regA, regX, regY, regS, regP, regPc]

inductive Flag
  | negative | overflow | decimal | interrupt | zero | carry
deriving DecidableEq, Repr

namespace Flag

def mask : Flag → Nat
  | .negative => 0x80
  | .overflow => 0x40
  | .decimal => 0x08
  | .interrupt => 0x04
  | .zero => 0x02
  | .carry => 0x01

def letter : Flag → Char
  | .negative => 'N'
  | .overflow => 'V'
  | .decimal => 'D'
  | .interrupt => 'I'
  | .zero => 'Z'
  | .carry => 'C'

def all : List Flag := [.negative, .overflow, .decimal, .interrupt, .zero, .carry]

end Flag

def flagMask (flags : List Flag) : Nat := (flags.map Flag.mask).foldl (· ||| ·) 0

def flagName (flags : List Flag) : String :=
  String.ofList ((Flag.all.filter flags.contains).map Flag.letter)

end RegisterTransfer.Mos6502
