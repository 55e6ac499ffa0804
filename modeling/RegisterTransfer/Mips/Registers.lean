import RegisterTransfer.Register

namespace RegisterTransfer.Mips

abbrev Gpr := Fin 32

def zeroRegister : Gpr := ⟨0, by decide⟩

inductive HiLo
  | hi | lo
deriving DecidableEq, Repr

def register (n : Nat) : Register :=
  match n with
  | 29 => ⟨"sp", 29, 32, .stack⟩
  | 30 => ⟨"fp", 30, 32, .general⟩
  | 31 => ⟨"ra", 31, 32, .general⟩
  | 32 => ⟨"hi", 32, 32, .special⟩
  | 33 => ⟨"lo", 33, 32, .special⟩
  | n => ⟨s!"r{n}", n, 32, .general⟩

def registers : List Register := (List.range 34).map register

def Gpr.register (r : Gpr) : Register := Mips.register r

def HiLo.register : HiLo → Register
  | .hi => Mips.register 32
  | .lo => Mips.register 33

def globalPointer : Gpr := 28

def stackPointer : Gpr := 29

def returnAddress : Gpr := 31

@[simp] theorem register_number (n : Nat) : (register n).number = n := by
  unfold register
  split <;> rfl

@[simp] theorem register_bits (n : Nat) : (register n).bits = 32 := by
  unfold register
  split <;> rfl

end RegisterTransfer.Mips
