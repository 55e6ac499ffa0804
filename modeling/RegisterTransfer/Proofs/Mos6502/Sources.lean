import RegisterTransfer.Proofs.Mos6502.Emission
import RegisterTransfer.Proofs.Mos6502.InstructionSet

namespace RegisterTransfer.Mos6502

def Mode.isDirect : Mode → Bool
  | .implied | .accumulator | .immediate | .zeroPage | .absolute | .absoluteX | .absoluteY => true
  | _ => false

structure Names.Faithful (n : Names) : Prop where
  register (r : Register) : (n.register r).storage = .register r
  flags (flags : List Flag) : (n.flags flags).storage = .flagGroup regP (flagMask flags)
  slot : ∃ k, n.slot.storage = .temporary k

theorem faithful_names (f : Frame) : f.names.Faithful where
  register := f.nameOf_storage
  flags _ := f.storage_ensure _
  slot := ⟨f.nextTemporary, rfl⟩

def rotateLeft (v : BitVec 8) (c : Bool) : BitVec 8 := ((BitVec.cons c v).rotateLeft 1).setWidth 8

def rotateRight (v : BitVec 8) (c : Bool) : BitVec 8 := ((BitVec.cons c v).rotateRight 1).setWidth 8

/-- The intrinsic functions rotate a byte through the carry. -/
structure Surroundings.Rotates (e : Surroundings) : Prop where
  left (v : BitVec 8) (c : Bool) :
    e.intrinsic "__rcl" [.byte v, .byte 1, .bool c] .byte = rotateLeft v c
  right (v : BitVec 8) (c : Bool) :
    e.intrinsic "__rcr" [.byte v, .byte 1, .bool c] .byte = rotateRight v c

theorem rotateLeft_eq (v : BitVec 8) (c : Bool) : rotateLeft v c = v <<< 1 ||| ofCarry c := by
  revert v c
  decide +kernel

theorem rotateRight_eq (v : BitVec 8) (c : Bool) :
    rotateRight v c = v >>> 1 ||| ofCarry c <<< 7 := by
  revert v c
  decide +kernel

section Folding

theorem fold_byte {op : Operator} (h : op.isComparison = false) (v u : BitVec 8) :
    op.fold (.byte v) (.byte u) = .byte (Operator.combineWords v u (min u.toNat 63) op) := by
  have hu : u.toNat % 4294967296 = u.toNat := Nat.mod_eq_of_lt (by omega)
  simp [Operator.fold, h, Constant.byte, Constant.resize, Operator.shiftAmount, hu]

theorem fold_carry (v : BitVec 8) (c : Bool) :
    Operator.iadd.fold (.byte v) (.bool c) = .byte (v + ofCarry c) ∧
      Operator.isub.fold (.byte v) (.bool c) = .byte (v - ofCarry c) := by
  cases c <;> exact ⟨rfl, rfl⟩

theorem fold_index (p : BitVec 16) (v : BitVec 8) :
    Operator.iadd.fold ⟨.ptr16, p⟩ ((Constant.byte v).cast .word16 false) =
      ⟨.ptr16, p + v.setWidth 16⟩ := by
  simp [Operator.fold, Operator.isComparison, Operator.combineWords, Constant.byte, Constant.cast,
    Constant.resize]

end Folding

section
variable {n : Names} (hn : n.Faithful) (s : Machine) (e : Surroundings)

include hn in
theorem value?_contents (r : Register) :
    (contents n.register r).value? (s.interpretation e) =
      some (.byte (s.registers r.number)) := by
  unfold contents Expression.value?
  rw [hn.register r]
  rfl

include hn in
theorem value?_carry :
    (Expression.identifier (n.flags [.carry])).value? (s.interpretation e) =
      some (.bool s.carry) := by
  rw [Expression.value?, hn.flags]
  rfl

include hn in
theorem value?_borrow :
    (Expression.unary .not .bool (.identifier (n.flags [.carry]))).value? (s.interpretation e) =
      some (.bool (!s.carry)) := by
  have hnot : UnaryOperator.not.fold .bool (.bool s.carry) = .bool (!s.carry) := by
    cases s.carry <;> rfl
  rw [Expression.value?, value?_carry hn, Option.map_some, hnot]

theorem value?_absolute (p : BitVec 16) :
    (absolute p).value? (s.interpretation e) = some ⟨.ptr16, p⟩ := by
  have hp : (Address.ptr16 p.toNat).value = p.toNat := Nat.mod_eq_of_lt p.isLt
  simp [absolute, Expression.value?, hp, Constant.ofNat, Machine.interpretation]

variable {s e}

include hn in
theorem value?_offsetBy {base : Expression} {p : BitVec 16}
    (h : base.value? (s.interpretation e) = some ⟨.ptr16, p⟩) (r : Register) :
    (offsetBy n.register base r).value? (s.interpretation e) =
      some ⟨.ptr16, p + (s.registers r.number).setWidth 16⟩ := by
  rw [offsetBy, Expression.value?, h, Expression.value?, value?_contents hn]
  exact congrArg some (fold_index p _)

theorem load_byte (s : Machine) (p : BitVec 16) : s.load p 8 = s.memory p := by
  simp [Machine.load, List.range_succ]

theorem value?_memory {place : Expression} {p : BitVec 16}
    (h : place.value? (s.interpretation e) = some ⟨.ptr16, p⟩) :
    (Expression.memory place .byte).value? (s.interpretation e) = some (.byte (s.memory p)) := by
  rw [Expression.value?, h, ← load_byte]
  rfl

include hn in
theorem value?_stackPlace : (stackPlace n.register).value? (s.interpretation e) =
    some (.byte (s.memory s.stackPlace)) :=
  value?_memory (value?_offsetBy hn (value?_absolute s e 0x0100) regS)

include hn in
theorem value?_place {i : Instruction} (hd : i.mode.isDirect) (hm : i.mode.isMemory) :
    ∃ place, place? n.register i = some place ∧ ∀ s e,
      place.value? (s.interpretation e) = some ⟨.ptr16, i.mode.location i.value s⟩ := by
  unfold place?
  cases h : i.mode with
  | zeroPage | absolute => exact ⟨_, rfl, fun s e => value?_absolute s e i.value⟩
  | absoluteX =>
    exact ⟨_, rfl, fun s e => value?_offsetBy hn (value?_absolute s e i.value) regX⟩
  | absoluteY =>
    exact ⟨_, rfl, fun s e => value?_offsetBy hn (value?_absolute s e i.value) regY⟩
  | implied | accumulator | immediate | indirect | relative => rw [h] at hm; cases hm
  | zeroPageX | zeroPageY | indexedIndirect | indirectIndexed => rw [h] at hd; cases hd

theorem value?_of_isMemory {name : Register → Identifier} {i : Instruction}
    (hm : i.mode.isMemory) : value? name i = (place? name i).map (.memory · .byte) := by
  unfold value?
  cases h : i.mode <;> rw [h] at hm <;> first | rfl | cases hm

theorem operand_of_isMemory {m : Mode} (hm : m.isMemory) (operand : BitVec 16) (s : Machine) :
    m.operand operand s = s.memory (m.location operand s) := by
  cases m <;> first | rfl | cases hm

include hn in
theorem value?_value {i : Instruction} (hd : i.mode.isDirect) (ho : i.mode.hasOperand) :
    ∃ v, value? n.register i = some v ∧ ∀ s e,
      v.value? (s.interpretation e) = some (.byte (i.mode.operand i.value s)) := by
  have hcases : (i.mode = .immediate ∨ i.mode = .accumulator) ∨ i.mode.isMemory := by
    simpa [Mode.hasOperand] using ho
  obtain (hm | hm) | hm := hcases
  · unfold value?
    rw [hm]
    exact ⟨_, rfl, fun s e => rfl⟩
  · unfold value?
    rw [hm]
    exact ⟨_, rfl, fun s e => value?_contents hn s e regA⟩
  · obtain ⟨place, hplace, hp⟩ := value?_place hn hd hm
    refine ⟨.memory place .byte, ?_, ?_⟩
    · rw [value?_of_isMemory hm, hplace]
      rfl
    · intro s e
      rw [operand_of_isMemory hm]
      exact value?_memory (hp s e)

end

end RegisterTransfer.Mos6502
