import RegisterTransfer.Proofs.Mips.ControlTransfers

/-!
The words of the MIPS32 integer instructions: which words are instructions, which fields each of
them assigns, and the word that an instruction is assembled to. What is decoded and assembled again
has every assigned field of the word that it comes from.
-/

namespace RegisterTransfer.Mips

structure BitField where
  start : Nat
  width : Nat

namespace BitField

def opcode : BitField := ⟨26, 6⟩

def rs : BitField := ⟨21, 5⟩

def rt : BitField := ⟨16, 5⟩

def rd : BitField := ⟨11, 5⟩

def amount : BitField := ⟨6, 5⟩

def function : BitField := ⟨0, 6⟩

def immediate : BitField := ⟨0, 16⟩

def index : BitField := ⟨0, 26⟩

def get (f : BitField) (w : BitVec 32) : Nat := (field w f.start f.width).toNat

end BitField

open BitField

def functions : List Nat :=
  [0x00, 0x02, 0x03, 0x04, 0x06, 0x07, 0x08, 0x09, 0x0C, 0x0D, 0x10, 0x11, 0x12, 0x13, 0x18, 0x19,
    0x1A, 0x1B, 0x20, 0x21, 0x22, 0x23, 0x24, 0x25, 0x26, 0x27, 0x2A, 0x2B]

def selectors : List Nat := [0x00, 0x01, 0x10, 0x11]

def plainOpcodes : List Nat :=
  [0x02, 0x03, 0x04, 0x05, 0x08, 0x09, 0x0A, 0x0B, 0x0C, 0x0D, 0x0E, 0x20, 0x21, 0x23, 0x24, 0x25,
    0x28, 0x29, 0x2B]

def IsInstruction (w : BitVec 32) : Prop :=
  opcode.get w = 0x00 ∧ function.get w ∈ functions ∨
  opcode.get w = 0x01 ∧ rt.get w ∈ selectors ∨
  opcode.get w ∈ [0x06, 0x07] ∧ rt.get w = 0 ∨
  opcode.get w = 0x0F ∧ rs.get w = 0 ∨
  opcode.get w ∈ plainOpcodes

def operandFields (w : BitVec 32) : List BitField :=
  match opcode.get w with
  | 0x00 =>
    match function.get w with
    | 0x00 | 0x02 | 0x03 => [rt, rd, amount]
    | 0x08 | 0x11 | 0x13 => [rs]
    | 0x09 => [rs, rd]
    | 0x0C | 0x0D => []
    | 0x10 | 0x12 => [rd]
    | 0x18 | 0x19 | 0x1A | 0x1B => [rs, rt]
    | _ => [rs, rt, rd]
  | 0x01 | 0x06 | 0x07 => [rs, immediate]
  | 0x02 | 0x03 => [index]
  | 0x0F => [rt, immediate]
  | _ => [rs, rt, immediate]

def selectingFields (w : BitVec 32) : List BitField :=
  match opcode.get w with
  | 0x00 => [opcode, function]
  | 0x01 => [opcode, rt]
  | _ => [opcode]

def Gpr.bits (r : Gpr) : BitVec 5 := .ofFin r

def registerWord (function : BitVec 6) (rs rt rd amount : BitVec 5) : BitVec 32 :=
  0#6 ++ rs ++ rt ++ rd ++ amount ++ function

def immediateWord (opcode : BitVec 6) (rs rt : BitVec 5) (immediate : BitVec 16) : BitVec 32 :=
  opcode ++ rs ++ rt ++ immediate

def jumpWord (opcode : BitVec 6) (index : BitVec 26) : BitVec 32 := opcode ++ index

def displacement (a target : Address) : BitVec 16 :=
  (target.word - (a.word + 4)).extractLsb' 2 16

def jumpIndex (target : Address) : BitVec 26 := target.word.extractLsb' 2 26

def ShiftOp.function : ShiftOp → BitVec 6
  | .sll => 0x00
  | .srl => 0x02
  | .sra => 0x03

def AluOp.function : AluOp → BitVec 6
  | .add => 0x20
  | .addu => 0x21
  | .sub => 0x22
  | .subu => 0x23
  | .and => 0x24
  | .or => 0x25
  | .xor => 0x26
  | .nor => 0x27
  | .slt => 0x2A
  | .sltu => 0x2B

def ProductOp.function : ProductOp → BitVec 6
  | .mult => 0x18
  | .multu => 0x19
  | .div => 0x1A
  | .divu => 0x1B

def ArithmeticOp.opcode : ArithmeticOp → BitVec 6
  | .addi => 0x08
  | .addiu => 0x09
  | .slti => 0x0A
  | .sltiu => 0x0B

def LogicalOp.opcode : LogicalOp → BitVec 6
  | .andi => 0x0C
  | .ori => 0x0D
  | .xori => 0x0E

def LoadOp.opcode : LoadOp → BitVec 6
  | .lb => 0x20
  | .lh => 0x21
  | .lw => 0x23
  | .lbu => 0x24
  | .lhu => 0x25

def StoreOp.opcode : StoreOp → BitVec 6
  | .sb => 0x28
  | .sh => 0x29
  | .sw => 0x2B

def Operation.word (a : Address) : Operation → BitVec 32
  | .nop => 0
  | .shift op rd rt amount => registerWord op.function 0 rt.bits rd.bits amount
  | .shiftVariable op rd rt rs => registerWord (op.function + 4) rs.bits rt.bits rd.bits 0
  | .alu op rd rs rt => registerWord op.function rs.bits rt.bits rd.bits 0
  | .arithmetic op rt rs immediate => immediateWord op.opcode rs.bits rt.bits immediate
  | .logical op rt rs immediate => immediateWord op.opcode rs.bits rt.bits immediate
  | .lui rt immediate => immediateWord 0x0F 0 rt.bits immediate
  | .load op rt base offset => immediateWord op.opcode base.bits rt.bits offset
  | .store op rt base offset => immediateWord op.opcode base.bits rt.bits offset
  | .product op rs rt => registerWord op.function rs.bits rt.bits 0 0
  | .moveFrom .hi rd => registerWord 0x10 0 0 rd.bits 0
  | .moveTo .hi rs => registerWord 0x11 rs.bits 0 0 0
  | .moveFrom .lo rd => registerWord 0x12 0 0 rd.bits 0
  | .moveTo .lo rs => registerWord 0x13 rs.bits 0 0 0
  | .compareBranch .beq rs rt target => immediateWord 0x04 rs.bits rt.bits (displacement a target)
  | .compareBranch .bne rs rt target => immediateWord 0x05 rs.bits rt.bits (displacement a target)
  | .signBranch .bltz rs target => immediateWord 0x01 rs.bits 0x00 (displacement a target)
  | .signBranch .bgez rs target => immediateWord 0x01 rs.bits 0x01 (displacement a target)
  | .signBranch .bltzal rs target => immediateWord 0x01 rs.bits 0x10 (displacement a target)
  | .signBranch .bgezal rs target => immediateWord 0x01 rs.bits 0x11 (displacement a target)
  | .signBranch .blez rs target => immediateWord 0x06 rs.bits 0 (displacement a target)
  | .signBranch .bgtz rs target => immediateWord 0x07 rs.bits 0 (displacement a target)
  | .jump target => jumpWord 0x02 (jumpIndex target)
  | .jumpAndLink target => jumpWord 0x03 (jumpIndex target)
  | .jumpRegister rs => registerWord 0x08 rs.bits 0 0 0
  | .jumpAndLinkRegister rd rs => registerWord 0x09 rs.bits 0 rd.bits 0
  | .syscall => registerWord 0x0C 0 0 0 0
  | .breakpoint => registerWord 0x0D 0 0 0 0

section Instructions
variable {a : Address} {w : BitVec 32}

theorem decodeSpecial_isSome_iff : (decodeSpecial w).isSome ↔ function.get w ∈ functions := by
  have hget : function.get w = (field w 0 6).toNat := rfl
  rw [hget]
  unfold decodeSpecial
  split <;> simp_all [functions]

theorem decodeRegisterImmediate_isSome_iff :
    (decodeRegisterImmediate a w).isSome ↔ rt.get w ∈ selectors := by
  have hget : rt.get w = (field w 16 5).toNat := rfl
  rw [hget]
  unfold decodeRegisterImmediate
  split <;> simp_all [selectors]

theorem gprField_eq_zero_iff (start : Nat) :
    gprField w start = zeroRegister ↔ (field w start 5).toNat = 0 :=
  Fin.ext_iff

theorem decode_isSome_iff : (decode a w).isSome ↔ IsInstruction w := by
  have hopcode : opcode.get w = (field w 26 6).toNat := rfl
  have hrs : rs.get w = 0 ↔ gprField w 21 = zeroRegister := (gprField_eq_zero_iff 21).symm
  have hrt : rt.get w = 0 ↔ gprField w 16 = zeroRegister := (gprField_eq_zero_iff 16).symm
  unfold IsInstruction
  rw [hrs, hrt, hopcode, ← decodeSpecial_isSome_iff, ← decodeRegisterImmediate_isSome_iff (a := a)]
  unfold decode
  split <;> simp_all [plainOpcodes]

end Instructions

section Formats

theorem get_registerWord (code : BitVec 6) (r s t x : BitVec 5) :
    let w := registerWord code r s t x
    opcode.get w = 0 ∧ rs.get w = r.toNat ∧ rt.get w = s.toNat ∧ rd.get w = t.toNat ∧
      amount.get w = x.toNat ∧ function.get w = code.toNat := by
  refine ⟨?_, ?_, ?_, ?_, ?_, ?_⟩ <;>
    simp (disch := decide) only [BitField.get, field, opcode, rs, rt, rd, amount, function,
      registerWord, BitVec.extractLsb'_append_eq_of_le, BitVec.extractLsb'_append_eq_of_add_le,
      BitVec.extractLsb'_eq_self, Nat.reduceSub, BitVec.toNat_zero]

theorem get_immediateWord (code : BitVec 6) (r s : BitVec 5) (x : BitVec 16) :
    let w := immediateWord code r s x
    opcode.get w = code.toNat ∧ rs.get w = r.toNat ∧ rt.get w = s.toNat ∧
      immediate.get w = x.toNat := by
  refine ⟨?_, ?_, ?_, ?_⟩ <;>
    simp (disch := decide) only [BitField.get, field, opcode, rs, rt, immediate, immediateWord,
      BitVec.extractLsb'_append_eq_of_le, BitVec.extractLsb'_append_eq_of_add_le,
      BitVec.extractLsb'_eq_self, Nat.reduceSub]

theorem get_jumpWord (code : BitVec 6) (x : BitVec 26) :
    let w := jumpWord code x
    opcode.get w = code.toNat ∧ index.get w = x.toNat := by
  refine ⟨?_, ?_⟩ <;>
    simp (disch := decide) only [BitField.get, field, opcode, index, jumpWord,
      BitVec.extractLsb'_append_eq_of_le, BitVec.extractLsb'_append_eq_of_add_le,
      BitVec.extractLsb'_eq_self, Nat.reduceSub]

end Formats

section Targets
variable {a : Address}

theorem extractLsb'_four_mul_signExtend (x : BitVec 16) :
    (4#32 * x.signExtend 32).extractLsb' 2 16 = x := by
  have hshift : 4#32 * x.signExtend 32 = x.signExtend 32 <<< 2 := by
    rw [BitVec.shiftLeft_eq_mul_twoPow, BitVec.mul_comm]
    rfl
  rw [hshift]
  ext i hi
  have hword : i < 32 := by omega
  have hshifted : 2 + i < 32 := by omega
  have hback : 2 + i - 2 = i := Nat.add_sub_cancel_left 2 i
  rw [BitVec.getElem_extractLsb', BitVec.getLsbD_shiftLeft, BitVec.getLsbD_signExtend, hback,
    if_pos hi, BitVec.getLsbD_eq_getElem hi]
  simp only [hword, hshifted, Nat.not_lt.mpr (Nat.le_add_right 2 i), decide_true, decide_false,
    Bool.not_false, Bool.true_and]

theorem displacement_branchTarget (ha : a.bits = 32) (w : BitVec 32) :
    displacement a (branchTarget a w) = field w 0 16 := by
  unfold displacement
  rw [word_branchTarget ha, BitVec.add_comm (a.word + 4), BitVec.add_sub_cancel]
  exact extractLsb'_four_mul_signExtend (field w 0 16)

theorem jumpIndex_jumpTarget (ha : a.bits = 32) (w : BitVec 32) :
    jumpIndex (jumpTarget a w) = field w 0 26 := by
  unfold jumpIndex
  rw [word_jumpTarget ha, BitVec.extractLsb'_append_eq_of_le (by decide),
    BitVec.extractLsb'_append_eq_of_add_le (by decide), Nat.sub_self,
    BitVec.extractLsb'_eq_self]

end Targets

section Assembly
variable {a : Address} {w : BitVec 32} {op : Operation}

theorem toNat_bits (w : BitVec 32) : (Gpr.bits (gprField w 21)).toNat = rs.get w ∧
    (Gpr.bits (gprField w 16)).toNat = rt.get w ∧ (Gpr.bits (gprField w 11)).toNat = rd.get w :=
  ⟨rfl, rfl, rfl⟩

theorem toNat_field (w : BitVec 32) : (field w 6 5).toNat = amount.get w ∧
    (field w 0 16).toNat = immediate.get w ∧ (field w 0 26).toNat = index.get w :=
  ⟨rfl, rfl, rfl⟩

theorem get_word_of_decodeSpecial (h : decodeSpecial w = some op) (hw : opcode.get w = 0) :
    ∀ f ∈ selectingFields w ++ operandFields w, f.get (op.word a) = f.get w := by
  have hfunction : (field w 0 6).toNat = function.get w := rfl
  unfold selectingFields operandFields
  unfold decodeSpecial at h
  rw [hfunction] at h
  rw [hw]
  split at h
  case h_1 hf =>
    split at h
    · rename_i hzero
      cases h
      intro f hmem
      rw [Operation.word, hzero]
    · cases h
      simp [hf, hw, toNat_field, toNat_bits, Operation.word, get_registerWord, ShiftOp.function]
  case h_29 => cases h
  all_goals
    rename_i hf
    cases h
    simp [hf, hw, toNat_field, toNat_bits, Operation.word, get_registerWord, ShiftOp.function,
      AluOp.function, ProductOp.function]

theorem get_word_of_decodeRegisterImmediate (ha : a.bits = 32)
    (h : decodeRegisterImmediate a w = some op) (hw : opcode.get w = 1) :
    ∀ f ∈ selectingFields w ++ operandFields w, f.get (op.word a) = f.get w := by
  have hselector : (field w 16 5).toNat = rt.get w := rfl
  unfold selectingFields operandFields
  unfold decodeRegisterImmediate at h
  rw [hselector] at h
  rw [hw]
  split at h
  case h_5 => cases h
  all_goals
    rename_i hs
    cases h
    simp [hs, hw, toNat_field, toNat_bits, Operation.word, get_immediateWord,
      displacement_branchTarget ha]

theorem get_word (ha : a.bits = 32) (h : decode a w = some op) :
    ∀ f ∈ selectingFields w ++ operandFields w, f.get (op.word a) = f.get w := by
  have hopcode : (field w 26 6).toNat = opcode.get w := rfl
  unfold decode at h
  rw [hopcode] at h
  split at h
  case h_1 hw => exact get_word_of_decodeSpecial h hw
  case h_2 hw => exact get_word_of_decodeRegisterImmediate ha h hw
  case h_7 hw | h_8 hw | h_16 hw =>
    dsimp only at h
    split at h
    · cases h
      simp [selectingFields, operandFields, hw, toNat_field, toNat_bits, Operation.word,
        get_immediateWord, displacement_branchTarget ha]
    · cases h
  case h_25 => cases h
  all_goals
    rename_i hw
    cases h
    simp [selectingFields, operandFields, hw, toNat_field, toNat_bits, Operation.word,
      get_immediateWord, get_jumpWord, displacement_branchTarget ha, jumpIndex_jumpTarget ha,
      ArithmeticOp.opcode, LogicalOp.opcode, LoadOp.opcode, StoreOp.opcode]

theorem get_word_opcode (ha : a.bits = 32) (h : decode a w = some op) :
    opcode.get (op.word a) = opcode.get w := by
  apply get_word ha h
  unfold selectingFields
  split <;> simp

theorem get_eq_of_decode {v : BitVec 32} (ha : a.bits = 32) (hw : decode a w = some op)
    (hv : decode a v = some op) :
    opcode.get w = opcode.get v ∧ (opcode.get w = 0 → function.get w = function.get v) ∧
      (opcode.get w = 1 → rt.get w = rt.get v) ∧ ∀ f ∈ operandFields w, f.get w = f.get v := by
  -- A field that both words assign is the same field of the one word that they are assembled to.
  have hfields : ∀ f, f ∈ selectingFields w ++ operandFields w →
      f ∈ selectingFields v ++ operandFields v → f.get w = f.get v := by
    intro f hfw hfv
    exact (get_word ha hw f hfw).symm.trans (get_word ha hv f hfv)
  have hopcode : opcode.get w = opcode.get v :=
    (get_word_opcode ha hw).symm.trans (get_word_opcode ha hv)
  have hfunction : opcode.get w = 0 → function.get w = function.get v := by
    intro hzero
    have hmem : ∀ u, opcode.get u = 0 → function ∈ selectingFields u ++ operandFields u := by
      intro u hu
      simp [selectingFields, hu]
    exact hfields _ (hmem w hzero) (hmem v (hopcode ▸ hzero))
  have hselector : opcode.get w = 1 → rt.get w = rt.get v := by
    intro hone
    have hmem : ∀ u, opcode.get u = 1 → rt ∈ selectingFields u ++ operandFields u := by
      intro u hu
      simp [selectingFields, hu]
    exact hfields _ (hmem w hone) (hmem v (hopcode ▸ hone))
  have hoperands : operandFields w = operandFields v := by
    unfold operandFields
    rw [← hopcode]
    split
    case h_1 hzero => rw [hfunction hzero]
    all_goals rfl
  refine ⟨hopcode, hfunction, hselector, ?_⟩
  intro f hf
  exact hfields f (List.mem_append_right _ hf) (List.mem_append_right _ (hoperands ▸ hf))

end Assembly

end RegisterTransfer.Mips
