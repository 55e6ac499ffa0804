import RegisterTransfer.Proofs.Arithmetic
import RegisterTransfer.Proofs.Mips.Emission
import RegisterTransfer.Proofs.Mips.InstructionSet

namespace RegisterTransfer.Mips

variable {M : Type}

def ShiftOp.compute (op : ShiftOp) (x : BitVec 32) (amount : Nat) : BitVec 32 :=
  match op with
  | .sll => x <<< amount
  | .srl => x >>> amount
  | .sra => x.sshiftRight amount

def AluOp.compute (op : AluOp) (x y : BitVec 32) : BitVec 32 :=
  match op with
  | .add | .addu => x + y
  | .sub | .subu => x - y
  | .and => x &&& y
  | .or => x ||| y
  | .xor => x ^^^ y
  | .nor => ~~~(x ||| y)
  | .slt => ofDecision (x.toInt < y.toInt)
  | .sltu => ofDecision (x.toNat < y.toNat)

def ArithmeticOp.compute (op : ArithmeticOp) (x y : BitVec 32) : BitVec 32 :=
  match op with
  | .addi | .addiu => x + y
  | .slti => ofDecision (x.toInt < y.toInt)
  | .sltiu => ofDecision (x.toNat < y.toNat)

def LogicalOp.compute (op : LogicalOp) (x y : BitVec 32) : BitVec 32 :=
  match op with
  | .andi => x &&& y
  | .ori => x ||| y
  | .xori => x ^^^ y

def LoadOp.compute (op : LoadOp) (contents : (width : Nat) → BitVec width) : BitVec 32 :=
  match op with
  | .lb => (contents 8).signExtend 32
  | .lbu => (contents 8).setWidth 32
  | .lh => (contents 16).signExtend 32
  | .lhu => (contents 16).setWidth 32
  | .lw => contents 32

def ProductOp.compute (op : ProductOp) (x y : BitVec 32) : BitVec 32 × BitVec 32 :=
  match op with
  | .mult =>
    let product := x.signExtend 64 * y.signExtend 64
    (product.extractLsb' 0 32, product.extractLsb' 32 32)
  | .multu =>
    let product := x.setWidth 64 * y.setWidth 64
    (product.extractLsb' 0 32, product.extractLsb' 32 32)
  | .div => (.ofInt 32 (x.toInt.tdiv y.toInt), .ofInt 32 (x.toInt.tmod y.toInt))
  | .divu => (.ofNat 32 (x.toNat / y.toNat), .ofNat 32 (x.toNat % y.toNat))

def ProductOp.divides : ProductOp → Bool
  | .mult | .multu => false
  | .div | .divu => true

/-- The intrinsic functions deliver the high halves of signed and unsigned products. -/
structure Surroundings.ReadsProducts (e : Surroundings M) : Prop where
  signed (x y : BitVec 32) : e.intrinsic "__smul_hi" [.word32 x, .word32 y] .word32 =
    (x.signExtend 64 * y.signExtend 64).extractLsb' 32 32
  unsigned (x y : BitVec 32) : e.intrinsic "__umul_hi" [.word32 x, .word32 y] .word32 =
    (x.setWidth 64 * y.setWidth 64).extractLsb' 32 32

section Folding

theorem fold_word32 (op : Operator) (x y : BitVec 32) :
    op.fold (.word32 x) (.word32 y) =
      if op.isComparison then .bool (Operator.compareWords x y op)
      else .word32 (Operator.combineWords x y (min y.toNat 63) op) := by
  simp [Operator.fold, Constant.word32, Constant.resize, Operator.shiftAmount]

theorem fold_int32 (op : Operator) (x y : BitVec 32) :
    op.fold (.word32 x) (.int32 y) = op.fold (.word32 x) (.word32 y) := rfl

theorem fold_combine (op : Operator) (h : op.isComparison = false) (x y : BitVec 32) :
    op.fold (.word32 x) (.word32 y) =
      .word32 (Operator.combineWords x y (min y.toNat 63) op) := by
  rw [fold_word32, h]
  rfl

theorem fold_iadd (x y : BitVec 32) :
    Operator.iadd.fold (.word32 x) (.word32 y) = .word32 (x + y) :=
  fold_combine _ rfl x y

theorem fold_isub (x y : BitVec 32) :
    Operator.isub.fold (.word32 x) (.word32 y) = .word32 (x - y) :=
  fold_combine _ rfl x y

theorem fold_and (x y : BitVec 32) :
    Operator.and.fold (.word32 x) (.word32 y) = .word32 (x &&& y) :=
  fold_combine _ rfl x y

theorem fold_or (x y : BitVec 32) :
    Operator.or.fold (.word32 x) (.word32 y) = .word32 (x ||| y) :=
  fold_combine _ rfl x y

theorem fold_xor (x y : BitVec 32) :
    Operator.xor.fold (.word32 x) (.word32 y) = .word32 (x ^^^ y) :=
  fold_combine _ rfl x y

theorem cast_decide (p : Prop) [Decidable p] :
    (Constant.bool (decide p)).cast .word32 false = .word32 (ofDecision p) := by
  unfold ofDecision
  by_cases h : p <;> simp [h] <;> rfl

theorem cast_lt (x y : BitVec 32) :
    (Operator.lt.fold (.word32 x) (.word32 y)).cast .word32 false =
      .word32 (ofDecision (x.toInt < y.toInt)) := by
  rw [fold_word32]
  exact cast_decide (x.toInt < y.toInt)

theorem cast_ult (x y : BitVec 32) :
    (Operator.ult.fold (.word32 x) (.word32 y)).cast .word32 false =
      .word32 (ofDecision (x.toNat < y.toNat)) := by
  rw [fold_word32]
  exact cast_decide (x.toNat < y.toNat)

theorem fold_not (x : BitVec 32) : UnaryOperator.not.fold .word32 (.word32 x) = .word32 (~~~x) := by
  simp [UnaryOperator.fold, Constant.resize, Constant.word32]

theorem fold_shift (op : ShiftOp) (x : BitVec 32) (amount : BitVec 5) :
    op.operator.fold (.word32 x) (.word32 (amount.setWidth 32)) =
      .word32 (op.compute x amount.toNat) := by
  have ha : min (amount.setWidth 32).toNat 63 = amount.toNat := by
    have := amount.isLt
    rw [BitVec.toNat_setWidth]
    omega
  cases op <;> rw [fold_combine _ rfl, ha] <;> rfl

theorem fold_logical (op : LogicalOp) (x y : BitVec 32) :
    op.operator.fold (.word32 x) (.word32 y) = .word32 (op.compute x y) := by
  cases op with
  | andi => exact fold_and x y
  | ori => exact fold_or x y
  | xori => exact fold_xor x y

theorem low_signed (x y : BitVec 32) :
    (x.signExtend 64 * y.signExtend 64).extractLsb' 0 32 = x * y := by
  rw [← BitVec.setWidth_eq_extractLsb' (by omega), BitVec.setWidth_mul _ _ (by omega),
    Packed.setWidth_signExtend_packed (by decide), Packed.setWidth_signExtend_packed (by decide)]

theorem low_unsigned (x y : BitVec 32) :
    (x.setWidth 64 * y.setWidth 64).extractLsb' 0 32 = x * y := by
  rw [← BitVec.setWidth_eq_extractLsb' (by omega), BitVec.setWidth_mul _ _ (by omega),
    Packed.setWidth_packed (by decide), Packed.setWidth_packed (by decide)]

end Folding

section Values
variable {name : Register → Identifier} (hn : ∀ r, (name r).storage = .register r)
  {s : Machine M} (h0 : s.registers 0 = 0) (e : Surroundings M)

include hn in
theorem value?_name (r : Register) :
    (Expression.identifier (name r)).value? (s.interpretation e) =
      some (.word32 (s.registers r.number)) := by
  rw [Expression.value?_identifier, hn]
  rfl

include hn h0 in
theorem value?_operand (r : Gpr) :
    (operand name r).value? (s.interpretation e) = some (.word32 (s.registers r)) := by
  unfold operand
  by_cases h : r = zeroRegister
  · subst h
    simp [Expression.value?, zeroRegister, h0]
  · rw [if_neg h, value?_name hn]
    simp [Gpr.register]

include hn h0 in
theorem value?_pair (op : Operator) (t : DataType) (rs rt : Gpr) :
    (pair name op t rs rt).value? (s.interpretation e) =
      some (op.fold (.word32 (s.registers rs)) (.word32 (s.registers rt))) := by
  simp [pair, Expression.value?, value?_operand hn h0]

include hn h0 in
theorem value?_pairOrMove {op : Operator} (hl : ∀ x, op.fold (.word32 0) (.word32 x) = .word32 x)
    (hr : ∀ x, op.fold (.word32 x) (.word32 0) = .word32 x) (rs rt : Gpr) :
    (pairOrMove name op rs rt).value? (s.interpretation e) =
      some (op.fold (.word32 (s.registers rs)) (.word32 (s.registers rt))) := by
  have hz : s.registers (zeroRegister : Gpr) = 0 := h0
  unfold pairOrMove
  by_cases ht : rt = zeroRegister
  · rw [if_pos ht, value?_operand hn h0, ht, hz, hr]
  · rw [if_neg ht]
    by_cases hs : rs = zeroRegister
    · rw [if_pos hs, value?_operand hn h0, hs, hz, hl]
    · rw [if_neg hs, value?_pair hn h0]

include hn h0 in
theorem value?_place (base : Gpr) (offset : BitVec 16) :
    (place name base offset).value? (s.interpretation e) =
      some (.word32 (s.registers base + offset.signExtend 32)) := by
  unfold place
  by_cases h : base = zeroRegister
  · have hz : s.registers (zeroRegister : Gpr) = 0 := h0
    simp [h, hz, Expression.value?]
  · rw [if_neg h]
    simp only [Expression.value?, value?_operand hn h0, Option.bind_some, Option.map_some,
      fold_int32, fold_iadd]

include hn h0 in
theorem value?_shiftSource (op : ShiftOp) (rt : Gpr) (amount : BitVec 5) :
    (shiftSource name op rt amount).value? (s.interpretation e) =
      some (.word32 (op.compute (s.registers rt) amount.toNat)) := by
  simp only [shiftSource, Expression.value?, value?_operand hn h0, Option.bind_some,
    Option.map_some, fold_shift]

include hn h0 in
theorem value?_aluSource (op : AluOp) (rs rt : Gpr) :
    (aluSource name op rs rt).value? (s.interpretation e) =
      some (.word32 (op.compute (s.registers rs) (s.registers rt))) := by
  have hadd : (pairOrMove name .iadd rs rt).value? (s.interpretation e) =
      some (.word32 (s.registers rs + s.registers rt)) := by
    rw [value?_pairOrMove hn h0 e (by simp [fold_iadd]) (by simp [fold_iadd]), fold_iadd]
  have hor : (pairOrMove name .or rs rt).value? (s.interpretation e) =
      some (.word32 (s.registers rs ||| s.registers rt)) := by
    rw [value?_pairOrMove hn h0 e (by simp [fold_or]) (by simp [fold_or]), fold_or]
  cases op with
  | add => exact hadd
  | addu => exact hadd
  | or => exact hor
  | sub | subu => rw [aluSource, value?_pair hn h0, fold_isub, AluOp.compute]
  | and => rw [aluSource, value?_pair hn h0, fold_and, AluOp.compute]
  | xor => rw [aluSource, value?_pair hn h0, fold_xor, AluOp.compute]
  | nor =>
    rw [aluSource, Expression.value?, value?_pair hn h0, fold_or, Option.map_some, fold_not,
      AluOp.compute]
  | slt =>
    simp only [aluSource, ofComparison, Expression.value?, value?_pair hn h0, Option.map_some,
      cast_lt, AluOp.compute]
  | sltu =>
    simp only [aluSource, ofComparison, Expression.value?, value?_pair hn h0, Option.map_some,
      cast_ult, AluOp.compute]

include hn h0 in
theorem value?_arithmeticSource (op : ArithmeticOp) (rs : Gpr) (x : BitVec 32) :
    (arithmeticSource name op rs x).value? (s.interpretation e) =
      some (.word32 (op.compute (s.registers rs) x)) := by
  have hz : s.registers (zeroRegister : Gpr) = 0 := h0
  cases op with
  | addi | addiu =>
    unfold arithmeticSource
    by_cases h : rs = zeroRegister
    · simp [h, hz, Expression.value?, ArithmeticOp.compute]
    · simp only [h, if_false, Expression.value?, value?_operand hn h0, Option.bind_some,
        Option.map_some, fold_int32, fold_iadd, ArithmeticOp.compute]
  | slti =>
    simp only [arithmeticSource, ofComparison, Expression.value?, value?_operand hn h0,
      Option.bind_some, Option.map_some, fold_int32, cast_lt, ArithmeticOp.compute]
  | sltiu =>
    simp only [arithmeticSource, ofComparison, Expression.value?, value?_operand hn h0,
      Option.bind_some, Option.map_some, cast_ult, ArithmeticOp.compute]

include hn h0 in
theorem value?_logicalSource (op : LogicalOp) (rs : Gpr) (x : BitVec 32) :
    (logicalSource name op rs x).value? (s.interpretation e) =
      some (.word32 (op.compute (s.registers rs) x)) := by
  have hz : s.registers (zeroRegister : Gpr) = 0 := h0
  unfold logicalSource
  by_cases h : rs = zeroRegister ∧ op ≠ .andi
  · obtain ⟨hr, ho⟩ := h
    cases op <;> simp_all [Expression.value?, LogicalOp.compute]
  · rw [if_neg h]
    simp only [Expression.value?, value?_operand hn h0, Option.bind_some, Option.map_some,
      fold_logical]

include hn h0 in
theorem pattern?_load (op : LoadOp) (base : Gpr) (offset : BitVec 16) :
    (op.source (place name base offset)).pattern? (s.interpretation e) 32 =
      some (op.compute (e.load s.memory (s.registers base + offset.signExtend 32))) := by
  have hm (t : DataType) :
      (Expression.memory (place name base offset) t).value? (s.interpretation e) =
      some ⟨t, e.load s.memory (s.registers base + offset.signExtend 32) t.bits⟩ := by
    simp only [Expression.value?, value?_place hn h0, Option.bind_some]
    rfl
  have hc (t u : DataType) (signed : Bool) :
      (Expression.cast u signed (.memory (place name base offset) t)).value? (s.interpretation e) =
        some (Constant.cast ⟨t, e.load s.memory (s.registers base + offset.signExtend 32) t.bits⟩
          u signed) := by
    rw [Expression.value?, hm, Option.map_some]
  cases op with
  | lw => rw [LoadOp.source, Expression.pattern?, hm]; rfl
  | lb | lbu | lh | lhu => rw [LoadOp.source, Expression.pattern?, hc]; rfl

include hn h0 in
theorem value?_halves {op : ProductOp} (rs rt : Gpr) (hp : e.ReadsProducts)
    (hd : op.divides → s.registers rt ≠ 0) :
    let halves := op.halves (operand name rs) (operand name rt)
    let product := op.compute (s.registers rs) (s.registers rt)
    halves.1.value? (s.interpretation e) = some (.word32 product.1) ∧
      halves.2.value? (s.interpretation e) = some (.word32 product.2) := by
  have happ (function : String) :
      (Expression.application function [operand name rs, operand name rt] .word32).value?
          (s.interpretation e) =
        some (.word32 (e.intrinsic function
          [.word32 (s.registers rs), .word32 (s.registers rt)] .word32)) := by
    simp only [Expression.value?, Expression.values?, value?_operand hn h0]
    rfl
  have hbin (operator : Operator) := value?_pair hn h0 e operator .word32 rs rt
  unfold pair at hbin
  cases op with
  | mult =>
    refine ⟨?_, ?_⟩
    · simp only [ProductOp.halves, ProductOp.compute, hbin, low_signed]
      exact congrArg some (fold_combine _ rfl _ _)
    · simp only [ProductOp.halves, ProductOp.compute, happ, hp.signed]
  | multu =>
    refine ⟨?_, ?_⟩
    · simp only [ProductOp.halves, ProductOp.compute, hbin, low_unsigned]
      exact congrArg some (fold_combine _ rfl _ _)
    · simp only [ProductOp.halves, ProductOp.compute, happ, hp.unsigned]
  | div =>
    have hy : s.registers rt ≠ 0 := hd rfl
    refine ⟨?_, ?_⟩
    · simp only [ProductOp.halves, ProductOp.compute, hbin, ofInt_tdiv]
      exact congrArg some (fold_combine _ rfl _ _)
    · simp only [ProductOp.halves, ProductOp.compute, hbin, ofInt_tmod, fold_combine .smod rfl]
      rw [Operator.combineWords, if_neg hy]
  | divu =>
    have hy : s.registers rt ≠ 0 := hd rfl
    refine ⟨?_, ?_⟩
    · simp only [ProductOp.halves, ProductOp.compute, hbin, ofNat_div]
      exact congrArg some (fold_combine _ rfl _ _)
    · simp only [ProductOp.halves, ProductOp.compute, hbin, ofNat_mod, fold_combine .umod rfl]
      rw [Operator.combineWords, if_neg hy]

end Values

end RegisterTransfer.Mips
