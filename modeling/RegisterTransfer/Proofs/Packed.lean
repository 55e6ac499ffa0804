import Mathlib.Algebra.Group.Int.Defs
import Mathlib.Algebra.Group.Nat.Defs
import RegisterTransfer.Operator

/-!
Evaluation in registers of 64 bits. A literal of any type fills the low bits of a register, and what
the operations of the machine cannot do is a fault. No fault is reached, and the outcome is that of
evaluation at the literal's own width.
-/

namespace RegisterTransfer

structure Packed where
  dataType : DataType
  register : BitVec 64
deriving DecidableEq

def Constant.packed (c : Constant) : Packed := ⟨c.dataType, c.value.setWidth 64⟩

namespace Packed

def difference? (m n : Nat) : Option Nat := if n ≤ m then some (m - n) else none

def decrement? (x : BitVec 64) : Option (BitVec 64) := if x = 0 then none else some (x - 1)

def shiftLeft? (x : BitVec 64) (n : Nat) : Option (BitVec 64) :=
  if n < 64 then some (x <<< n) else none

def shiftRight? (x : BitVec 64) (n : Nat) : Option (BitVec 64) :=
  if n < 64 then some (x >>> n) else none

def signedShiftRight? (x : BitVec 64) (n : Nat) : Option (BitVec 64) :=
  if n < 64 then some (x.sshiftRight n) else none

def signedQuotient? (x y : BitVec 64) : Option (BitVec 64) :=
  if y = 0 then none else some (x.sdiv y)

def signedRemainder? (x y : BitVec 64) : Option (BitVec 64) :=
  if y = 0 then none else some (x.srem y)

def quotient? (x y : BitVec 64) : Option (BitVec 64) := if y = 0 then none else some (x / y)

def remainder? (x y : BitVec 64) : Option (BitVec 64) := if y = 0 then none else some (x % y)

def mask? (t : DataType) : Option (BitVec 64) :=
  if t.bits = 64 then some (BitVec.allOnes 64) else (shiftLeft? 1 t.bits).bind decrement?

def truncated? (t : DataType) (x : BitVec 64) : Option Packed :=
  (mask? t).map fun mask => ⟨t, x &&& mask⟩

def signed? (c : Packed) : Option (BitVec 64) :=
  if 64 ≤ c.dataType.bits then some c.register
  else do
    let unused ← difference? 64 c.dataType.bits
    let raised ← shiftLeft? c.register unused
    signedShiftRight? raised unused

def shiftAmount (c : Packed) : Nat := min (c.register.setWidth 32).toNat 63

def compareRegisters (x y sx sy : BitVec 64) : Operator → Bool
  | .eq => x == y
  | .ne => x != y
  | .lt => sx.slt sy
  | .le => sx.sle sy
  | .gt => sy.slt sx
  | .ge => sy.sle sx
  | .ult => x.ult y
  | .uge => y.ule x
  | _ => false

def combineRegisters? (width : Nat) (x y sx sy : BitVec 64) (amount : Nat) :
    Operator → Option (BitVec 64)
  | .iadd => some (x + y)
  | .isub => some (x - y)
  | .imul | .umul => some (x * y)
  | .sdiv => if sy = 0 then some 0 else signedQuotient? sx sy
  | .udiv => some ((quotient? x y).getD 0)
  | .smod => if sy = 0 then some 0 else signedRemainder? sx sy
  | .umod => some ((remainder? x y).getD 0)
  | .and => some (x &&& y)
  | .or => some (x ||| y)
  | .xor => some (x ^^^ y)
  | .shl => if width ≤ amount then some 0 else shiftLeft? x amount
  | .shr => if width ≤ amount then some 0 else shiftRight? x amount
  | .sar => (difference? width 1).bind fun last => signedShiftRight? sx (min amount last)
  | _ => some 0

def fold? (op : Operator) (a b : Packed) : Option Packed := do
  let y := b.register &&& (← mask? a.dataType)
  let sx ← a.signed?
  let sy ← (← truncated? a.dataType y).signed?
  if op.isComparison then
    truncated? .bool ((BitVec.ofBool (compareRegisters a.register y sx sy op)).setWidth 64)
  else
    let x ← combineRegisters? a.dataType.bits a.register y sx sy b.shiftAmount op
    truncated? a.dataType x

theorem mask?_eq (t : DataType) : mask? t = some ((BitVec.allOnes t.bits).setWidth 64) := by
  cases t <;> rfl

theorem and_mask {w : Nat} (x : BitVec 64) :
    x &&& (BitVec.allOnes w).setWidth 64 = (x.setWidth w).setWidth 64 := by
  ext i hi
  by_cases h : i < w <;> simp [h, hi]

theorem truncated?_eq (t : DataType) (x : BitVec 64) :
    truncated? t x = some (Constant.packed ⟨t, x.setWidth t.bits⟩) := by
  unfold truncated? Constant.packed
  rw [mask?_eq, Option.map_some, and_mask]

theorem sshiftRight_min {w : Nat} (hw : 0 < w) (x : BitVec w) (n : Nat) :
    x.sshiftRight (min n (w - 1)) = x.sshiftRight n := by
  by_cases h : n < w
  · rw [Nat.min_eq_left (by omega)]
  · rw [Nat.min_eq_right (by omega)]
    ext i hi
    -- Of the last bit of `x` and what follows it, all is the sign.
    have hmsb := BitVec.msb_eq_getLsbD_last x
    rw [BitVec.getElem_sshiftRight, BitVec.getElem_sshiftRight]
    by_cases h0 : i = 0
    · subst h0
      rw [Nat.add_zero, Nat.add_zero, dif_pos (Nat.sub_lt hw Nat.one_pos), dif_neg h, hmsb,
        BitVec.getLsbD_eq_getElem (Nat.sub_lt hw Nat.one_pos)]
    · have hge : ¬w - 1 + i < w := by omega
      have hge' : ¬n + i < w := by omega
      simp [hge, hge']

section Width
variable {w : Nat} (h : w ≤ 64) (x y : BitVec w)

theorem setWidth_eq_of_toNat {v : BitVec 64} {z : BitVec w} (hv : v.toNat = z.toNat) :
    v.setWidth w = z := by
  rw [← BitVec.toNat_inj, BitVec.toNat_setWidth, hv, Nat.mod_eq_of_lt z.isLt]

include h

theorem setWidth_packed : (x.setWidth 64).setWidth w = x := by
  rw [BitVec.setWidth_setWidth_of_le _ h, BitVec.setWidth_eq]

theorem sshiftRight_shiftLeft (hw : 0 < w) :
    ((x.setWidth 64) <<< (64 - w)).sshiftRight (64 - w) = x.signExtend 64 := by
  have hmsb : ((x.setWidth 64) <<< (64 - w)).msb = x.msb := by
    rw [BitVec.msb_eq_getLsbD_last, BitVec.msb_eq_getLsbD_last, BitVec.getLsbD_shiftLeft]
    have hlast : 64 - 1 - (64 - w) = w - 1 := by omega
    have hnot : ¬64 - 1 < 64 - w := by omega
    rw [hlast]
    simp [hnot]
    omega
  ext i hi
  rw [BitVec.getElem_sshiftRight, BitVec.getElem_signExtend, hmsb]
  by_cases hin : i < w
  · have hlt : 64 - w + i < 64 := by omega
    simp [hin, hlt, BitVec.getElem_shiftLeft]
  · have hlt : ¬64 - w + i < 64 := by omega
    simp [hin, hlt]

theorem setWidth_signExtend_packed : (x.signExtend 64).setWidth w = x := by
  ext i hi
  have hlt : i < 64 := by omega
  simp [hi, hlt, BitVec.getElem_signExtend]

theorem setWidth_sub_packed :
    (x.setWidth 64 - y.setWidth 64).setWidth w = x - y := by
  rw [BitVec.sub_eq_add_neg, BitVec.setWidth_add _ _ h, BitVec.setWidth_neg_of_le h,
    setWidth_packed h, setWidth_packed h, BitVec.sub_eq_add_neg]

theorem setWidth_udiv : (x.setWidth 64 / y.setWidth 64).setWidth w = x / y := by
  apply setWidth_eq_of_toNat
  rw [BitVec.toNat_udiv, BitVec.toNat_udiv, BitVec.toNat_setWidth_of_le h,
    BitVec.toNat_setWidth_of_le h]

theorem setWidth_umod : (x.setWidth 64 % y.setWidth 64).setWidth w = x % y := by
  apply setWidth_eq_of_toNat
  rw [BitVec.toNat_umod, BitVec.toNat_umod, BitVec.toNat_setWidth_of_le h,
    BitVec.toNat_setWidth_of_le h]

theorem setWidth_eq_of_toInt {v : BitVec 64} {z : BitVec w}
    (hv : z.toInt = v.toInt.bmod (2 ^ w)) : v.setWidth w = z := by
  rw [← BitVec.toInt_inj, hv, BitVec.toInt_setWidth, BitVec.toInt_eq_toNat_bmod v,
    Int.bmod_bmod_of_dvd (Nat.pow_dvd_pow 2 h)]

theorem setWidth_sdiv : ((x.signExtend 64).sdiv (y.signExtend 64)).setWidth w = x.sdiv y := by
  apply setWidth_eq_of_toInt h
  rw [BitVec.toInt_sdiv, BitVec.toInt_sdiv, BitVec.toInt_signExtend_of_le h,
    BitVec.toInt_signExtend_of_le h, Int.bmod_bmod_of_dvd (Nat.pow_dvd_pow 2 h)]

theorem setWidth_srem : ((x.signExtend 64).srem (y.signExtend 64)).setWidth w = x.srem y := by
  apply setWidth_eq_of_toInt h
  have hr : ((x.signExtend 64).srem (y.signExtend 64)).toInt = (x.srem y).toInt := by
    rw [BitVec.toInt_srem, BitVec.toInt_srem, BitVec.toInt_signExtend_of_le h,
      BitVec.toInt_signExtend_of_le h]
  rw [hr, BitVec.toInt_bmod_cancel]

theorem setWidth_sshiftRight (n : Nat) :
    ((x.signExtend 64).sshiftRight n).setWidth w = x.sshiftRight n := by
  apply setWidth_eq_of_toInt h
  have hr : ((x.signExtend 64).sshiftRight n).toInt = (x.sshiftRight n).toInt := by
    rw [BitVec.toInt_sshiftRight, BitVec.toInt_sshiftRight, BitVec.toInt_signExtend_of_le h]
  rw [hr, BitVec.toInt_bmod_cancel]

theorem setWidth_shiftLeft (n : Nat) : ((x.setWidth 64) <<< n).setWidth w = x <<< n := by
  rw [BitVec.setWidth_shiftLeft_of_le h, setWidth_packed h]

theorem setWidth_ushiftRight (n : Nat) : ((x.setWidth 64) >>> n).setWidth w = x >>> n := by
  rw [← BitVec.setWidth_ushiftRight h, setWidth_packed h]

theorem signExtend_eq_zero_iff : x.signExtend 64 = 0 ↔ x = 0 := by
  constructor
  · intro hx
    rw [← setWidth_signExtend_packed h x, hx]
    exact BitVec.setWidth_zero _ _
  · rintro rfl
    rw [← BitVec.toInt_inj, BitVec.toInt_signExtend_of_le h]
    simp

theorem setWidth_eq_zero_iff : x.setWidth 64 = 0 ↔ x = 0 := by
  constructor
  · intro hx
    rw [← setWidth_packed h x, hx]
    exact BitVec.setWidth_zero _ _
  · rintro rfl
    exact BitVec.setWidth_zero _ _

end Width

theorem signed?_packed (c : Constant) :
    c.packed.signed? = some (c.value.signExtend 64) := by
  have hle := c.dataType.bits_le
  unfold signed?
  split
  · rename_i h
    exact congrArg some (BitVec.signExtend_eq_setWidth_of_le c.value h).symm
  · rename_i h
    have hlt : 64 - c.dataType.bits < 64 := Nat.sub_lt (by decide) c.dataType.bits_pos
    have hd : difference? 64 c.packed.dataType.bits = some (64 - c.dataType.bits) := if_pos hle
    simp only [hd, shiftLeft?, signedShiftRight?, if_pos hlt, Option.bind_eq_bind,
      Option.bind_some]
    exact congrArg some (sshiftRight_shiftLeft hle c.value c.dataType.bits_pos)

theorem shiftAmount_packed (c : Constant) : c.packed.shiftAmount = Operator.shiftAmount c := by
  unfold shiftAmount Operator.shiftAmount Constant.resize Constant.packed
  rw [BitVec.setWidth_setWidth_of_le _ (by omega)]

theorem combineRegisters?_eq (t : DataType) (x y : BitVec t.bits) {amount : Nat}
    (hn : amount < 64) {op : Operator} (hop : op.isComparison = false) :
    (combineRegisters? t.bits (x.setWidth 64) (y.setWidth 64) (x.signExtend 64) (y.signExtend 64)
        amount op).map (·.setWidth t.bits) =
      some (Operator.combineWords x y amount op) := by
  have h := t.bits_le
  have hx := setWidth_packed h x
  have hy := setWidth_packed h y
  have hzero : (0 : BitVec 64).setWidth t.bits = 0 := BitVec.setWidth_zero _ _
  cases op with
  | eq | ne | lt | le | gt | ge | ult | uge => cases hop
  | iadd => exact congrArg some ((BitVec.setWidth_add _ _ h).trans (by rw [hx, hy]; rfl))
  | isub => exact congrArg some (setWidth_sub_packed h x y)
  | imul | umul => exact congrArg some ((BitVec.setWidth_mul _ _ h).trans (by rw [hx, hy]; rfl))
  | and => exact congrArg some (BitVec.setWidth_and.trans (by rw [hx, hy]; rfl))
  | or => exact congrArg some (BitVec.setWidth_or.trans (by rw [hx, hy]; rfl))
  | xor => exact congrArg some (BitVec.setWidth_xor.trans (by rw [hx, hy]; rfl))
  | sdiv =>
    simp only [combineRegisters?, signedQuotient?, signExtend_eq_zero_iff h, Operator.combineWords]
    split
    · rename_i hy0
      rw [hy0, Option.map_some, hzero]
      simp
    · rw [Option.map_some, setWidth_sdiv h]
  | smod =>
    simp only [combineRegisters?, signedRemainder?, signExtend_eq_zero_iff h,
      Operator.combineWords]
    split
    · rw [Option.map_some, hzero]
    · rw [Option.map_some, setWidth_srem h]
  | udiv =>
    simp only [combineRegisters?, quotient?, setWidth_eq_zero_iff h, Operator.combineWords,
      Option.map_some]
    split
    · rename_i hy0
      rw [hy0, Option.getD_none, hzero]
      exact congrArg some BitVec.udiv_zero.symm
    · rw [Option.getD_some, setWidth_udiv h]
  | umod =>
    simp only [combineRegisters?, remainder?, setWidth_eq_zero_iff h, Operator.combineWords,
      Option.map_some]
    split
    · rw [Option.getD_none, hzero]
    · rw [Option.getD_some, setWidth_umod h]
  | shl =>
    simp only [combineRegisters?, shiftLeft?, if_pos hn, Operator.combineWords]
    split
    · rename_i hle
      rw [Option.map_some, hzero, BitVec.shiftLeft_eq_zero hle]
      rfl
    · rw [Option.map_some, setWidth_shiftLeft h]
  | shr =>
    simp only [combineRegisters?, shiftRight?, if_pos hn, Operator.combineWords]
    split
    · rename_i hle
      rw [Option.map_some, hzero, BitVec.ushiftRight_eq_zero hle]
      rfl
    · rw [Option.map_some, setWidth_ushiftRight h]
  | sar =>
    have hd : difference? t.bits 1 = some (t.bits - 1) := if_pos t.bits_pos
    have hlt : min amount (t.bits - 1) < 64 := by omega
    simp only [combineRegisters?, hd, Option.bind_some, signedShiftRight?, if_pos hlt,
      Option.map_some, setWidth_sshiftRight h, Operator.combineWords]
    rw [sshiftRight_min t.bits_pos]

theorem compareRegisters_eq {w : Nat} (h : w ≤ 64) (x y : BitVec w) (op : Operator) :
    compareRegisters (x.setWidth 64) (y.setWidth 64) (x.signExtend 64) (y.signExtend 64) op =
      Operator.compareWords x y op := by
  have hnat (z : BitVec w) : (z.setWidth 64).toNat = z.toNat := BitVec.toNat_setWidth_of_le h
  have hint (z : BitVec w) : (z.signExtend 64).toInt = z.toInt := BitVec.toInt_signExtend_of_le h
  have heq : (x.setWidth 64 == y.setWidth 64) = (x == y) := by
    rw [Bool.eq_iff_iff, beq_iff_eq, beq_iff_eq, ← BitVec.toNat_inj, hnat, hnat, BitVec.toNat_inj]
  cases op <;>
    simp only [compareRegisters, Operator.compareWords, BitVec.slt, BitVec.sle, BitVec.ult,
      BitVec.ule, bne, heq, hnat, hint]

theorem fold?_packed (op : Operator) (a b : Constant) :
    fold? op a.packed b.packed = some (op.fold a b).packed := by
  obtain ⟨t, x⟩ := a
  have hle := t.bits_le
  let y := b.resize t.bits
  have hmask : b.packed.register &&& (BitVec.allOnes t.bits).setWidth 64 = y.setWidth 64 := by
    rw [and_mask]
    exact congrArg _ (BitVec.setWidth_setWidth_of_le _ hle)
  have hall : mask? (Constant.packed ⟨t, x⟩).dataType =
      some ((BitVec.allOnes t.bits).setWidth 64) := mask?_eq t
  have hy : truncated? (Constant.packed ⟨t, x⟩).dataType (y.setWidth 64) =
      some (Constant.packed ⟨t, y⟩) := by
    rw [truncated?_eq]
    exact congrArg (fun z => some (Constant.packed ⟨t, z⟩)) (setWidth_packed hle y)
  have hsx : (Constant.packed ⟨t, x⟩).signed? = some (x.signExtend 64) := signed?_packed _
  have hsy : (Constant.packed ⟨t, y⟩).signed? = some (y.signExtend 64) := signed?_packed _
  have hn : Operator.shiftAmount b < 64 := by
    unfold Operator.shiftAmount
    omega
  have hsteps : fold? op (Constant.packed ⟨t, x⟩) b.packed =
      if op.isComparison then
        truncated? .bool ((BitVec.ofBool (compareRegisters (x.setWidth 64) (y.setWidth 64)
          (x.signExtend 64) (y.signExtend 64) op)).setWidth 64)
      else
        (combineRegisters? t.bits (x.setWidth 64) (y.setWidth 64) (x.signExtend 64)
          (y.signExtend 64) b.packed.shiftAmount op).bind (truncated? t) := by
    unfold fold?
    rw [hall, hsx]
    simp only [Option.bind_eq_bind, Option.bind_some, hmask]
    rw [hy]
    simp only [Option.bind_some, hsy]
    rfl
  rw [hsteps, shiftAmount_packed]
  unfold Operator.fold
  cases hop : op.isComparison with
  | true =>
    rw [if_pos rfl, if_pos rfl, truncated?_eq, compareRegisters_eq hle,
      setWidth_packed (by decide)]
    rfl
  | false =>
    have hc := combineRegisters?_eq t x y hn hop
    obtain ⟨v, hv, hw⟩ := Option.map_eq_some_iff.mp hc
    rw [if_neg Bool.false_ne_true, if_neg Bool.false_ne_true, hv, Option.bind_some, truncated?_eq,
      hw]

end Packed

end RegisterTransfer
