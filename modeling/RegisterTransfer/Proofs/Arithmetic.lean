import RegisterTransfer.Proofs.Packed

/-!
Folding against arithmetic on integers without bounds. The right operand counts modulo two to the
width of the left one, and so does the result; what the operators compare is compared exactly.
-/

namespace RegisterTransfer

section Words
variable {w : Nat} (x y : BitVec w)

theorem toNat_ofInt (z : Int) : ((BitVec.ofInt w z).toNat : Int) = z % 2 ^ w := by
  have hpow : ((2 ^ w : Nat) : Int) = 2 ^ w := Int.natCast_pow 2 w
  have hpos : 0 < 2 ^ w := Nat.two_pow_pos w
  have hne : ((2 ^ w : Nat) : Int) ≠ 0 := by omega
  rw [BitVec.toNat_ofInt, Int.toNat_of_nonneg (Int.emod_nonneg z hne), hpow]

theorem ofInt_toNat : BitVec.ofInt w x.toNat = x := by
  rw [BitVec.ofInt_natCast, BitVec.ofNat_toNat, BitVec.setWidth_eq]

theorem ofInt_tdiv : BitVec.ofInt w (x.toInt.tdiv y.toInt) = x.sdiv y := by
  rw [← BitVec.toInt_inj, BitVec.toInt_sdiv, BitVec.toInt_ofInt]

theorem ofInt_tmod : BitVec.ofInt w (x.toInt.tmod y.toInt) = x.srem y := by
  rw [← BitVec.toInt_srem, BitVec.ofInt_toInt]

theorem ofNat_div : BitVec.ofNat w (x.toNat / y.toNat) = x / y := by
  rw [← BitVec.toNat_udiv, BitVec.ofNat_toNat, BitVec.setWidth_eq]

theorem ofNat_mod : BitVec.ofNat w (x.toNat % y.toNat) = x % y := by
  rw [← BitVec.toNat_umod, BitVec.ofNat_toNat, BitVec.setWidth_eq]

theorem toNat_eq_zero_iff : x.toNat = 0 ↔ x = 0 := BitVec.toNat_inj (y := 0)

theorem sdiv_mul_add_srem : x.sdiv y * y + x.srem y = x := by
  calc
    x.sdiv y * y + x.srem y =
        BitVec.ofInt w (x.toInt.tdiv y.toInt) * BitVec.ofInt w y.toInt +
          BitVec.ofInt w (x.toInt.tmod y.toInt) := by
      rw [ofInt_tdiv, ofInt_tmod, BitVec.ofInt_toInt]
    _ = BitVec.ofInt w (x.toInt.tdiv y.toInt * y.toInt + x.toInt.tmod y.toInt) := by
      rw [BitVec.ofInt_add, BitVec.ofInt_mul]
    _ = x := by
      rw [Int.tdiv_mul_add_tmod, BitVec.ofInt_toInt]

theorem toNat_sdiv_srem : ((x.sdiv y).toNat * y.toNat + (x.srem y).toNat) % 2 ^ w = x.toNat := by
  have h := congrArg BitVec.toNat (sdiv_mul_add_srem x y)
  rwa [BitVec.toNat_add, BitVec.toNat_mul, Nat.mod_add_mod] at h

theorem toNat_udiv_umod : ((x / y).toNat * y.toNat + (x % y).toNat) % 2 ^ w = x.toNat := by
  rw [BitVec.toNat_udiv, BitVec.toNat_umod, Nat.div_add_mod', Nat.mod_eq_of_lt x.isLt]

end Words

theorem Constant.toNat_resize (c : Constant) (width : Nat) :
    (c.resize width).toNat = c.toNat % 2 ^ width :=
  BitVec.toNat_setWidth _ _

theorem Constant.bool_inj {p q : Bool} : Constant.bool p = .bool q ↔ p = q := by
  cases p <;> cases q <;> decide

namespace Operator

def isShift : Operator → Bool
  | .shl | .shr | .sar => true
  | _ => false

def signed (width x : Nat) : Int := Int.bmod x (2 ^ width)

def integer (width x y : Nat) : Operator → Int
  | .iadd => x + y
  | .isub => x - y
  | .imul | .umul => x * y
  | .sdiv => if y = 0 then 0 else (signed width x).tdiv (signed width y)
  | .udiv => if y = 0 then 0 else (x / y : Nat)
  | .smod => if y = 0 then 0 else (signed width x).tmod (signed width y)
  | .umod => if y = 0 then 0 else (x % y : Nat)
  | .and => (x &&& y : Nat)
  | .or => (x ||| y : Nat)
  | .xor => (x ^^^ y : Nat)
  | _ => 0

def relates (width x y : Nat) : Operator → Bool
  | .eq => x = y
  | .ne => x ≠ y
  | .lt => signed width x < signed width y
  | .le => signed width x ≤ signed width y
  | .gt => signed width x > signed width y
  | .ge => signed width x ≥ signed width y
  | .ult => x < y
  | .uge => x ≥ y
  | _ => false

def opposites : List (Operator × Operator) := [(.eq, .ne), (.lt, .ge), (.le, .gt), (.ult, .uge)]

theorem relates_opposite {op other : Operator} (h : (op, other) ∈ opposites) (width x y : Nat) :
    op.isComparison = true ∧ other.isComparison = true ∧
      other.relates width x y = !op.relates width x y := by
  simp only [opposites, List.mem_cons, Prod.mk.injEq, List.not_mem_nil, or_false] at h
  obtain ⟨rfl, rfl⟩ | ⟨rfl, rfl⟩ | ⟨rfl, rfl⟩ | ⟨rfl, rfl⟩ := h
  · exact ⟨rfl, rfl, decide_not⟩
  all_goals
    refine ⟨rfl, rfl, ?_⟩
    rw [relates, relates, ← decide_not, decide_eq_decide]
    omega

section Patterns
variable {w : Nat} (x y : BitVec w)

theorem signed_toNat : signed w x.toNat = x.toInt := x.toInt_eq_toNat_bmod.symm

theorem ofInt_integer {op : Operator} (hc : op.isComparison = false) (hs : op.isShift = false)
    (amount : Nat) :
    BitVec.ofInt w (op.integer w x.toNat y.toNat) = combineWords x y amount op := by
  cases op with
  | eq | ne | lt | le | gt | ge | ult | uge => cases hc
  | shl | shr | sar => cases hs
  | iadd => rw [integer, combineWords, BitVec.ofInt_add, ofInt_toNat, ofInt_toNat]
  | isub =>
    rw [integer, combineWords, Int.sub_eq_add_neg, BitVec.ofInt_add, BitVec.ofInt_neg, ofInt_toNat,
      ofInt_toNat, BitVec.sub_eq_add_neg]
  | imul | umul => rw [integer, combineWords, BitVec.ofInt_mul, ofInt_toNat, ofInt_toNat]
  | sdiv =>
    simp only [integer, combineWords, signed_toNat, toNat_eq_zero_iff]
    split
    · rename_i h
      subst h
      simp
    · exact ofInt_tdiv x y
  | smod =>
    simp only [integer, combineWords, signed_toNat, toNat_eq_zero_iff]
    split
    · exact BitVec.ofInt_natCast w 0
    · exact ofInt_tmod x y
  | udiv =>
    simp only [integer, combineWords, toNat_eq_zero_iff]
    split
    · rename_i h
      subst h
      simp
    · rw [BitVec.ofInt_natCast, ofNat_div]
  | umod =>
    simp only [integer, combineWords, toNat_eq_zero_iff]
    split
    · exact BitVec.ofInt_natCast w 0
    · rw [BitVec.ofInt_natCast, ofNat_mod]
  | and => rw [integer, combineWords, ← BitVec.toNat_and, ofInt_toNat]
  | or => rw [integer, combineWords, ← BitVec.toNat_or, ofInt_toNat]
  | xor => rw [integer, combineWords, ← BitVec.toNat_xor, ofInt_toNat]

theorem compareWords_eq (op : Operator) : compareWords x y op = op.relates w x.toNat y.toNat := by
  have heq : (x == y) = decide (x.toNat = y.toNat) := by
    rw [Bool.eq_iff_iff, beq_iff_eq, decide_eq_true_iff, BitVec.toNat_inj]
  cases op <;> simp only [compareWords, relates, signed_toNat, BitVec.slt, BitVec.sle, BitVec.ult,
    BitVec.ule, ge_iff_le, gt_iff_lt, bne, heq, decide_not]

end Patterns

section Folding
variable (a b : Constant) {op : Operator}

theorem fold_of_not_comparison (hc : op.isComparison = false) : op.fold a b =
    ⟨a.dataType, combineWords a.value (b.resize a.dataType.bits) (shiftAmount b) op⟩ := by
  unfold fold
  rw [hc]
  rfl

theorem fold_comparison (hc : op.isComparison = true) : op.fold a b =
    .bool (op.relates a.dataType.bits a.toNat (b.toNat % 2 ^ a.dataType.bits)) := by
  unfold fold
  rw [hc, ← b.toNat_resize]
  exact congrArg Constant.bool (compareWords_eq _ _ op)

theorem toNat_fold (hc : op.isComparison = false) (hs : op.isShift = false) :
    ((op.fold a b).toNat : Int) =
      op.integer a.dataType.bits a.toNat (b.toNat % 2 ^ a.dataType.bits) %
        2 ^ a.dataType.bits := by
  rw [fold_of_not_comparison a b hc, ← b.toNat_resize, ← toNat_ofInt]
  exact congrArg (fun v => (BitVec.toNat v : Int)) (ofInt_integer _ _ hc hs _).symm

end Folding

/-- Evaluation in 64-bit registers, which could fault, does not, and gives the same. -/
theorem fold_twosComplement (a b : Constant) :
    let w := a.dataType.bits
    let x := a.toNat
    let y := b.toNat % 2 ^ w
    (∀ op : Operator, op.isComparison = false → op.isShift = false →
      (op.fold a b).dataType = a.dataType ∧ (op.fold a b).toNat < 2 ^ w ∧
        ((op.fold a b).toNat : Int) = op.integer w x y % 2 ^ w) ∧
    (y ≠ 0 →
      ((udiv.fold a b).toNat * y + (umod.fold a b).toNat) % 2 ^ w = x ∧
        ((sdiv.fold a b).toNat * y + (smod.fold a b).toNat) % 2 ^ w = x) ∧
    (∀ op : Operator, op.isComparison = true → op.fold a b = .bool (op.relates w x y)) ∧
    (∀ op other p, (op, other) ∈ opposites →
      (other.fold a b = .bool p ↔ op.fold a b = .bool (!p))) ∧
    ∀ op : Operator, Packed.fold? op a.packed b.packed = some (op.fold a b).packed := by
  intro w x y
  refine ⟨?_, ?_, ?_, ?_, ?_⟩
  · intro op hc hs
    refine ⟨?_, ?_, toNat_fold a b hc hs⟩
    · rw [fold_of_not_comparison a b hc]
    · rw [fold_of_not_comparison a b hc]
      exact BitVec.isLt _
  · intro hy
    have hne : b.resize w ≠ 0 := by
      rwa [ne_eq, ← toNat_eq_zero_iff, b.toNat_resize]
    have hu := toNat_udiv_umod a.value (b.resize w)
    have hs := toNat_sdiv_srem a.value (b.resize w)
    rw [b.toNat_resize] at hu hs
    refine ⟨?_, ?_⟩
    · rw [fold_of_not_comparison a b rfl, fold_of_not_comparison a b rfl, combineWords,
        combineWords, if_neg hne]
      exact hu
    · rw [fold_of_not_comparison a b rfl, fold_of_not_comparison a b rfl, combineWords,
        combineWords, if_neg hne]
      exact hs
  · intro op hc
    exact fold_comparison a b hc
  · intro op other p h
    obtain ⟨hop, hother, hrelates⟩ := relates_opposite h w x y
    rw [fold_comparison a b hop, fold_comparison a b hother, hrelates, Constant.bool_inj,
      Constant.bool_inj, Bool.not_eq_eq_eq_not]
  · intro op
    exact Packed.fold?_packed op a b

theorem fold_twosComplement_minimum :
    let a : Constant := .int32 0x80000000
    let b : Constant := .ofNat .word64 0x5FFFFFFFF
    let y := b.toNat % 2 ^ 32
    y = 0xFFFFFFFF ∧ y ≠ 0 ∧
      ((sdiv.fold a b).toNat : Int) = sdiv.integer 32 a.toNat y % 2 ^ 32 ∧
      sdiv.integer 32 a.toNat y = 2 ^ 31 ∧
      ((sdiv.fold a b).toNat * y + (smod.fold a b).toNat) % 2 ^ 32 = a.toNat ∧
      lt.fold a b = .bool true ∧ ge.fold a b = .bool false := by
  intro a b y
  have hy : y = 0xFFFFFFFF := by decide
  have hne : y ≠ 0 := by decide
  obtain ⟨hnumbers, hquotients, hrelations, hopposites, -⟩ := fold_twosComplement a b
  have hlt : lt.fold a b = .bool true :=
    (hrelations .lt rfl).trans (congrArg Constant.bool (by decide))
  refine ⟨hy, hne, (hnumbers .sdiv rfl rfl).2.2, by decide, (hquotients hne).2, hlt, ?_⟩
  exact (hopposites .lt .ge false (by decide)).mpr hlt

end Operator

end RegisterTransfer
