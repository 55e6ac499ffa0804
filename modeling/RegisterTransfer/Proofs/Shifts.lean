import RegisterTransfer.Proofs.Arithmetic

/-!
Folding of shifts. A shift by any number of places is a product or a quotient by a power of two, and
nothing of the operand but its sign is left from its width on. Folding counts the low half of the
amount, up to 63 places, so that an amount of 64 or more may leave something.
-/

namespace RegisterTransfer.Operator

def shifted (width x n : Nat) : Operator → Int
  | .shl => (x * 2 ^ n : Nat)
  | .shr => (x / 2 ^ n : Nat)
  | .sar => signed width x / 2 ^ n
  | _ => 0

def exhausted (width x : Nat) : Operator → Int
  | .sar => if signed width x < 0 then 2 ^ width - 1 else 0
  | _ => 0

def Exhausts (width x n : Nat) : Operator → Prop
  | .shl => 2 ^ width ∣ x * 2 ^ n
  | .shr => x < 2 ^ n
  | .sar => -2 ^ n ≤ signed width x ∧ signed width x < 2 ^ n
  | _ => True

section Patterns
variable {w : Nat} (x : BitVec w) (n : Nat)

theorem ofInt_shifted {op : Operator} (hs : op.isShift = true) (y : BitVec w) :
    BitVec.ofInt w (op.shifted w x.toNat n) = combineWords x y n op := by
  cases op with
  | shl =>
    rw [shifted, combineWords, BitVec.ofInt_natCast, ← BitVec.toNat_inj, BitVec.toNat_ofNat,
      BitVec.toNat_shiftLeft, Nat.shiftLeft_eq]
  | shr =>
    rw [shifted, combineWords, ← Nat.shiftRight_eq_div_pow, ← BitVec.toNat_ushiftRight,
      ofInt_toNat]
  | sar =>
    rw [shifted, combineWords, signed_toNat, ← BitVec.ofInt_toInt (x := x.sshiftRight n),
      BitVec.toInt_sshiftRight, Int.shiftRight_eq_div_pow, Int.natCast_pow]
    rfl
  | _ => cases hs

theorem emod_shifted_of_nonneg (h : 0 ≤ x.toInt) :
    x.toInt / 2 ^ n % 2 ^ w = 0 ↔ -2 ^ n ≤ x.toInt ∧ x.toInt < 2 ^ n := by
  have hpos : (0 : Int) < 2 ^ n := Int.pow_pos (by decide)
  have hhigh : 2 * x.toInt < 2 ^ w := BitVec.two_mul_toInt_lt
  have hq : 0 ≤ x.toInt / 2 ^ n := Int.ediv_nonneg h (Int.le_of_lt hpos)
  have hle : x.toInt / 2 ^ n ≤ x.toInt := Int.ediv_le_self _ h
  have hlt : x.toInt / 2 ^ n < 1 ↔ x.toInt < 1 * 2 ^ n := Int.ediv_lt_iff_lt_mul hpos
  rw [Int.emod_eq_of_lt hq (by omega)]
  omega

theorem emod_shifted_of_neg (h : x.toInt < 0) :
    x.toInt / 2 ^ n % 2 ^ w = 2 ^ w - 1 ↔ -2 ^ n ≤ x.toInt ∧ x.toInt < 2 ^ n := by
  have hpos : (0 : Int) < 2 ^ n := Int.pow_pos (by decide)
  have hlow : -2 ^ w ≤ 2 * x.toInt := BitVec.le_two_mul_toInt
  have hq : x.toInt / 2 ^ n < 0 := Int.ediv_neg_of_neg_of_pos h hpos
  have hge : x.toInt ≤ x.toInt / 2 ^ n := by
    apply Int.le_ediv_of_mul_le hpos
    have hmul : x.toInt * 2 ^ n ≤ x.toInt * 1 :=
      Int.mul_le_mul_of_nonpos_left (Int.le_of_lt h) (by omega)
    omega
  have hone : -1 ≤ x.toInt / 2 ^ n ↔ -1 * 2 ^ n ≤ x.toInt := Int.le_ediv_iff_mul_le hpos
  rw [Int.emod_eq_add_self_emod, Int.emod_eq_of_lt (by omega) (by omega)]
  omega

theorem shifted_eq_exhausted_iff {op : Operator} (hs : op.isShift = true) :
    op.shifted w x.toNat n % 2 ^ w = op.exhausted w x.toNat ↔ op.Exhausts w x.toNat n := by
  have hpow : ((2 ^ w : Nat) : Int) = 2 ^ w := Int.natCast_pow 2 w
  cases op with
  | shl =>
    simp only [shifted, exhausted, Exhausts]
    rw [← hpow, ← Int.natCast_dvd_natCast, Int.dvd_iff_emod_eq_zero]
  | shr =>
    have hlt : x.toNat / 2 ^ n < 2 ^ w := Nat.lt_of_le_of_lt (Nat.div_le_self _ _) x.isLt
    have hzero : x.toNat / 2 ^ n = 0 ↔ x.toNat < 2 ^ n :=
      Nat.div_eq_zero_iff_lt (Nat.two_pow_pos n)
    simp only [shifted, exhausted, Exhausts]
    rw [← hpow, ← Int.natCast_emod, Nat.mod_eq_of_lt hlt, ← hzero, Int.natCast_eq_zero]
  | sar =>
    simp only [shifted, exhausted, Exhausts, signed_toNat]
    split
    · rename_i h
      exact emod_shifted_of_neg x n h
    · rename_i h
      exact emod_shifted_of_nonneg x n (Int.not_lt.mp h)
  | _ => cases hs

theorem exhausts_of_le {n : Nat} (h : w ≤ n) (op : Operator) : op.Exhausts w x.toNat n := by
  have hpow : 2 ^ w ≤ 2 ^ n := Nat.pow_le_pow_right (by decide) h
  cases op with
  | shl => exact Nat.dvd_mul_left_of_dvd (Nat.pow_dvd_pow 2 h) _
  | shr => exact Nat.lt_of_lt_of_le x.isLt hpow
  | sar =>
    have hcast (k : Nat) : ((2 ^ k : Nat) : Int) = 2 ^ k := Int.natCast_pow 2 k
    have hint : (2 : Int) ^ w ≤ 2 ^ n := by
      rw [← hcast, ← hcast]
      exact Int.ofNat_le.mpr hpow
    have hlow : -2 ^ w ≤ 2 * x.toInt := BitVec.le_two_mul_toInt
    have hhigh : 2 * x.toInt < 2 ^ w := BitVec.two_mul_toInt_lt
    simp only [Exhausts, signed_toNat]
    omega
  | _ => trivial

theorem shifted_of_le {n : Nat} (h : w ≤ n) {op : Operator} (hs : op.isShift = true) :
    op.shifted w x.toNat n % 2 ^ w = op.exhausted w x.toNat :=
  (shifted_eq_exhausted_iff x n hs).mpr (exhausts_of_le x h op)

end Patterns

theorem shiftAmount_eq (b : Constant) : shiftAmount b = min (b.toNat % 2 ^ 32) 63 := by
  unfold shiftAmount
  rw [b.toNat_resize]

theorem fold_shift {op : Operator} (hs : op.isShift = true) (a b : Constant) :
    (op.fold a b).dataType = a.dataType ∧
      ((op.fold a b).toNat : Int) =
        op.shifted a.dataType.bits a.toNat (min (b.toNat % 2 ^ 32) 63) % 2 ^ a.dataType.bits := by
  have hc : op.isComparison = false := by
    cases op with
    | shl | shr | sar => rfl
    | _ => cases hs
  rw [fold_of_not_comparison a b hc, ← shiftAmount_eq, ← toNat_ofInt]
  exact ⟨rfl, congrArg (fun v => (BitVec.toNat v : Int)) (ofInt_shifted a.value _ hs _).symm⟩

/-- Amounts below 64 are counted in full, and at widths below 64 those below two to the power of 32.
Otherwise what folding gives is right only where the places that it counts leave nothing. -/
theorem fold_shift_exact_iff {op : Operator} (hs : op.isShift = true) (a b : Constant) :
    let w := a.dataType.bits
    let n := b.toNat
    let counted := min (n % 2 ^ 32) 63
    let folded : Int := (op.fold a b).toNat
    (op.fold a b).dataType = a.dataType ∧
      folded = op.shifted w a.toNat counted % 2 ^ w ∧
      (w ≤ n → op.shifted w a.toNat n % 2 ^ w = op.exhausted w a.toNat) ∧
      (folded = op.shifted w a.toNat n % 2 ^ w ↔ n < 64 ∨ op.Exhausts w a.toNat counted) ∧
      (w < 64 → n < 2 ^ 32 → folded = op.shifted w a.toNat n % 2 ^ w) := by
  intro w n counted folded
  obtain ⟨htype, hfold⟩ := fold_shift hs a b
  have hfolded : folded = op.shifted w a.toNat counted % 2 ^ w := hfold
  have hw : w ≤ 64 := a.dataType.bits_le
  have hiff : folded = op.shifted w a.toNat n % 2 ^ w ↔
      n < 64 ∨ op.Exhausts w a.toNat counted := by
    by_cases hn : n < 64
    · have hcounted : counted = n := by omega
      rw [← hcounted]
      exact iff_of_true hfolded (.inl (hcounted ▸ hn))
    -- Past 64 places the exact shift leaves nothing, whatever the amount is.
    · have hle : w ≤ n := by omega
      have hright : op.shifted w a.toNat n % 2 ^ w = op.exhausted w a.toNat :=
        shifted_of_le a.value hle hs
      have hleft : folded = op.exhausted w a.toNat ↔ op.Exhausts w a.toNat counted := by
        rw [hfolded]
        exact shifted_eq_exhausted_iff a.value counted hs
      rw [hright, hleft, or_iff_right hn]
  refine ⟨htype, hfolded, fun h => shifted_of_le a.value h hs, hiff, ?_⟩
  intro hw hn
  rw [hiff]
  by_cases h : n < 64
  · exact .inl h
  · right
    have hcounted : w ≤ counted := by omega
    exact exhausts_of_le a.value hcounted op

theorem fold_shift_exact_negative_byte :
    let a : Constant := .byte 0x81
    let b : Constant := .ofNat .word64 (2 ^ 32 + 8)
    sar.isShift = true ∧ sar.fold a b = .byte 0xFF ∧
      ((sar.fold a b).toNat : Int) = sar.shifted 8 a.toNat b.toNat % 2 ^ 8 := by
  intro a b
  have hsar : sar.isShift = true := rfl
  have hexhausts : sar.Exhausts 8 a.toNat (min (b.toNat % 2 ^ 32) 63) :=
    exhausts_of_le a.value (by decide) sar
  obtain ⟨-, -, -, hiff, -⟩ := fold_shift_exact_iff hsar a b
  exact ⟨hsar, by decide, hiff.mpr (.inr hexhausts)⟩

theorem shift_by_own_width_departs :
    let one : Constant := .ofNat .word64 1
    let amount : Constant := .ofNat .word64 64
    shl.fold one amount = .ofNat .word64 (2 ^ 63) ∧
      shl.shifted 64 one.toNat amount.toNat % 2 ^ 64 = 0 ∧
      ((shl.fold one amount).toNat : Int) ≠ shl.shifted 64 one.toNat amount.toNat % 2 ^ 64 := by
  refine ⟨by decide, by decide, by decide⟩

end RegisterTransfer.Operator
