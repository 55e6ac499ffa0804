import Mathlib.Algebra.BigOperators.Group.List.Basic
import Mathlib.Data.Int.ModEq
import RegisterTransfer.Address

namespace RegisterTransfer.Address

def mask : Nat → BitVec 64
  | 16 => 0xFFFF
  | 32 => 0xFFFFFFFF
  | _ => .allOnes 64

def addMasked (a : Address) (offset : Int64) : Address :=
  ⟨((.ofNat 64 a.value + offset.toBitVec) &&& mask a.bits).toNat, a.bits⟩

def walkMasked (a : Address) (offsets : List Int64) : Address := offsets.foldl addMasked a

def walk (a : Address) (offsets : List Int64) : Address :=
  offsets.foldl (fun b d => b.addOffset d.toInt) a

def total (offsets : List Int64) : Int := (offsets.map Int64.toInt).sum

variable {a : Address}

theorem space_dvd (bits : Nat) : (space bits : Int) ∣ (2 ^ 64 : Nat) := by
  unfold space
  split <;> decide

theorem space_eq_two_pow {bits : Nat} (h : isWidth bits) : (space bits : Int) = 2 ^ bits := by
  have hbits : (bits = 16 ∨ bits = 32) ∨ bits = 64 := by
    simpa only [isWidth, Bool.or_eq_true, beq_iff_eq] using h
  obtain (rfl | rfl) | rfl := hbits <;> rfl

theorem toNat_and_mask (x : BitVec 64) (bits : Nat) :
    (x &&& mask bits).toNat = x.toNat % space bits := by
  unfold mask
  split
  next => exact Nat.and_two_pow_sub_one_eq_mod x.toNat 16
  next => exact Nat.and_two_pow_sub_one_eq_mod x.toNat 32
  next =>
    rw [BitVec.and_allOnes]
    simp only [space]
    exact (Nat.mod_eq_of_lt x.isLt).symm

theorem toNat_add_toBitVec (value : Nat) (offset : Int64) :
    ((BitVec.ofNat 64 value + offset.toBitVec).toNat : Int) =
      (value + offset.toInt) % (2 ^ 64 : Nat) := by
  have hoffset : offset.toBitVec = .ofInt 64 offset.toInt := BitVec.ofInt_toInt.symm
  rw [hoffset, ← BitVec.ofInt_natCast, ← BitVec.ofInt_add, BitVec.toNat_ofInt]
  exact Int.toNat_of_nonneg (Int.emod_nonneg _ (by decide))

theorem addMasked_eq (a : Address) (offset : Int64) :
    a.addMasked offset = a.addOffset offset.toInt := by
  -- The wrap at the end of the register does not show: the size of the space divides its own.
  have hvalue : ((a.addMasked offset).value : Int) = (a.value + offset.toInt) % space a.bits := by
    rw [addMasked, toNat_and_mask, Int.natCast_emod, toNat_add_toBitVec,
      Int.emod_emod_of_dvd _ (space_dvd a.bits)]
  rw [addOffset, ← hvalue, Int.toNat_natCast]
  rfl

example : (ptr16 2).addMasked (-4) = ptr16 0xFFFE := by decide

theorem addOffset_zero (ha : a.Valid) : a.addOffset 0 = a := by
  rw [addOffset, Int.add_zero, Int.emod_eq_of_lt (Int.natCast_nonneg _) (Int.ofNat_lt.2 ha.2),
    Int.toNat_natCast]

theorem addOffset_eq_addOffset_iff (a : Address) (d e : Int) :
    a.addOffset d = a.addOffset e ↔ d ≡ e [ZMOD space a.bits] := by
  constructor
  · intro h
    have hvalue := congrArg (fun b => (b.value : Int)) h
    simp only [addOffset_value] at hvalue
    exact Int.ModEq.add_left_cancel' _ hvalue
  · intro h
    have hvalue : (a.value + d) % (space a.bits : Int) = (a.value + e) % space a.bits :=
      h.add_left _
    rw [addOffset, addOffset, hvalue]

theorem total_cons (d : Int64) (offsets : List Int64) :
    total (d :: offsets) = d.toInt + total offsets :=
  List.sum_cons

theorem total_perm {offsets others : List Int64} (h : others.Perm offsets) :
    total others = total offsets :=
  (h.map Int64.toInt).sum_eq

theorem walkMasked_eq (a : Address) (offsets : List Int64) :
    a.walkMasked offsets = a.walk offsets := by
  unfold walkMasked walk
  congr 1
  funext b d
  exact addMasked_eq b d

theorem walk_cons (a : Address) (d : Int64) (offsets : List Int64) :
    a.walk (d :: offsets) = (a.addOffset d.toInt).walk offsets :=
  rfl

theorem walk_eq_addOffset_total (ha : a.Valid) (offsets : List Int64) :
    a.walk offsets = a.addOffset (total offsets) := by
  induction offsets generalizing a with
  | nil => exact (addOffset_zero ha).symm
  | cons d offsets ih =>
    rw [walk_cons, ih (valid_addOffset ha.1 d.toInt), addOffset_addOffset, total_cons]

theorem Valid.walk (ha : a.Valid) (offsets : List Int64) : (a.walk offsets).Valid := by
  rw [walk_eq_addOffset_total ha]
  exact valid_addOffset ha.1 (total offsets)

theorem walk_eq_walk_iff (ha : a.Valid) (offsets others : List Int64) :
    a.walk others = a.walk offsets ↔ total others ≡ total offsets [ZMOD 2 ^ a.bits] := by
  rw [walk_eq_addOffset_total ha, walk_eq_addOffset_total ha, addOffset_eq_addOffset_iff,
    space_eq_two_pow ha.1]

theorem walk_walk_of_opposite (ha : a.Valid) {offsets back : List Int64}
    (h : total back = -total offsets) : (a.walk offsets).walk back = a := by
  rw [walk_eq_addOffset_total (ha.walk offsets), walk_eq_addOffset_total ha, addOffset_addOffset, h,
    Int.add_right_neg, addOffset_zero ha]

theorem walk_adds_at_width (ha : a.Valid) (offsets : List Int64) :
    a.walkMasked offsets = a.walk offsets ∧
    (a.walk offsets).bits = a.bits ∧
    ((a.walk offsets).value : Int) = (a.value + total offsets) % 2 ^ a.bits ∧
    (∀ before, before <+: offsets → (a.walk before).Valid) ∧
    (∀ others, others.Perm offsets → a.walk others = a.walk offsets) ∧
    (∀ back, total back = -total offsets → (a.walk offsets).walk back = a) ∧
    ∀ others, a.walk others = a.walk offsets ↔ total others ≡ total offsets [ZMOD 2 ^ a.bits] := by
  have hwalk := walk_eq_addOffset_total ha offsets
  refine ⟨walkMasked_eq a offsets, ?_, ?_, ?_, ?_, ?_, walk_eq_walk_iff ha offsets⟩
  · rw [hwalk, addOffset_bits]
  · rw [hwalk, addOffset_value, space_eq_two_pow ha.1]
  · intro before _
    exact ha.walk before
  · intro others hperm
    rw [walk_eq_walk_iff ha, total_perm hperm]
  · intro back hback
    exact walk_walk_of_opposite ha hback

theorem walk_adds_at_width_from_zero :
    let a := ptr32 0
    let offsets : List Int64 := [-1, Int64.maxValue, Int64.maxValue]
    a.Valid ∧ total offsets = 2 ^ 64 - 3 ∧ a.walkMasked offsets = a.walk offsets ∧
      ((a.walk offsets).value : Int) = (0 + (2 ^ 64 - 3)) % 2 ^ 32 ∧
      a.walk [-1] = ptr32 0xFFFFFFFF ∧ (a.walk [-1]).Valid ∧
      a.walk [Int64.maxValue, -1, Int64.maxValue] = a.walk offsets ∧
      (a.walk offsets).walk [3, Int64.minValue, Int64.minValue] = a ∧
      a.walk [-3] = a.walk offsets := by
  intro a offsets
  have ha : a.Valid := by decide
  have htotal : total offsets = 2 ^ 64 - 3 := by decide
  obtain ⟨hmasked, -, hvalue, hvalid, hperm, hback, hresidue⟩ := walk_adds_at_width ha offsets
  refine ⟨ha, htotal, hmasked, htotal ▸ hvalue, by decide, ?_, ?_, ?_, ?_⟩
  · exact hvalid [-1] (by decide)
  · exact hperm _ (.swap _ _ _)
  · exact hback _ (by decide)
  · exact (hresidue [-3]).2 (by decide)

end RegisterTransfer.Address
