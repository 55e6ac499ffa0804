import RegisterTransfer.Proofs.Mips.DataInstructions

/-!
Shifts by a register. The instruction set counts the low five bits of the register; what is emitted
counts the whole register, and nothing of the operand but its sign is left from the width on.
-/

namespace RegisterTransfer.Mips

variable {M : Type}

namespace ShiftOp

def saturated (op : ShiftOp) (x : BitVec 32) : BitVec 32 :=
  match op with
  | .sll | .srl => 0
  | .sra => if x.msb then BitVec.allOnes 32 else 0

theorem sshiftRight_of_le {n : Nat} (h : 32 ≤ n) (x : BitVec 32) :
    x.sshiftRight n = if x.msb then BitVec.allOnes 32 else 0 := by
  cases hx : x.msb with
  | true =>
    rw [BitVec.sshiftRight_eq_of_msb_true hx, BitVec.ushiftRight_eq_zero h]
    rfl
  | false =>
    rw [BitVec.sshiftRight_eq_of_msb_false hx, BitVec.ushiftRight_eq_zero h]
    rfl

theorem compute_of_le {n : Nat} (h : 32 ≤ n) (op : ShiftOp) (x : BitVec 32) :
    op.compute x n = op.saturated x := by
  cases op with
  | sll => exact BitVec.shiftLeft_eq_zero h
  | srl => exact BitVec.ushiftRight_eq_zero h
  | sra => exact sshiftRight_of_le h x

theorem compute_min (op : ShiftOp) (x : BitVec 32) (n : Nat) :
    op.compute x (min n 63) = op.compute x n := by
  by_cases h : n ≤ 63
  · rw [Nat.min_eq_left h]
  · have hmin : 32 ≤ min n 63 := by omega
    have hn : 32 ≤ n := by omega
    rw [compute_of_le hmin, compute_of_le hn]

theorem compute_eq_mod_iff (op : ShiftOp) (x : BitVec 32) (n : Nat) :
    op.compute x n = op.compute x (n % 32) ↔ n < 32 ∨ op.compute x (n % 32) = op.saturated x := by
  by_cases h : n < 32
  · rw [Nat.mod_eq_of_lt h]
    exact iff_of_true rfl (.inl h)
  · rw [compute_of_le (Nat.not_lt.mp h)]
    constructor
    · intro he
      exact .inr he.symm
    · rintro (hn | he)
      · exact absurd hn h
      · exact he.symm

end ShiftOp

theorem Machine.set_eq_set_iff {s : Machine M} {r : Gpr} {x y : BitVec 32} :
    s.set r x = s.set r y ↔ r = zeroRegister ∨ x = y := by
  constructor
  · intro h
    by_cases hr : r = zeroRegister
    · exact .inl hr
    · right
      have hx := Machine.set_self (s := s) hr x
      rw [h, Machine.set_self hr] at hx
      exact hx.symm
  · rintro (rfl | rfl)
    · rfl
    · rfl

theorem specialEffect_shiftVariable {w : BitVec 32} {op : ShiftOp} {rd rt rs : Gpr}
    (h : decodeSpecial w = some (.shiftVariable op rd rt rs)) (s : Machine M) :
    specialEffect w s = s.set rd (op.compute (s.registers rt) ((s.registers rs).toNat % 32)) := by
  simp only [decodeSpecial] at h
  simp only [specialEffect]
  split at h
  case h_1 =>
    split at h <;> cases h
  all_goals
    rename_i hc
    cases h
  all_goals
    rw [hc]
    rfl

theorem effect_shiftVariable {a : Address} {w : BitVec 32} {op : ShiftOp} {rd rt rs : Gpr}
    (h : decode a w = some (.shiftVariable op rd rt rs)) (e : Surroundings M) (s : Machine M) :
    effect e w s = s.set rd (op.compute (s.registers rt) ((s.registers rs).toNat % 32)) := by
  simp only [decode] at h
  simp only [effect]
  split at h
  case h_1 hc =>
    rw [hc]
    exact specialEffect_shiftVariable h s
  case h_2 =>
    unfold decodeRegisterImmediate at h
    split at h <;> cases h
  case h_7 | h_8 | h_16 =>
    split at h <;> cases h
  all_goals cases h

theorem fold_shiftVariable (op : ShiftOp) (x y : BitVec 32) :
    op.operator.fold (.word32 x) (.word32 y) = .word32 (op.compute x y.toNat) := by
  rw [← op.compute_min]
  cases op with
  | sll => exact fold_combine .shl rfl x y
  | srl => exact fold_combine .shr rfl x y
  | sra => exact fold_combine .sar rfl x y

section Execution
variable {name : Register → Identifier} (hn : ∀ r, (name r).storage = .register r)
  {s : Machine M} (h0 : s.registers 0 = 0) {e : Surroundings M}

include hn h0 in
theorem executeAll_shiftVariable (host : Host) (a : Address) (op : ShiftOp) (rd rt rs : Gpr) :
    executeAll (fun _ => e) (emitted name host ⟨a, .shiftVariable op rd rt rs⟩) s =
      some (s.set rd (op.compute (s.registers rt) (s.registers rs).toNat)) := by
  have hv := value?_pair hn h0 e op.operator .word32 rt rs
  rw [fold_shiftVariable] at hv
  exact (executeAll_single _ _).trans (execute_setting hn (Expression.pattern?_of_value? hv) rd)

end Execution

theorem lift_shifts_by_low_bits_iff (e : Surroundings M) (host : Host) (a : Address)
    (w : BitVec 32) (op : ShiftOp) (rd rt rs : Gpr)
    (hop : decode a w = some (.shiftVariable op rd rt rs)) (s : Machine M)
    (h0 : s.registers 0 = 0) (ws : Workspace) :
    let x := s.registers rt
    let n := (s.registers rs).toNat
    let result := executeAll (fun _ => e) (lift host ⟨a, .shiftVariable op rd rt rs⟩ ws).1 s
    result = some (s.set rd (if n < 32 then op.compute x n else op.saturated x)) ∧
      effect e w s = s.set rd (op.compute x (n % 32)) ∧
      (result = some (effect e w s) ↔
        rd = zeroRegister ∨ n < 32 ∨ op.compute x (n % 32) = op.saturated x) := by
  intro x n result
  have hn : ∀ r, (ws.frame.nameOf r).storage = .register r := ws.frame.nameOf_storage
  have hresult : result = some (s.set rd (op.compute x n)) := by
    simp only [result, lift_eq]
    exact executeAll_shiftVariable hn h0 host a op rd rt rs
  have heffect : effect e w s = s.set rd (op.compute x (n % 32)) := effect_shiftVariable hop e s
  refine ⟨?_, heffect, ?_⟩
  · rw [hresult]
    by_cases h : n < 32
    · rw [if_pos h]
    · rw [if_neg h, ShiftOp.compute_of_le (Nat.not_lt.mp h)]
  · rw [hresult, heffect, Option.some_inj, Machine.set_eq_set_iff, ShiftOp.compute_eq_mod_iff]

theorem lift_shifts_negative_word :
    let s : Machine (BitVec 32 → BitVec 8) :=
      ⟨fun n => if n = 3 then -8 else if n = 4 then 2 else 0, fun _ => 0⟩
    decode (.ptr32 0x400000) 0x00831007 = some (.shiftVariable .sra 2 3 4) ∧
      executeAll (fun _ => bytewise)
          (lift ⟨fun _ _ => none, fun _ => none⟩ ⟨.ptr32 0x400000, .shiftVariable .sra 2 3 4⟩
            ⟨.empty, .empty 32, []⟩).1 s = some (effect bytewise 0x00831007 s) ∧
      (effect bytewise 0x00831007 s).registers 2 = -2 := by
  intro s
  have hop : decode (.ptr32 0x400000) 0x00831007 = some (.shiftVariable .sra 2 3 4) := by decide
  refine ⟨hop, ?_, by decide⟩
  have h := lift_shifts_by_low_bits_iff bytewise ⟨fun _ _ => none, fun _ => none⟩ (.ptr32 0x400000)
    0x00831007 .sra 2 3 4 hop s rfl ⟨.empty, .empty 32, []⟩
  exact h.2.2.mpr (.inr (.inl (by decide)))

theorem shift_by_width_departs :
    let s : Machine (BitVec 32 → BitVec 8) :=
      ⟨fun n => if n = 3 then 1 else if n = 4 then 32 else 0, fun _ => 0⟩
    decode (.ptr32 0x400000) 0x00831004 = some (.shiftVariable .sll 2 3 4) ∧
      (executeAll (fun _ => bytewise)
          (lift ⟨fun _ _ => none, fun _ => none⟩ ⟨.ptr32 0x400000, .shiftVariable .sll 2 3 4⟩
            ⟨.empty, .empty 32, []⟩).1 s).map (·.registers 2) = some 0 ∧
      (effect bytewise 0x00831004 s).registers 2 = 1 := by
  intro s
  refine ⟨by decide, by decide, by decide⟩

end RegisterTransfer.Mips
