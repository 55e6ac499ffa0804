import RegisterTransfer.Proofs.ClusterForm
import RegisterTransfer.Proofs.Mips.Words
import RegisterTransfer.Proofs.Mos6502.Bytes

namespace RegisterTransfer

namespace Transfer

def GoesTo (target : Address) : Transfer → Prop
  | .goto t _ | .branch _ t _ => t = .address target
  | _ => False

def Calls (target : Address) : Transfer → Prop
  | .call t _ _ => t = .address target
  | _ => False

variable {t : Transfer} {target : Address}

theorem GoesTo.not_isData (h : t.GoesTo target) : ¬t.isData := by
  cases t <;> first | exact Bool.false_ne_true | cases h

theorem Calls.not_isData (h : t.Calls target) : ¬t.isData := by
  cases t <;> first | exact Bool.false_ne_true | cases h

end Transfer

namespace Address

theorem ptr16_toNat (v : BitVec 16) : ptr16 v.toNat = ⟨v.toNat, 16⟩ :=
  congrArg (mk · 16) (Nat.mod_eq_of_lt v.isLt)

end Address

namespace Mips

open BitField

def IsBranch (w : BitVec 32) : Prop :=
  opcode.get w ∈ [0x04, 0x05] ∨ opcode.get w ∈ [0x06, 0x07] ∧ rt.get w = 0 ∨
    opcode.get w = 0x01 ∧ rt.get w ∈ selectors

instance (w : BitVec 32) : Decidable (IsBranch w) := inferInstanceAs (Decidable (_ ∨ _))

def Operation.branchTarget? : Operation → Option Address
  | .compareBranch _ _ _ target | .signBranch _ _ target => some target
  | _ => none

section
variable {a : Address} {w : BitVec 32}

theorem branchTarget?_of_decodeSpecial :
    (decodeSpecial w).bind Operation.branchTarget? = none := by
  unfold decodeSpecial
  split
  case h_1 => split <;> rfl
  all_goals rfl

theorem branchTarget?_of_decodeRegisterImmediate :
    (decodeRegisterImmediate a w).bind Operation.branchTarget? =
      if rt.get w ∈ selectors then some (branchTarget a w) else none := by
  have hselector : (field w 16 5).toNat = rt.get w := rfl
  unfold decodeRegisterImmediate
  rw [hselector]
  split <;> simp_all [selectors, Operation.branchTarget?]

theorem branchTarget?_of_decode : (decode a w).bind Operation.branchTarget? =
    if IsBranch w then some (branchTarget a w) else none := by
  have hopcode : (field w 26 6).toNat = opcode.get w := rfl
  have hzero : rt.get w = 0 ↔ gprField w 16 = zeroRegister := (gprField_eq_zero_iff 16).symm
  unfold decode
  rw [hopcode]
  split
  case h_1 hw => simp [branchTarget?_of_decodeSpecial, IsBranch, hw]
  case h_2 hw => simp [branchTarget?_of_decodeRegisterImmediate, IsBranch, hw]
  case h_7 hw | h_8 hw =>
    by_cases hr : gprField w 16 = zeroRegister
    · simp [IsBranch, hw, hzero, hr, Operation.branchTarget?]
    · simp [IsBranch, hw, hzero, hr]
  all_goals simp_all [IsBranch, Operation.branchTarget?]

theorem decode_of_jump (hw : opcode.get w = 0x02) :
    decode a w = some (.jump (jumpTarget a w)) := by
  have hopcode : (field w 26 6).toNat = opcode.get w := rfl
  unfold decode
  rw [hopcode, hw]
  rfl

theorem decode_of_jumpAndLink (hw : opcode.get w = 0x03) :
    decode a w = some (.jumpAndLink (jumpTarget a w)) := by
  have hopcode : (field w 26 6).toNat = opcode.get w := rfl
  unfold decode
  rw [hopcode, hw]
  rfl

theorem opcode_of_decode_jump (ha : a.bits = 32) {target : Address}
    (h : decode a w = some (.jump target)) : opcode.get w = 0x02 := by
  rw [← get_word_opcode ha h]
  exact (get_jumpWord 0x02 (jumpIndex target)).1

theorem opcode_of_decode_jumpAndLink (ha : a.bits = 32) {target : Address}
    (h : decode a w = some (.jumpAndLink target)) : opcode.get w = 0x03 := by
  rw [← get_word_opcode ha h]
  exact (get_jumpWord 0x03 (jumpIndex target)).1

theorem branchTarget_value (ha : a.bits = 32) (w : BitVec 32) :
    ((branchTarget a w).value : Int) = (a.value + 4 + 4 * (field w 0 16).toInt) % 2 ^ 32 := by
  rw [branchTarget, Address.addOffset_value, ha, Int.add_assoc]
  rfl

theorem four_dvd_branchTarget (ha : a.bits = 32) (w : BitVec 32) (h : 4 ∣ a.value) :
    4 ∣ (branchTarget a w).value := by
  have hv := branchTarget_value ha w
  omega

theorem jumpTarget_value (ha : a.bits = 32) (w : BitVec 32) :
    (jumpTarget a w).value = (a.value + 4) % 2 ^ 32 / 2 ^ 28 * 2 ^ 28 + 4 * index.get w := by
  have hindex : (field w 0 26).toNat = index.get w := rfl
  have hlt : index.get w < 2 ^ 26 := (field w 0 26).isLt
  have hslot : (a.addOffset 4).value = (a.value + 4) % 2 ^ 32 := by
    have hv := Address.addOffset_value a 4
    rw [ha] at hv
    exact Int.ofNat_inj.mp hv
  have hregion : (field (.ofNat 32 (a.addOffset 4).value) 28 4).toNat =
      (a.value + 4) % 2 ^ 32 / 2 ^ 28 := by
    rw [field, BitVec.extractLsb'_toNat, BitVec.toNat_ofNat, hslot, Nat.shiftRight_eq_div_pow]
    omega
  have hspace : Address.space 32 = 2 ^ 32 := rfl
  simp only [jumpTarget, Address.ptr32, Address.wrap, toNat_append_eq, hindex, hregion, hspace,
    BitVec.toNat_zero]
  omega

theorem lift_branch {op : Operation} {target : Address} (h : op.branchTarget? = some target)
    (host : Host) (a : Address) (ws : Workspace) : ∃ before last,
      (lift host ⟨a, op⟩ ws).1 = before ++ [last] ∧ (∀ t ∈ before, t.isData) ∧
        last.GoesTo target := by
  have hslot : op.hasDelaySlot := by
    cases op <;> first | rfl | cases h
  refine ⟨linkTransfers ws.frame.nameOf a op, op.leaving ws.frame.nameOf host a, ?_,
    isData_linkTransfers a op, ?_⟩
  · rw [lift_eq]
    exact emitted_of_hasDelaySlot _ hslot host a
  · cases op with
    | compareBranch op rs rt t =>
      cases h
      simp only [Operation.leaving, compareTransfer]
      split <;> rfl
    | signBranch op rs t =>
      cases h
      rfl
    | _ => cases h

section
variable {op : Operation} {host : Host} {t : Transfer} {target : Address}

theorem operation_of_goesTo {name : Register → Identifier} (ht : t ∈ emitted name host ⟨a, op⟩)
    (hgoes : t.GoesTo target) : op.branchTarget?.isSome ∨ op = .jump target := by
  obtain ⟨hslot, rfl⟩ := eq_leaving_of_mem ht hgoes.not_isData
  cases op with
  | compareBranch | signBranch => exact .inl rfl
  | jump =>
    cases hgoes
    exact .inr rfl
  | jumpRegister rs =>
    simp only [Operation.leaving] at hgoes
    split at hgoes
    · cases hgoes
    · simp only [Transfer.GoesTo, operand] at hgoes
      split at hgoes <;> cases hgoes
  | jumpAndLink | jumpAndLinkRegister => cases hgoes
  | _ => cases hslot

theorem operation_of_calls {name : Register → Identifier} (ht : t ∈ emitted name host ⟨a, op⟩)
    (hcalls : t.Calls target) : op = .jumpAndLink target := by
  obtain ⟨hslot, rfl⟩ := eq_leaving_of_mem ht hcalls.not_isData
  cases op with
  | jumpAndLink destination =>
    simp only [Operation.leaving, Transfer.Calls, Host.callee] at hcalls
    split at hcalls <;> cases hcalls
    rfl
  | jumpAndLinkRegister rd rs =>
    simp only [Operation.leaving, Transfer.Calls, operand] at hcalls
    split at hcalls <;> cases hcalls
  | compareBranch op rs rt destination =>
    simp only [Operation.leaving, compareTransfer] at hcalls
    split at hcalls <;> cases hcalls
  | jumpRegister rs =>
    simp only [Operation.leaving] at hcalls
    split at hcalls <;> cases hcalls
  | signBranch | jump => cases hcalls
  | _ => cases hslot

theorem word_of_direct (ha : a.bits = 32) (hop : decode a w = some op) {ws : Workspace}
    (ht : t ∈ (lift host ⟨a, op⟩ ws).1) :
    (t.GoesTo target → IsBranch w ∨ opcode.get w = 0x02) ∧
      (t.Calls target → opcode.get w = 0x03) := by
  rw [lift_eq] at ht
  constructor
  · intro hgoes
    obtain hb | rfl := operation_of_goesTo ht hgoes
    · have hdecode := branchTarget?_of_decode (a := a) (w := w)
      rw [hop, Option.bind_some] at hdecode
      rw [hdecode] at hb
      left
      by_contra hw
      rw [if_neg hw] at hb
      cases hb
    · exact .inr (opcode_of_decode_jump ha hop)
  · intro hcalls
    obtain rfl := operation_of_calls ht hcalls
    exact opcode_of_decode_jumpAndLink ha hop

end

end

end Mips

namespace Mos6502

def Mnemonic.branches : List Mnemonic := [.bpl, .bmi, .bvc, .bvs, .bcc, .bcs, .bne, .beq]

theorem decodeOpcode_branch : ∀ opcode : BitVec 8, opcode.toNat % 32 = 16 →
    ∃ found ∈ decodeOpcode opcode, found.1 ∈ Mnemonic.branches ∧ found.2 = .relative := by
  decide +kernel

theorem exists_decode_of_branch {c : Cursor} {opcode d : BitVec 8} (ho : c.peek8 0 = .ok opcode)
    (h : opcode.toNat % 32 = 16) (hd : c.peek8 1 = .ok d) : ∃ i, decode c = some i ∧
      i.mnemonic ∈ Mnemonic.branches ∧ i.value = branchTarget c.address d := by
  obtain ⟨⟨mnemonic, _⟩, hm, hbranch, rfl⟩ := decodeOpcode_branch opcode h
  refine ⟨⟨c.address, mnemonic, .relative, branchTarget c.address d⟩, ?_, hbranch, rfl⟩
  exact decode_eq_some_iff.mpr ⟨opcode, ho, hm, map_eq_ok_iff.mpr ⟨d, hd, rfl⟩, rfl⟩

theorem decode_of_absolute {c : Cursor} {opcode : BitVec 8} {mnemonic : Mnemonic} {v : BitVec 16}
    (ho : c.peek8 0 = .ok opcode) (hm : decodeOpcode opcode = some (mnemonic, .absolute))
    (hv : c.peek16 1 = .ok v) : decode c = some ⟨c.address, mnemonic, .absolute, v⟩ :=
  decode_eq_some_iff.mpr ⟨opcode, ho, hm, hv, rfl⟩

theorem lift_branch {i : Instruction} (h : i.mnemonic ∈ Mnemonic.branches) (host : Host)
    (ws : Workspace) : ∃ condition,
      (lift host i ws).1 = [.branch condition (.address ⟨i.value.toNat, 16⟩) branchKind] := by
  rw [lift_eq, ← Address.ptr16_toNat]
  obtain ⟨a, mnemonic, mode, value⟩ := i
  replace h : mnemonic ∈ Mnemonic.branches := h
  cases mnemonic with
  | bpl | bmi | bvc | bvs | bcc | bcs | bne | beq => exact ⟨_, rfl⟩
  | _ => exact absurd h (by decide)

theorem lift_jmp (host : Host) (a : Address) (v : BitVec 16) (ws : Workspace) :
    (lift host ⟨a, .jmp, .absolute, v⟩ ws).1 = [.goto (.address ⟨v.toNat, 16⟩) .ofTransfer] := by
  rw [lift_eq, ← Address.ptr16_toNat]
  rfl

theorem lift_jsr (host : Host) (a : Address) (v : BitVec 16) (ws : Workspace) :
    (lift host ⟨a, .jsr, .absolute, v⟩ ws).1 =
      [.call (host.callee ⟨v.toNat, 16⟩ (a.addOffset 3)) 2 callKind] := by
  rw [lift_eq, ← Address.ptr16_toNat]
  rfl

section
variable {i : Instruction} {t : Transfer} {target : Address}

theorem mnemonic_of_goesTo {n : Names} {host : Host} (ha : i.mnemonic.admits i.mode)
    (ht : t ∈ emitted n host i) (hgoes : t.GoesTo target) :
    i.mnemonic ∈ Mnemonic.branches ∨ i.mnemonic = .jmp ∧ i.mode ≠ .indirect := by
  obtain ⟨hleaves, hlast⟩ := (emitted_formed host ha).getLast?_eq_some ht hgoes.not_isData
  obtain ⟨a, mnemonic, mode, value⟩ := i
  have hm : mnemonic ∈ Mnemonic.leaving := of_decide_eq_true hleaves
  cases mnemonic with
  | bpl | bmi | bvc | bvs | bcc | bcs | bne | beq => simp [Mnemonic.branches]
  | jmp =>
    refine .inr ⟨rfl, ?_⟩
    rintro rfl
    cases hlast
    cases hgoes
  | jsr | rts | rti =>
    cases hlast
    cases hgoes
  | _ => exact absurd hm (by decide)

theorem mnemonic_of_calls {n : Names} {host : Host} (ha : i.mnemonic.admits i.mode)
    (ht : t ∈ emitted n host i) (hcalls : t.Calls target) : i.mnemonic = .jsr := by
  obtain ⟨hleaves, hlast⟩ := (emitted_formed host ha).getLast?_eq_some ht hcalls.not_isData
  obtain ⟨a, mnemonic, mode, value⟩ := i
  have hm : mnemonic ∈ Mnemonic.leaving := of_decide_eq_true hleaves
  cases mnemonic with
  | jsr => rfl
  | bpl | bmi | bvc | bvs | bcc | bcs | bne | beq | jmp | rts | rti =>
    cases hlast
    cases hcalls
  | _ => exact absurd hm (by decide)

theorem opcode_of_direct : ∀ opcode : BitVec 8, ∀ found ∈ decodeOpcode opcode,
    (found.1 ∈ Mnemonic.branches ∨ found.1 = .jmp ∧ found.2 ≠ .indirect →
      opcode.toNat % 32 = 16 ∨ opcode = 0x4C) ∧ (found.1 = .jsr → opcode = 0x20) := by
  decide +kernel

theorem bytes_of_direct {c : Cursor} {opcode : BitVec 8} (ho : c.peek8 0 = .ok opcode)
    (hi : decode c = some i) {host : Host} {ws : Workspace} (ht : t ∈ (lift host i ws).1) :
    (t.GoesTo target → opcode.toNat % 32 = 16 ∨ opcode = 0x4C) ∧
      (t.Calls target → opcode = 0x20) := by
  obtain ⟨opcode', ho', hm, -, -⟩ := decode_eq_some_iff.mp hi
  cases ho.symm.trans ho'
  have hadmits := admits_of_decodeOpcode opcode _ hm
  obtain ⟨hgoes, hcalls⟩ := opcode_of_direct opcode _ hm
  rw [lift_eq] at ht
  exact ⟨fun h => hgoes (mnemonic_of_goesTo hadmits ht h),
    fun h => hcalls (mnemonic_of_calls hadmits ht h)⟩

end

end Mos6502

/-- A displacement counts from the instruction that follows in memory, across either end of the
space; a jump stays in the region of its delay slot. -/
theorem direct_targets_exact (host : Host) (ws : Workspace) :
    (∀ (a : Address) (w : BitVec 32), a.bits = 32 →
      (Mips.IsBranch w → ∃ op before last target, Mips.decode a w = some op ∧
        (Mips.lift host ⟨a, op⟩ ws).1 = before ++ [last] ∧ (∀ t ∈ before, t.isData) ∧
        last.GoesTo target ∧ target.Valid ∧ target.bits = 32 ∧
        (target.value : Int) = (a.value + 4 + 4 * (Mips.field w 0 16).toInt) % 2 ^ 32 ∧
        (4 ∣ a.value → 4 ∣ target.value)) ∧
      (∀ op t target, Mips.decode a w = some op → t ∈ (Mips.lift host ⟨a, op⟩ ws).1 →
        (t.GoesTo target → Mips.IsBranch w ∨ Mips.BitField.opcode.get w = 0x02) ∧
        (t.Calls target → Mips.BitField.opcode.get w = 0x03)) ∧
      ∃ target : Address, target.Valid ∧ target.bits = 32 ∧
        target.value / 2 ^ 28 = (a.value + 4) % 2 ^ 32 / 2 ^ 28 ∧
        target.value % 2 ^ 28 = 4 * Mips.BitField.index.get w ∧ 4 ∣ target.value ∧
        (Mips.BitField.opcode.get w = 0x02 → Mips.decode a w = some (.jump target) ∧
          ∃ kind, (Mips.lift host ⟨a, .jump target⟩ ws).1 = [.goto (.address target) kind]) ∧
        (Mips.BitField.opcode.get w = 0x03 → Mips.decode a w = some (.jumpAndLink target) ∧
          ∃ size kind, (Mips.lift host ⟨a, .jumpAndLink target⟩ ws).1 =
            [.call (host.callee target (a.addOffset 8)) size kind])) ∧
    ∀ (c : Cursor) (opcode : BitVec 8), c.peek8 0 = .ok opcode →
      (∀ d, opcode.toNat % 32 = 16 → c.peek8 1 = .ok d → ∃ i condition target kind,
        Mos6502.decode c = some i ∧
        (Mos6502.lift host i ws).1 = [.branch condition (.address target) kind] ∧
        target.Valid ∧ target.bits = 16 ∧
        (target.value : Int) = (c.address.value + 2 + d.toInt) % 2 ^ 16) ∧
      (∀ i t target, Mos6502.decode c = some i → t ∈ (Mos6502.lift host i ws).1 →
        (t.GoesTo target → opcode.toNat % 32 = 16 ∨ opcode = 0x4C) ∧
        (t.Calls target → opcode = 0x20)) ∧
      ∀ v, c.peek16 1 = .ok v →
        let target : Address := ⟨v.toNat, 16⟩
        target.Valid ∧
        (opcode = 0x4C → ∃ i kind, Mos6502.decode c = some i ∧
          (Mos6502.lift host i ws).1 = [.goto (.address target) kind]) ∧
        (opcode = 0x20 → ∃ i size kind, Mos6502.decode c = some i ∧
          (Mos6502.lift host i ws).1 =
            [.call (host.callee target (c.address.addOffset 3)) size kind]) := by
  refine ⟨?_, ?_⟩
  · intro a w ha
    have hjump := Mips.jumpTarget_value ha w
    have hindex : Mips.BitField.index.get w < 2 ^ 26 := (Mips.field w 0 26).isLt
    refine ⟨?_, fun op t target hop ht => Mips.word_of_direct ha hop ht, Mips.jumpTarget a w,
      Address.valid_wrap rfl _, rfl, ?_, ?_, ?_, ?_, ?_⟩
    · intro hw
      have hdecode := Mips.branchTarget?_of_decode (a := a) (w := w)
      rw [if_pos hw] at hdecode
      obtain ⟨op, hop, htarget⟩ := Option.bind_eq_some_iff.mp hdecode
      obtain ⟨before, last, hlift, hbefore, hlast⟩ := Mips.lift_branch htarget host a ws
      have hwidth : Address.isWidth a.bits := by
        rw [ha]
        rfl
      exact ⟨op, before, last, _, hop, hlift, hbefore, hlast, Address.valid_addOffset hwidth _, ha,
        Mips.branchTarget_value ha w, Mips.four_dvd_branchTarget ha w⟩
    -- The region, the place in it and the alignment are digits of the value as a whole.
    · omega
    · omega
    · omega
    · intro hw
      exact ⟨Mips.decode_of_jump hw, _, by rw [Mips.lift_eq]; rfl⟩
    · intro hw
      exact ⟨Mips.decode_of_jumpAndLink hw, _, _, by rw [Mips.lift_eq]; rfl⟩
  · intro c opcode ho
    refine ⟨?_, fun i t target hi ht => Mos6502.bytes_of_direct ho hi ht, ?_⟩
    · intro d hbranch hd
      obtain ⟨i, hi, hm, hv⟩ := Mos6502.exists_decode_of_branch ho hbranch hd
      obtain ⟨condition, hlift⟩ := Mos6502.lift_branch hm host ws
      refine ⟨i, condition, _, _, hi, hlift, ⟨rfl, i.value.isLt⟩, rfl, ?_⟩
      have htarget := Mos6502.toNat_branchTarget c.address d
      rw [← hv, ← Int.add_assoc] at htarget
      exact htarget
    · intro v hv target
      refine ⟨⟨rfl, v.isLt⟩, ?_, ?_⟩
      · rintro rfl
        exact ⟨_, _, Mos6502.decode_of_absolute ho rfl hv, Mos6502.lift_jmp host c.address v ws⟩
      · rintro rfl
        exact ⟨_, _, _, Mos6502.decode_of_absolute ho rfl hv, Mos6502.lift_jsr host c.address v ws⟩

theorem direct_targets_exact_at_boundaries :
    let host : Host := ⟨fun _ _ => none, fun _ => none⟩
    let ws : Workspace := ⟨.empty, .empty 32, []⟩
    let c : Cursor := ⟨⟨⟨0xFFFE, 16⟩, [0xD0, 0x80]⟩, 0, .little⟩
    (∃ op before last, Mips.decode ⟨0xFFFFFFFC, 32⟩ 0x14800001 = some op ∧
      (Mips.lift host ⟨⟨0xFFFFFFFC, 32⟩, op⟩ ws).1 = before ++ [last] ∧ last.GoesTo ⟨4, 32⟩) ∧
    Mips.decode ⟨0x0FFFFFFC, 32⟩ 0x0C000001 = some (.jumpAndLink ⟨0x10000004, 32⟩) ∧
    ∃ i condition kind, Mos6502.decode c = some i ∧
      (Mos6502.lift host i ws).1 = [.branch condition (.address ⟨0xFF80, 16⟩) kind] := by
  intro host ws c
  obtain ⟨hmips, hmos6502⟩ := direct_targets_exact host ws
  refine ⟨?_, ?_, ?_⟩
  · obtain ⟨op, before, last, ⟨value, bits⟩, hop, hlift, -, hlast, -, hbits, hvalue, -⟩ :=
      (hmips ⟨0xFFFFFFFC, 32⟩ 0x14800001 rfl).1 (by decide)
    obtain rfl : bits = 32 := hbits
    obtain rfl : value = 4 := Int.ofNat_inj.mp hvalue
    exact ⟨op, before, last, hop, hlift, hlast⟩
  · obtain ⟨⟨value, bits⟩, -, hbits, hregion, hindex, -, -, hjal⟩ :=
      (hmips ⟨0x0FFFFFFC, 32⟩ 0x0C000001 rfl).2.2
    obtain rfl : bits = 32 := hbits
    obtain rfl : value = 0x10000004 := by
      have hregion : value / 2 ^ 28 = 1 := hregion
      have hindex : value % 2 ^ 28 = 4 := hindex
      omega
    exact (hjal rfl).1
  · obtain ⟨i, condition, ⟨value, bits⟩, kind, hi, hlift, -, hbits, hvalue⟩ :=
      (hmos6502 c 0xD0 rfl).1 0x80 rfl rfl
    obtain rfl : bits = 16 := hbits
    obtain rfl : value = 0xFF80 := by
      have hvalue : (value : Int) = (0xFFFE + 2 + -128) % 2 ^ 16 := hvalue
      omega
    exact ⟨i, condition, kind, hi, hlift⟩

end RegisterTransfer
