import RegisterTransfer.Architecture

/-!
When the bytes at a cursor are an instruction. A cursor is moved past an instruction only after all
of its bytes have been seen, so that no instruction reaches past the end of the image.
-/

namespace RegisterTransfer

theorem Address.addOffset_natCast (a : Address) (n : Nat) :
    a.addOffset n = wrap a.bits (a.value + n) := by
  have h : ((a.value : Int) + n) % space a.bits = ((a.value + n) % space a.bits : Nat) := by
    push_cast
    rfl
  rw [addOffset, h, Int.toNat_natCast, wrap]

namespace Cursor
variable {c : Cursor}

theorem advance_advance (c : Cursor) (m n : Nat) :
    (c.advance m).advance n = c.advance (m + n) := by
  unfold advance
  rw [Nat.add_assoc]

theorem address_eq (c : Cursor) :
    c.address = .wrap c.image.base.bits (c.image.base.value + c.offset) :=
  Address.addOffset_natCast c.image.base c.offset

theorem remaining_advance (c : Cursor) (n : Nat) : (c.advance n).remaining = c.remaining - n :=
  (Nat.sub_sub c.image.size c.offset n).symm

theorem isAtEnd_eq_false_iff : c.isAtEnd = false ↔ 0 < c.remaining := by
  rw [isAtEnd, beq_eq_false_iff_ne, Nat.pos_iff_ne_zero]

theorem peekNumber_isOk_iff (hs : c.image.size ≤ maxOffset) (delta : Nat) {length : Nat}
    (hl : 0 < length) :
    (∃ n, c.peekNumber delta length = .ok n) ↔ delta + length ≤ c.remaining := by
  have hr : delta + length ≤ c.remaining ↔ c.offset + delta + length ≤ c.image.size := by
    unfold remaining
    omega
  have hstart : c.offset + delta + length ≤ c.image.size ↔
      min (c.offset + delta) maxOffset + length ≤ c.image.size := by
    unfold maxOffset at hs ⊢
    omega
  rw [hr, hstart]
  unfold peekNumber peekBytes
  simp only
  split
  · rename_i hle
    exact iff_of_true ⟨_, rfl⟩ hle
  · rename_i hle
    apply iff_of_false _ hle
    rintro ⟨n, hn⟩
    cases hn

section
variable (hs : c.image.size ≤ maxOffset)

include hs in
theorem peek8_isOk_iff (delta : Nat) : (∃ b, c.peek8 delta = .ok b) ↔ delta + 1 ≤ c.remaining := by
  rw [← peekNumber_isOk_iff hs delta Nat.one_pos]
  unfold peek8
  cases c.peekNumber delta 1 <;> simp [Except.map]

include hs in
theorem peek16_isOk_iff (delta : Nat) :
    (∃ x, c.peek16 delta = .ok x) ↔ delta + 2 ≤ c.remaining := by
  rw [← peekNumber_isOk_iff hs delta Nat.two_pos]
  unfold peek16
  cases c.peekNumber delta 2 <;> simp [Except.map]

include hs in
theorem peek32_isOk_iff (delta : Nat) :
    (∃ w, c.peek32 delta = .ok w) ↔ delta + 4 ≤ c.remaining := by
  rw [← peekNumber_isOk_iff hs delta (Nat.succ_pos 3)]
  unfold peek32
  cases c.peekNumber delta 4 <;> simp [Except.map]

end

end Cursor

theorem toOption_eq_some_iff {ε α : Type} {x : Except ε α} {y : α} :
    x.toOption = some y ↔ x = .ok y := by
  cases x <;> simp [Except.toOption]

theorem map_eq_ok_iff {ε α β : Type} {f : α → β} {x : Except ε α} {y : β} :
    x.map f = .ok y ↔ ∃ z, x = .ok z ∧ f z = y := by
  cases x <;> simp [Except.map]

namespace Mos6502
variable {c : Cursor}

theorem decode_eq_some_iff {i : Instruction} :
    decode c = some i ↔ ∃ opcode, c.peek8 0 = .ok opcode ∧
      decodeOpcode opcode = some (i.mnemonic, i.mode) ∧ operandValue c i.mode = .ok i.value ∧
        i.address = c.address := by
  simp only [decode, Option.bind_eq_bind, Option.bind_eq_some_iff, toOption_eq_some_iff]
  constructor
  · rintro ⟨opcode, ho, ⟨mnemonic, mode⟩, hm, value, hv, hi⟩
    cases hi
    exact ⟨opcode, ho, hm, hv, rfl⟩
  · obtain ⟨a, mnemonic, mode, value⟩ := i
    rintro ⟨opcode, ho, hm, hv, rfl⟩
    exact ⟨opcode, ho, (mnemonic, mode), hm, value, hv, rfl⟩

theorem operandValue_isOk_iff (hs : c.image.size ≤ Cursor.maxOffset) (hc : 0 < c.remaining)
    (mode : Mode) : (∃ x, operandValue c mode = .ok x) ↔ mode.length ≤ c.remaining := by
  have h8 := Cursor.peek8_isOk_iff hs 1
  have h16 := Cursor.peek16_isOk_iff hs 1
  unfold operandValue
  split
  · rename_i hl
    exact iff_of_true ⟨0, rfl⟩ (by omega)
  · rename_i hl
    rw [hl, ← h8]
    cases c.peek8 1 <;> simp [Except.map]
  · have hl : mode.length = 3 := by
      cases mode <;> first | rfl | contradiction
    rw [hl, ← h16]

end Mos6502

namespace Architecture

def Malformed : Architecture → Cursor → Prop
  | .mips _, c => c.remaining < 4 ∨ ∃ w, c.peek32 0 = .ok w ∧ Mips.decode c.address w = none
  | .mos6502, c => ∃ opcode, c.peek8 0 = .ok opcode ∧
      ∀ mnemonic mode, Mos6502.decodeOpcode opcode = some (mnemonic, mode) →
        c.remaining < mode.length

theorem decode?_mips {order : ByteOrder} {c : Cursor} {i : Instruction} :
    (Architecture.mips order).decode? c = some i ↔
      ∃ w op, c.peek32 0 = .ok w ∧ Mips.decode c.address w = some op ∧
        i = .mips ⟨c.address, op⟩ := by
  simp only [decode?, Option.bind_eq_bind, Option.bind_eq_some_iff, toOption_eq_some_iff]
  constructor
  · rintro ⟨w, hw, op, hop, hi⟩
    cases hi
    exact ⟨w, op, hw, hop, rfl⟩
  · rintro ⟨w, op, hw, hop, rfl⟩
    exact ⟨w, hw, op, hop, rfl⟩

theorem decode?_mos6502 {c : Cursor} {i : Instruction} :
    Architecture.mos6502.decode? c = some i ↔ ∃ j, Mos6502.decode c = some j ∧ i = .mos6502 j := by
  rw [decode?, Option.map_eq_some_iff]
  simp only [eq_comm (b := i)]

section
variable {a : Architecture} {c : Cursor} {i : Instruction}

theorem address_of_decode? (h : a.decode? c = some i) : i.address = c.address := by
  cases a with
  | mips order =>
    obtain ⟨w, op, -, -, rfl⟩ := decode?_mips.mp h
    rfl
  | mos6502 =>
    obtain ⟨j, hj, rfl⟩ := decode?_mos6502.mp h
    obtain ⟨opcode, -, -, -, ha⟩ := Mos6502.decode_eq_some_iff.mp hj
    exact ha

theorem length_le_of_decode? (hs : c.image.size ≤ Cursor.maxOffset) (h : a.decode? c = some i) :
    i.length ≤ c.remaining := by
  cases a with
  | mips order =>
    obtain ⟨w, op, hw, -, rfl⟩ := decode?_mips.mp h
    have := (Cursor.peek32_isOk_iff hs 0).mp ⟨w, hw⟩
    rwa [Nat.zero_add] at this
  | mos6502 =>
    obtain ⟨j, hj, rfl⟩ := decode?_mos6502.mp h
    obtain ⟨opcode, ho, -, hv, -⟩ := Mos6502.decode_eq_some_iff.mp hj
    have hc := (Cursor.peek8_isOk_iff hs 0).mp ⟨opcode, ho⟩
    exact (Mos6502.operandValue_isOk_iff hs (by omega) j.mode).mp ⟨j.value, hv⟩

theorem decode?_mips_eq_none_iff {order : ByteOrder} (hs : c.image.size ≤ Cursor.maxOffset) :
    (Architecture.mips order).decode? c = none ↔ (Architecture.mips order).Malformed c := by
  have h32 := Cursor.peek32_isOk_iff hs 0
  constructor
  · intro h
    by_cases hr : c.remaining < 4
    · exact .inl hr
    · obtain ⟨w, hw⟩ := h32.mpr (by omega)
      refine .inr ⟨w, hw, ?_⟩
      cases hop : Mips.decode c.address w with
      | none => rfl
      | some op =>
        rw [decode?_mips.mpr ⟨w, op, hw, hop, rfl⟩] at h
        cases h
  · intro h
    cases hd : (Architecture.mips order).decode? c with
    | none => rfl
    | some i =>
      obtain ⟨w, op, hw, hop, -⟩ := decode?_mips.mp hd
      have hr := h32.mp ⟨w, hw⟩
      cases h with
      | inl h => omega
      | inr h =>
        obtain ⟨w', hw', hop'⟩ := h
        cases hw.symm.trans hw'
        cases hop.symm.trans hop'

theorem decode?_mos6502_eq_none_iff (hs : c.image.size ≤ Cursor.maxOffset)
    (hc : 0 < c.remaining) :
    Architecture.mos6502.decode? c = none ↔ Architecture.mos6502.Malformed c := by
  constructor
  · intro h
    obtain ⟨opcode, ho⟩ := (Cursor.peek8_isOk_iff hs 0).mpr (by omega)
    refine ⟨opcode, ho, ?_⟩
    intro mnemonic mode hm
    apply Nat.lt_of_not_le
    intro hr
    obtain ⟨x, hx⟩ := (Mos6502.operandValue_isOk_iff hs hc mode).mpr hr
    have hi := Mos6502.decode_eq_some_iff (i := ⟨c.address, mnemonic, mode, x⟩).mpr
      ⟨opcode, ho, hm, hx, rfl⟩
    rw [decode?_mos6502.mpr ⟨_, hi, rfl⟩] at h
    cases h
  · rintro ⟨opcode, ho, hshort⟩
    cases hd : Architecture.mos6502.decode? c with
    | none => rfl
    | some i =>
      obtain ⟨j, hj, rfl⟩ := decode?_mos6502.mp hd
      obtain ⟨opcode', ho', hm, hx, -⟩ := Mos6502.decode_eq_some_iff.mp hj
      cases ho.symm.trans ho'
      have hr := (Mos6502.operandValue_isOk_iff hs hc j.mode).mp ⟨_, hx⟩
      have := hshort j.mnemonic j.mode hm
      omega

theorem decode?_eq_none_iff (hs : c.image.size ≤ Cursor.maxOffset) (hc : 0 < c.remaining) :
    a.decode? c = none ↔ a.Malformed c := by
  cases a with
  | mips order => exact decode?_mips_eq_none_iff hs
  | mos6502 => exact decode?_mos6502_eq_none_iff hs hc

end

end Architecture

end RegisterTransfer
