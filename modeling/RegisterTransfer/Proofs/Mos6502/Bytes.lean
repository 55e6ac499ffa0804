import RegisterTransfer.Proofs.Mos6502.InstructionSet
import RegisterTransfer.Proofs.Remainder

namespace RegisterTransfer.Mos6502

def Mode.value (m : Mode) (a : Address) (n : Nat) : BitVec 16 :=
  if m = .relative then branchTarget a (.ofNat 8 n) else .ofNat 16 n

def Instruction.EncodedBy (i : Instruction) (order : ByteOrder) (bytes : List UInt8) : Prop :=
  ∃ opcode operand, bytes = opcode :: operand ∧
    (i.mode, opcode.toNat) ∈ i.mnemonic.opcodes ∧ operand.length + 1 = i.mode.length ∧
    i.mode.value i.address (order.number operand) = i.value

theorem decodeOpcode_eq_some_iff {opcode : UInt8} {mnemonic : Mnemonic} {m : Mode} :
    decodeOpcode opcode.toBitVec = some (mnemonic, m) ↔
      (m, opcode.toNat) ∈ mnemonic.opcodes := by
  constructor
  · intro h
    exact mem_opcodes opcode.toBitVec (mnemonic, m) h
  · intro h
    have hopcode : BitVec.ofNat 8 opcode.toNat = opcode.toBitVec :=
      BitVec.ofNat_toNat 8 opcode.toBitVec
    rw [← hopcode]
    exact decodeOpcode_of_mem mnemonic _ h

theorem opcode_unique : ∀ mnemonic, ∀ x ∈ Mnemonic.opcodes mnemonic, ∀ y ∈ mnemonic.opcodes,
    x.1 = y.1 → x.2 = y.2 := by
  intro mnemonic
  cases mnemonic <;> decide

section Values
variable {c : Cursor} {m : Mode} {a : Address}

theorem setWidth_ofNat_byte {n : Nat} (h : n < 256) :
    (BitVec.ofNat 8 n).setWidth 16 = .ofNat 16 n := by
  apply BitVec.eq_of_toNat_eq
  rw [BitVec.toNat_setWidth, BitVec.toNat_ofNat, BitVec.toNat_ofNat, Nat.mod_eq_of_lt h]

theorem operandValue_eq (hs : c.image.size ≤ Cursor.maxOffset) (m : Mode) :
    operandValue c m = if m.length = 1 then .ok 0
      else (c.peekNumber 1 (m.length - 1)).map (m.value c.address) := by
  unfold operandValue
  split
  case h_1 hl => rw [if_pos hl]
  case h_2 hl =>
    rw [hl, if_neg (by decide), Cursor.peek8]
    cases hn : c.peekNumber 1 1 with
    | error e => rfl
    | ok n =>
      obtain ⟨bytes, hlen, -, rfl⟩ := (Cursor.peekNumber_eq_ok_iff hs Nat.one_pos).mp hn
      have hlt := c.byteOrder.number_lt bytes
      rw [hlen] at hlt
      have hvalue := setWidth_ofNat_byte hlt
      simp only [Except.map, Mode.value, hvalue]
  case h_3 hone htwo =>
    have hl : m.length = 3 := by
      cases m <;> first | rfl | contradiction
    have hm : m ≠ .relative := by
      rintro rfl
      cases hl
    rw [hl, if_neg (by decide), Cursor.peek16]
    cases c.peekNumber 1 2 with
    | error e => rfl
    | ok n => simp only [Except.map, Mode.value, if_neg hm]

theorem operandValue_eq_ok_iff {x : BitVec 16} (hs : c.image.size ≤ Cursor.maxOffset) :
    operandValue c m = .ok x ↔
      ∃ operand : List UInt8, operand.length + 1 = m.length ∧ operand <+: c.rest.drop 1 ∧
        m.value c.address (c.byteOrder.number operand) = x := by
  rw [operandValue_eq hs]
  split
  · rename_i hl
    have hm : m ≠ .relative := by
      rintro rfl
      cases hl
    have hnil : m.value c.address (c.byteOrder.number []) = 0 := by
      rw [Mode.value, if_neg hm]
      cases c.byteOrder <;> rfl
    rw [hl]
    constructor
    · intro h
      cases h
      exact ⟨[], rfl, List.nil_prefix, hnil⟩
    · rintro ⟨operand, hlen, -, rfl⟩
      obtain rfl : operand = [] := List.length_eq_zero_iff.mp (Nat.succ.inj hlen)
      rw [hnil]
  · rename_i hl
    have hpos : 0 < m.length - 1 := by
      cases m <;> first | decide | contradiction
    rw [map_eq_ok_iff]
    simp only [Cursor.peekNumber_eq_ok_iff hs hpos]
    constructor
    · rintro ⟨_, ⟨operand, hlen, hprefix, rfl⟩, hx⟩
      exact ⟨operand, by omega, hprefix, hx⟩
    · rintro ⟨operand, hlen, hprefix, hx⟩
      exact ⟨_, ⟨operand, by omega, hprefix, rfl⟩, hx⟩

theorem decode_eq_some_iff_encodedBy {i : Instruction} (hs : c.image.size ≤ Cursor.maxOffset) :
    decode c = some i ↔
      i.address = c.address ∧ ∃ bytes, i.EncodedBy c.byteOrder bytes ∧ bytes <+: c.rest := by
  rw [decode_eq_some_iff]
  simp only [operandValue_eq_ok_iff hs]
  constructor
  · rintro ⟨opcode, ho, hm, ⟨operand, hlen, hprefix, hv⟩, ha⟩
    have hfirst : c.rest.head? = some (.ofBitVec opcode) := (Cursor.peek8_zero_eq_ok_iff hs).mp ho
    obtain ⟨tail, htail⟩ := List.head?_eq_some_iff.mp hfirst
    rw [htail, List.drop_succ_cons, List.drop_zero] at hprefix
    refine ⟨ha, _, ⟨_, operand, rfl, decodeOpcode_eq_some_iff.mp hm, hlen, ha ▸ hv⟩, ?_⟩
    rw [htail]
    exact (List.prefix_cons_inj _).mpr hprefix
  · rintro ⟨ha, _, ⟨opcode, operand, rfl, hm, hlen, hv⟩, tail, htail⟩
    have hfirst : c.rest.head? = some opcode := by
      rw [← htail]
      rfl
    refine ⟨_, (Cursor.peek8_zero_eq_ok_iff hs).mpr hfirst, decodeOpcode_eq_some_iff.mpr hm,
      ⟨operand, hlen, ?_, ha ▸ hv⟩, ha⟩
    rw [← htail]
    exact List.prefix_append operand tail

theorem space_mod (bits : Nat) (n : Int) : n % (Address.space bits : Int) % 65536 = n % 65536 := by
  apply Int.emod_emod_of_dvd
  unfold Address.space
  split <;> decide

theorem toNat_branchTarget (a : Address) (d : BitVec 8) :
    ((branchTarget a d).toNat : Int) = (a.value + (2 + d.toInt)) % 65536 := by
  rw [← space_mod a.bits, ← Address.addOffset_value]
  exact congrArg Nat.cast (BitVec.toNat_ofNat _ 16)

theorem branchTarget_injective {b d : BitVec 8} (h : branchTarget a b = branchTarget a d) :
    b = d := by
  have hb := toNat_branchTarget a b
  have hd := toNat_branchTarget a d
  rw [h] at hb
  have hlow := b.le_toInt
  have hlow' := d.le_toInt
  have hhigh := b.toInt_lt
  have hhigh' := d.toInt_lt
  apply BitVec.eq_of_toInt_eq
  omega

theorem Mode.value_injective {n k : Nat} (hn : n < 256 ^ (m.length - 1))
    (hk : k < 256 ^ (m.length - 1)) (h : m.value a n = m.value a k) : n = k := by
  unfold value at h
  split at h
  · rename_i hm
    have hbound : 256 ^ (m.length - 1) = 2 ^ 8 := by
      rw [hm]
      rfl
    rw [hbound] at hn hk
    have hbyte := congrArg BitVec.toNat (branchTarget_injective h)
    rw [BitVec.toNat_ofNat, BitVec.toNat_ofNat] at hbyte
    rwa [Nat.mod_eq_of_lt hn, Nat.mod_eq_of_lt hk] at hbyte
  · have hle : 256 ^ (m.length - 1) ≤ 2 ^ 16 := by
      cases m <;> decide
    have hword := congrArg BitVec.toNat h
    rw [BitVec.toNat_ofNat, BitVec.toNat_ofNat, Nat.mod_eq_of_lt (Nat.lt_of_lt_of_le hn hle),
      Nat.mod_eq_of_lt (Nat.lt_of_lt_of_le hk hle)] at hword
    exact hword

end Values

namespace Instruction.EncodedBy
variable {i : Instruction} {order : ByteOrder} {xs ys : List UInt8}

theorem length_eq (h : i.EncodedBy order xs) : xs.length = i.length := by
  obtain ⟨opcode, operand, rfl, -, hlen, -⟩ := h
  exact hlen

theorem unique (hx : i.EncodedBy order xs) (hy : i.EncodedBy order ys) : xs = ys := by
  obtain ⟨opcode, operand, rfl, hm, hlen, hv⟩ := hx
  obtain ⟨opcode', operand', rfl, hm', hlen', hv'⟩ := hy
  have hopcode : opcode = opcode' := UInt8.toNat_inj.mp (opcode_unique _ _ hm _ hm' rfl)
  have hlt := order.number_lt operand
  have hlt' := order.number_lt operand'
  rw [Nat.eq_sub_of_add_eq hlen] at hlt
  rw [Nat.eq_sub_of_add_eq hlen'] at hlt'
  have hnumber := Mode.value_injective hlt hlt' (hv.trans hv'.symm)
  have hoperand : operand = operand' :=
    order.number_injective (Nat.succ.inj (hlen.trans hlen'.symm)) hnumber
  rw [hopcode, hoperand]

end Instruction.EncodedBy

end RegisterTransfer.Mos6502
