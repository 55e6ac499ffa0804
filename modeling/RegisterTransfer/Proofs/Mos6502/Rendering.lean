import Mathlib.Data.List.Nodup
import RegisterTransfer.Proofs.Mos6502.Bytes
import RegisterTransfer.Proofs.Text.Hexadecimal
import RegisterTransfer.Proofs.Text.Scanning

namespace RegisterTransfer.Mos6502

def Mode.frame : Mode → String × String
  | .implied => ("", "")
  | .accumulator => ("a", "")
  | .immediate => ("#$", "")
  | .zeroPage | .absolute | .relative => ("$", "")
  | .zeroPageX | .absoluteX => ("$", ",x")
  | .zeroPageY | .absoluteY => ("$", ",y")
  | .indirect => ("($", ")")
  | .indexedIndirect => ("($", ",x)")
  | .indirectIndexed => ("($", "),y")

def Mode.digits : Mode → Nat
  | .implied | .accumulator => 0
  | .absolute | .absoluteX | .absoluteY | .indirect | .relative => 4
  | _ => 2

def Instruction.digitsText (i : Instruction) : List Char :=
  if i.mode.digits = 0 then [] else (Text.upperHex i.mode.digits i.value.toNat).toList

theorem toList_operandText (i : Instruction) :
    i.operandText.toList = i.mode.frame.1.toList ++ i.digitsText ++ i.mode.frame.2.toList := by
  obtain ⟨a, mnemonic, mode, value⟩ := i
  cases mode <;> simp [Instruction.operandText, Instruction.digitsText, Mode.frame, Mode.digits]

def Mode.written : Mode → Mode
  | .relative => .absolute
  | m => m

def Mode.marks (m : Mode) : List Char × Nat := (m.frame.1.toList ++ m.frame.2.toList, m.digits)

def writtenModes : List Mode :=
  [.implied, .accumulator, .immediate, .zeroPage, .zeroPageX, .zeroPageY, .absolute, .absoluteX,
    .absoluteY, .indirect, .indexedIndirect, .indirectIndexed]

theorem written_mem (m : Mode) : m.written ∈ writtenModes := by
  cases m <;> decide

theorem marks_written (m : Mode) : m.written.marks = m.marks := by
  cases m <;> rfl

theorem written_eq_of_marks {m n : Mode} (h : m.marks = n.marks) : m.written = n.written := by
  have hnodup : (writtenModes.map Mode.marks).Nodup := by decide +kernel
  apply List.inj_on_of_nodup_map hnodup (written_mem m) (written_mem n)
  rw [marks_written, marks_written, h]

theorem mode_unique : ∀ mnemonic, ∀ x ∈ Mnemonic.opcodes mnemonic, ∀ y ∈ mnemonic.opcodes,
    x.1.written = y.1.written → x.1 = y.1 := by
  intro mnemonic
  cases mnemonic <;> decide

theorem text_injective {m n : Mnemonic} (h : m.text = n.text) : m = n := by
  have hnodup : (Mnemonic.all.map Mnemonic.text).Nodup := by decide +kernel
  exact List.inj_on_of_nodup_map hnodup (mem_all m) (mem_all n) h

theorem tab_not_mem_text (m : Mnemonic) : '\t' ∉ m.text.toList := by
  have hall : ∀ m ∈ Mnemonic.all, '\t' ∉ m.text.toList := by decide +kernel
  exact hall m (mem_all m)

theorem frame_not_digits (m : Mode) : ∀ c ∈ m.frame.1.toList ++ m.frame.2.toList,
    Text.isUpperHexDigit c = false := by
  have hall : (m.frame.1.toList ++ m.frame.2.toList).all (!Text.isUpperHexDigit ·) = true := by
    cases m <;> rfl
  simpa only [List.all_eq_true, Bool.not_eq_true'] using hall

namespace Instruction
variable {i j : Instruction}

theorem digitsText_digits (i : Instruction) :
    ∀ c ∈ i.digitsText, Text.isUpperHexDigit c = true := by
  unfold digitsText
  split
  · intro c hc
    cases hc
  · intro c hc
    exact Text.isUpperHexDigit_of_mem_upperHex hc

theorem filter_operandText (i : Instruction) :
    i.operandText.toList.filter Text.isUpperHexDigit = i.digitsText := by
  obtain ⟨hopen, hclose⟩ := List.forall_mem_append.mp (frame_not_digits i.mode)
  have hnone : ∀ s : List Char, (∀ c ∈ s, Text.isUpperHexDigit c = false) →
      s.filter Text.isUpperHexDigit = [] := by
    intro s hs
    exact List.filter_eq_nil_iff.mpr fun c hc => by simp [hs c hc]
  rw [toList_operandText, List.filter_append, List.filter_append, hnone _ hopen, hnone _ hclose,
    List.filter_eq_self.mpr i.digitsText_digits, List.nil_append, List.append_nil]

theorem filter_not_operandText (i : Instruction) :
    i.operandText.toList.filter (!Text.isUpperHexDigit ·) =
      i.mode.frame.1.toList ++ i.mode.frame.2.toList := by
  obtain ⟨hopen, hclose⟩ := List.forall_mem_append.mp (frame_not_digits i.mode)
  have hall : ∀ s : List Char, (∀ c ∈ s, Text.isUpperHexDigit c = false) →
      s.filter (!Text.isUpperHexDigit ·) = s := by
    intro s hs
    exact List.filter_eq_self.mpr fun c hc => by simp [hs c hc]
  have hnone : i.digitsText.filter (!Text.isUpperHexDigit ·) = [] :=
    List.filter_eq_nil_iff.mpr fun c hc => by simp [i.digitsText_digits c hc]
  rw [toList_operandText, List.filter_append, List.filter_append, hall _ hopen, hall _ hclose,
    hnone, List.append_nil]

theorem EncodedBy.value_lt {order : ByteOrder} {bytes : List UInt8} (h : i.EncodedBy order bytes) :
    i.value.toNat < 16 ^ i.mode.digits := by
  obtain ⟨-, operand, -, -, hlen, hvalue⟩ := h
  by_cases hm : i.mode = .relative
  · rw [hm]
    exact i.value.isLt
  · have hlt := order.number_lt operand
    have hbound : 256 ^ operand.length ≤ 16 ^ i.mode.digits := by
      rw [Nat.eq_sub_of_add_eq hlen]
      generalize i.mode = m at hm
      cases m <;> first | exact absurd rfl hm | decide
    rw [← hvalue, Mode.value, if_neg hm, BitVec.toNat_ofNat]
    exact Nat.lt_of_le_of_lt (Nat.mod_le _ _) (Nat.lt_of_lt_of_le hlt hbound)

theorem length_digitsText (h : i.value.toNat < 16 ^ i.mode.digits) :
    i.digitsText.length = i.mode.digits := by
  unfold digitsText
  split
  · rename_i hzero
    rw [hzero]
    rfl
  · rename_i hne
    rw [String.length_toList, Text.length_upperHex_of_lt (Nat.pos_of_ne_zero hne) h]

theorem value_eq_of_digitsText (hi : i.value.toNat < 16 ^ i.mode.digits)
    (hj : j.value.toNat < 16 ^ j.mode.digits) (h : i.digitsText = j.digitsText) :
    i.value = j.value := by
  have hdigits : i.mode.digits = j.mode.digits := by
    rw [← length_digitsText hi, h, length_digitsText hj]
  apply BitVec.eq_of_toNat_eq
  unfold digitsText at h
  rw [← hdigits] at h hj
  split at h
  · rename_i hzero
    rw [hzero, Nat.pow_zero] at hi hj
    omega
  · exact Text.upperHex_injective (String.toList_inj.mp h)

def operandPart (i : Instruction) : List Char :=
  if i.mode = .implied then [] else '\t' :: i.operandText.toList

theorem toList_text (i : Instruction) :
    i.text.toList = i.mnemonic.text.toList ++ i.operandPart := by
  unfold text operandPart
  split <;> simp

theorem operandText_eq_of_operandPart (h : i.operandPart = j.operandPart) :
    i.operandText = j.operandText := by
  have himplied : ∀ k : Instruction, k.mode = .implied → k.operandText = "" := by
    intro k hk
    unfold operandText
    rw [hk]
  unfold operandPart at h
  split at h <;> split at h
  case isTrue.isTrue hi hj => rw [himplied i hi, himplied j hj]
  case isTrue.isFalse => cases h
  case isFalse.isTrue => cases h
  case isFalse.isFalse => exact String.toList_inj.mp (List.cons.inj h).2

theorem eq_of_text {c d : Cursor} (hc : c.image.size ≤ Cursor.maxOffset)
    (hd : d.image.size ≤ Cursor.maxOffset) (hi : decode c = some i) (hj : decode d = some j)
    (h : i.text = j.text) : i.mnemonic = j.mnemonic ∧ i.mode = j.mode ∧ i.value = j.value := by
  obtain ⟨-, xs, hxs, -⟩ := (decode_eq_some_iff_encodedBy hc).mp hi
  obtain ⟨-, ys, hys, -⟩ := (decode_eq_some_iff_encodedBy hd).mp hj
  have hhead : ∀ k : Instruction, ∀ c ∈ k.operandPart.head?, c = '\t' := by
    intro k c hc
    unfold operandPart at hc
    split at hc
    · cases hc
    · exact (Option.some.inj hc).symm
  have hlist := congrArg String.toList h
  rw [toList_text, toList_text] at hlist
  obtain ⟨hname, hpart⟩ := Text.append_inj_of_not_mem (tab_not_mem_text i.mnemonic)
    (tab_not_mem_text j.mnemonic) (hhead i) (hhead j) hlist
  have hmnemonic : i.mnemonic = j.mnemonic := text_injective (String.toList_inj.mp hname)
  have hoperand := operandText_eq_of_operandPart hpart
  -- No mark is a digit, so the digits and the marks can be told apart letter by letter.
  have hdigits : i.digitsText = j.digitsText := by
    rw [← filter_operandText, hoperand, filter_operandText]
  have hframe := i.filter_not_operandText
  rw [hoperand, filter_not_operandText] at hframe
  have hmarks : i.mode.marks = j.mode.marks := by
    unfold Mode.marks
    rw [← hframe, ← length_digitsText hxs.value_lt, hdigits, length_digitsText hys.value_lt]
  have hvalue := value_eq_of_digitsText hxs.value_lt hys.value_lt hdigits
  obtain ⟨opcode, -, -, hm, -⟩ := hxs
  obtain ⟨opcode', -, -, hm', -⟩ := hys
  rw [hmnemonic] at hm
  have hmode : i.mode = j.mode := mode_unique _ _ hm _ hm' (written_eq_of_marks hmarks)
  exact ⟨hmnemonic, hmode, hvalue⟩

end Instruction

end RegisterTransfer.Mos6502
