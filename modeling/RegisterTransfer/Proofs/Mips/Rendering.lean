import Mathlib.Data.List.Nodup
import RegisterTransfer.Mips.Decode
import RegisterTransfer.Proofs.Text.Hexadecimal
import RegisterTransfer.Proofs.Text.Scanning

namespace RegisterTransfer.Mips

def Operand.form : Operand → Operand
  | .register _ => .register zeroRegister
  | .signed _ => .signed 0
  | .unsigned _ => .unsigned 0
  | .memory _ _ => .memory zeroRegister 0
  | .address a => .address ⟨0, a.bits⟩

def Operand.gpr : Operand → Gpr
  | .register r | .memory r _ => r
  | _ => zeroRegister

def Operand.half : Operand → BitVec 16
  | .signed x | .unsigned x | .memory _ x => x
  | _ => 0

def Operand.target : Operand → Address
  | .address a => a
  | _ => default

namespace Operation

def form : Operation → Operation
  | .nop => .nop
  | .shift op .. => .shift op zeroRegister zeroRegister 0
  | .shiftVariable op .. => .shiftVariable op zeroRegister zeroRegister zeroRegister
  | .alu op .. => .alu op zeroRegister zeroRegister zeroRegister
  | .arithmetic op .. => .arithmetic op zeroRegister zeroRegister 0
  | .logical op .. => .logical op zeroRegister zeroRegister 0
  | .lui .. => .lui zeroRegister 0
  | .load op .. => .load op zeroRegister zeroRegister 0
  | .store op .. => .store op zeroRegister zeroRegister 0
  | .product op .. => .product op zeroRegister zeroRegister
  | .moveFrom source _ => .moveFrom source zeroRegister
  | .moveTo destination _ => .moveTo destination zeroRegister
  | .compareBranch op _ _ target =>
    .compareBranch op zeroRegister zeroRegister ⟨0, target.bits⟩
  | .signBranch op _ target => .signBranch op zeroRegister ⟨0, target.bits⟩
  | .jump target => .jump ⟨0, target.bits⟩
  | .jumpAndLink target => .jumpAndLink ⟨0, target.bits⟩
  | .jumpRegister _ => .jumpRegister zeroRegister
  | .jumpAndLinkRegister .. => .jumpAndLinkRegister zeroRegister zeroRegister
  | .syscall => .syscall
  | .breakpoint => .breakpoint

def fill : Operation → List Operand → Operation
  | .shift op .., [rd, rt, amount] => .shift op rd.gpr rt.gpr (amount.half.setWidth 5)
  | .shiftVariable op .., [rd, rt, rs] => .shiftVariable op rd.gpr rt.gpr rs.gpr
  | .alu op .., [rd, rs, rt] => .alu op rd.gpr rs.gpr rt.gpr
  | .arithmetic op .., [rt, rs, immediate] => .arithmetic op rt.gpr rs.gpr immediate.half
  | .logical op .., [rt, rs, immediate] => .logical op rt.gpr rs.gpr immediate.half
  | .lui .., [rt, immediate] => .lui rt.gpr immediate.half
  | .load op .., [rt, memory] => .load op rt.gpr memory.gpr memory.half
  | .store op .., [rt, memory] => .store op rt.gpr memory.gpr memory.half
  | .product op .., [rs, rt] => .product op rs.gpr rt.gpr
  | .moveFrom source _, [rd] => .moveFrom source rd.gpr
  | .moveTo destination _, [rs] => .moveTo destination rs.gpr
  | .compareBranch op .., [rs, rt, target] => .compareBranch op rs.gpr rt.gpr target.target
  | .signBranch op .., [rs, target] => .signBranch op rs.gpr target.target
  | .jump _, [target] => .jump target.target
  | .jumpAndLink _, [target] => .jumpAndLink target.target
  | .jumpRegister _, [rs] => .jumpRegister rs.gpr
  | .jumpAndLinkRegister .., [rd, rs] => .jumpAndLinkRegister rd.gpr rs.gpr
  | form, _ => form

def forms : List Operation :=
  let zero := zeroRegister
  let target : Address := ⟨0, 32⟩
  List.flatten [
    [.nop, .lui zero 0, .moveFrom .hi zero, .moveFrom .lo zero, .moveTo .hi zero, .moveTo .lo zero,
      .jump target, .jumpAndLink target, .jumpRegister zero, .jumpAndLinkRegister zero zero,
      .syscall, .breakpoint],
    [.sll, .srl, .sra].map (.shift · zero zero 0),
    [.sll, .srl, .sra].map (.shiftVariable · zero zero zero),
    [.add, .addu, .sub, .subu, .and, .or, .xor, .nor, .slt, .sltu].map (.alu · zero zero zero),
    [.addi, .addiu, .slti, .sltiu].map (.arithmetic · zero zero 0),
    [.andi, .ori, .xori].map (.logical · zero zero 0),
    [.lb, .lbu, .lh, .lhu, .lw].map (.load · zero zero 0),
    [.sb, .sh, .sw].map (.store · zero zero 0),
    [.mult, .multu, .div, .divu].map (.product · zero zero),
    [.beq, .bne].map (.compareBranch · zero zero target),
    [.blez, .bgtz, .bltz, .bgez, .bltzal, .bgezal].map (.signBranch · zero target)]

variable {op : Operation}

theorem mnemonic_form (op : Operation) : op.form.mnemonic = op.mnemonic := by
  cases op with
  | moveFrom source _ | moveTo source _ => cases source <;> rfl
  | _ => rfl

theorem operands_form (op : Operation) : op.form.operands = op.operands.map Operand.form := by
  cases op <;> rfl

theorem fill_form (op : Operation) : op.form.fill op.operands = op := by
  cases op with
  | shift op rd rt amount =>
    have hamount : (amount.setWidth 16).setWidth 5 = amount := by
      rw [BitVec.setWidth_setWidth_of_le _ (by decide), BitVec.setWidth_eq]
    exact congrArg (Operation.shift op rd rt) hamount
  | _ => rfl

theorem form_mem_forms (h : ∀ target, .address target ∈ op.operands → target.bits = 32) :
    op.form ∈ forms := by
  cases op with
  | compareBranch op rs rt target =>
    have ht : target.bits = 32 := h target (by simp [operands])
    rw [form, ht]
    cases op <;> decide +kernel
  | signBranch op rs target =>
    have ht : target.bits = 32 := h target (by simp [operands])
    rw [form, ht]
    cases op <;> decide +kernel
  | jump target | jumpAndLink target =>
    have ht : target.bits = 32 := h target (by simp [operands])
    rw [form, ht]
    decide +kernel
  | shift op | shiftVariable op | alu op | arithmetic op | logical op | load op | store op
  | product op | moveFrom op | moveTo op =>
    rw [form]
    cases op <;> decide +kernel
  | _ =>
    rw [form]
    decide +kernel

theorem nodup_mnemonics : (forms.map mnemonic).Nodup := by
  decide +kernel

theorem tab_not_mem_mnemonics : ∀ form ∈ forms, '\t' ∉ form.mnemonic.toList := by
  decide +kernel

end Operation

section Texts

theorem name_injective : ∀ r s : Gpr, r.register.name = s.register.name → r = s := by
  decide +kernel

theorem comma_not_mem_names : ∀ r : Gpr, ',' ∉ r.register.name.toList := by
  decide +kernel

theorem unsignedText_injective {m n : Nat} (h : unsignedText m = unsignedText n) : m = n := by
  unfold unsignedText at h
  exact Text.upperHex_injective ((String.append_right_inj _).mp h)

theorem mem_signedText {n : Int} {c : Char} (h : c ∈ (signedText n).toList) :
    c = '-' ∨ c = 'x' ∨ Text.isUpperHexDigit c := by
  have hunsigned : ∀ k, c ∈ (unsignedText k).toList → c = 'x' ∨ Text.isUpperHexDigit c := by
    intro k hk
    rw [unsignedText, String.toList_append] at hk
    rcases List.mem_append.mp hk with hk | hk
    · have hc : c = '0' ∨ c = 'x' := by simpa using hk
      rcases hc with rfl | rfl
      · exact .inr rfl
      · exact .inl rfl
    · exact .inr (Text.isUpperHexDigit_of_mem_upperHex hk)
  unfold signedText at h
  split at h
  · rw [String.toList_append] at h
    rcases List.mem_append.mp h with h | h
    · exact .inl (by simpa using h)
    · exact .inr (hunsigned _ h)
  · exact .inr (hunsigned _ h)

theorem signedText_injective {m n : Int} (h : signedText m = signedText n) : m = n := by
  have hsign : ∀ {j k : Nat}, "-" ++ unsignedText j ≠ unsignedText k := by
    intro j k hjk
    have hfirst := congrArg (·.toList.head?) hjk
    simp [unsignedText] at hfirst
  unfold signedText at h
  split at h <;> split at h
  · have := unsignedText_injective ((String.append_right_inj _).mp h)
    omega
  · exact absurd h hsign
  · exact absurd h.symm hsign
  · have := unsignedText_injective h
    omega

theorem not_mem_signedText {n : Int} {c : Char} (hsign : c ≠ '-') (hx : c ≠ 'x')
    (hdigit : Text.isUpperHexDigit c = false) : c ∉ (signedText n).toList := by
  intro h
  rcases mem_signedText h with h | h | h
  · exact hsign h
  · exact hx h
  · exact absurd (hdigit.symm.trans h) Bool.false_ne_true

end Texts

namespace Operand
variable {x y : Operand}

theorem eq_of_text (hform : x.form = y.form) (htext : x.text = y.text) : x = y := by
  cases x <;> cases y <;> first | cases hform; done | skip
  case register.register r s => rw [name_injective r s htext]
  case signed.signed m n => rw [BitVec.eq_of_toInt_eq (signedText_injective htext)]
  case unsigned.unsigned m n => rw [BitVec.eq_of_toNat_eq (unsignedText_injective htext)]
  case memory.memory r m s n =>
    have hopen : ∀ k : BitVec 16, '(' ∉ (signedText k.toInt).toList := fun k =>
      not_mem_signedText (by decide) (by decide) (by decide)
    have hlist := congrArg String.toList htext
    simp only [text, String.toList_append, List.append_assoc] at hlist
    obtain ⟨hoffset, hbase⟩ :=
      Text.append_inj_of_not_mem (hopen m) (hopen n) (by simp) (by simp) hlist
    have hname := List.append_cancel_right (List.append_cancel_left hbase)
    rw [name_injective r s (String.toList_inj.mp hname),
      BitVec.eq_of_toInt_eq (signedText_injective (String.toList_inj.mp hoffset))]
  case address.address a b =>
    obtain ⟨m, j⟩ := a
    obtain ⟨n, k⟩ := b
    have hbits : j = k := by
      injection hform with hform
      exact congrArg Address.bits hform
    have hvalue : m = n := Text.upperHex_injective htext
    rw [hbits, hvalue]

theorem comma_not_mem_text (x : Operand) : ',' ∉ x.text.toList := by
  have hsigned : ∀ n : Int, ',' ∉ (signedText n).toList := fun n =>
    not_mem_signedText (by decide) (by decide) (by decide)
  have hhex : ∀ width n : Nat, ',' ∉ (Text.upperHex width n).toList := by
    intro width n h
    exact absurd (Text.isUpperHexDigit_of_mem_upperHex h) (by decide)
  cases x with
  | register r => exact comma_not_mem_names r
  | signed value => exact hsigned value.toInt
  | unsigned value => simpa [text, unsignedText] using hhex 0 value.toNat
  | memory base offset =>
    simpa [text] using ⟨hsigned offset.toInt, comma_not_mem_names base⟩
  | address a => exact hhex _ a.value

end Operand

theorem operands_eq_of_text {xs ys : List Operand}
    (hform : xs.map Operand.form = ys.map Operand.form)
    (htext : xs.map Operand.text = ys.map Operand.text) : xs = ys := by
  induction xs generalizing ys with
  | nil => exact (List.map_eq_nil_iff.mp hform.symm).symm
  | cons x xs ih =>
    cases ys with
    | nil => cases hform
    | cons y ys =>
      obtain ⟨hfirst, hrest⟩ := List.cons.inj hform
      obtain ⟨hfirst', hrest'⟩ := List.cons.inj htext
      rw [Operand.eq_of_text hfirst hfirst', ih hrest hrest']

def operandsPart (operands : List Operand) : List Char :=
  match operands with
  | [] => []
  | x :: xs => '\t' :: [','].intercalate ((x :: xs).map (·.text.toList))

theorem toList_text (i : Instruction) :
    i.text.toList = i.operation.mnemonic.toList ++ operandsPart i.operation.operands := by
  unfold Instruction.text Listed.text Instruction.listed
  cases i.operation.operands with
  | nil => simp [operandsPart, Operation.mnemonic]
  | cons x xs => simp [operandsPart, Operation.mnemonic, Function.comp_def]

theorem operandsPart_injective {xs ys : List Operand} (h : operandsPart xs = operandsPart ys) :
    xs.map Operand.text = ys.map Operand.text := by
  have hcut : ∀ zs : List Operand, ∀ piece ∈ zs.map (·.text.toList), ',' ∉ piece := by
    intro zs piece hpiece
    obtain ⟨z, -, rfl⟩ := List.mem_map.mp hpiece
    exact z.comma_not_mem_text
  cases xs with
  | nil =>
    cases ys with
    | nil => rfl
    | cons y ys => cases h
  | cons x xs =>
    cases ys with
    | nil => cases h
    | cons y ys =>
      have hjoined := (List.cons.inj h).2
      have hpieces := congrArg (Text.cutAt ',') hjoined
      rw [Text.cutAt_intercalate (by simp) (hcut _), Text.cutAt_intercalate (by simp) (hcut _)]
        at hpieces
      have hstrings := congrArg (List.map String.ofList) hpieces
      simpa [List.map_map, Function.comp_def] using hstrings

section Decoded
variable {a b : Address} {v w : BitVec 32} {op op' : Operation}

theorem target_not_mem_of_decodeSpecial (h : decodeSpecial w = some op) (target : Address) :
    .address target ∉ op.operands := by
  unfold decodeSpecial at h
  split at h
  case h_1 =>
    split at h
    all_goals
      cases h
      simp [Operation.operands]
  case h_29 => cases h
  all_goals
    cases h
    simp [Operation.operands]

theorem bits_of_mem_operands (ha : a.bits = 32) (h : decode a w = some op) {target : Address}
    (ht : .address target ∈ op.operands) : target.bits = 32 := by
  have hbranch : (branchTarget a w).bits = 32 := ha
  have hjump : (jumpTarget a w).bits = 32 := rfl
  unfold decode at h
  split at h
  case h_1 => exact absurd ht (target_not_mem_of_decodeSpecial h target)
  case h_2 =>
    unfold decodeRegisterImmediate at h
    split at h
    case h_5 => cases h
    all_goals
      cases h
      simp_all [Operation.operands]
  case h_7 | h_8 | h_16 =>
    dsimp only at h
    split at h
    · cases h
      simp_all [Operation.operands]
    · cases h
  case h_25 => cases h
  all_goals
    cases h
    simp_all [Operation.operands]

theorem eq_of_text (ha : a.bits = 32) (hb : b.bits = 32) (hv : decode a v = some op)
    (hw : decode b w = some op') (h : Instruction.text ⟨a, op⟩ = Instruction.text ⟨b, op'⟩) :
    op = op' := by
  have hform : op.form ∈ Operation.forms := Operation.form_mem_forms fun _ ht =>
    bits_of_mem_operands ha hv ht
  have hform' : op'.form ∈ Operation.forms := Operation.form_mem_forms fun _ ht =>
    bits_of_mem_operands hb hw ht
  have htab : ∀ {o : Operation}, o.form ∈ Operation.forms → '\t' ∉ o.mnemonic.toList := by
    intro o ho
    rw [← Operation.mnemonic_form]
    exact Operation.tab_not_mem_mnemonics _ ho
  have hhead : ∀ operands, ∀ c ∈ (operandsPart operands).head?, c = '\t' := by
    intro operands c hc
    cases operands with
    | nil => cases hc
    | cons x xs => exact (Option.some.inj hc).symm
  have hlist := congrArg String.toList h
  rw [toList_text, toList_text] at hlist
  obtain ⟨hmnemonic, hoperands⟩ :=
    Text.append_inj_of_not_mem (htab hform) (htab hform') (hhead _) (hhead _) hlist
  -- Signed and unsigned immediates look alike, so the mnemonic has to settle the kinds first.
  have hsame : op.form = op'.form := by
    apply List.inj_on_of_nodup_map Operation.nodup_mnemonics hform hform'
    rw [Operation.mnemonic_form, Operation.mnemonic_form]
    exact String.toList_inj.mp hmnemonic
  have hforms : op.operands.map Operand.form = op'.operands.map Operand.form := by
    rw [← Operation.operands_form, ← Operation.operands_form, hsame]
  have heq := operands_eq_of_text hforms (operandsPart_injective hoperands)
  rw [← Operation.fill_form op, ← Operation.fill_form op', hsame, heq]

end Decoded

end RegisterTransfer.Mips
