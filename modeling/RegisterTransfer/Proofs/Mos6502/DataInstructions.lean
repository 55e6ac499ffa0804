import RegisterTransfer.Architecture
import RegisterTransfer.Proofs.Decoding
import RegisterTransfer.Proofs.Mos6502.Execution

namespace RegisterTransfer.Mos6502

namespace Mnemonic

def isData : Mnemonic → Bool
  | .lda | .ldx | .ldy | .sta | .stx | .sty | .tax | .tay | .txa | .tya | .tsx | .txs
  | .and | .ora | .eor | .adc | .sbc | .asl | .lsr | .rol | .ror | .inc | .dec
  | .inx | .iny | .dex | .dey | .cmp | .cpx | .cpy | .bit | .pha | .pla => true
  | _ => false

def admits (mnemonic : Mnemonic) (m : Mode) : Bool :=
  match mnemonic with
  | .lda | .ldx | .ldy | .and | .ora | .eor | .adc | .sbc | .cmp | .cpx | .cpy | .bit =>
    m.hasOperand
  | .sta | .stx | .sty => m.isMemory
  | .asl | .lsr | .rol | .ror | .inc | .dec => m = .accumulator || m.isMemory
  | _ => true

end Mnemonic

theorem admits_of_decodeOpcode : ∀ opcode : BitVec 8, ∀ found ∈ decodeOpcode opcode,
    found.1.admits found.2 := by
  decide +kernel

section Execution
variable {n : Names} (hn : n.Faithful) {e : Surroundings} {s : Machine} {i : Instruction}

include hn in
theorem reaches_loaded (hd : i.mode.isDirect) (ho : i.mode.hasOperand) (r : Register) :
    Reaches e (withValue n.register i (settingWithFlags n.register n.flags r resultFlags)) s
      (s.put r.number (i.mode.operand i.value s)) := by
  obtain ⟨x, hx, hv⟩ := value?_value hn hd ho
  exact .withValue hx (reaches_settingWithFlags hn (hv s e) r resultFlags)

include hn in
theorem reaches_stored (hd : i.mode.isDirect) (hm : i.mode.isMemory) (r : Register) :
    Reaches e ((place? n.register i).elim [.invalid] fun place =>
        [.assignment (.memory place .byte) (contents n.register r)]) s
      (s.store (i.mode.location i.value s) (s.registers r.number)) := by
  obtain ⟨place, hplace, hp⟩ := value?_place hn hd hm
  rw [hplace]
  exact .cons (execute_memory (hp s e) (value?_contents hn s e r)) (.nil (.refl _))

include hn in
theorem reaches_combined {op : Operator} (hop : op.isComparison = false) (hd : i.mode.isDirect)
    (ho : i.mode.hasOperand) : Reaches e (combined n.register n.flags i op) s
      (s.put regA.number (op.combineWords s.a (i.mode.operand i.value s)
        (min (i.mode.operand i.value s).toNat 63))) := by
  obtain ⟨x, hx, hv⟩ := value?_value hn hd ho
  have hsource := value?_binary hop (value?_contents hn s e regA) (hv s e)
  exact .withValue hx (reaches_settingWithFlags hn hsource regA resultFlags)

include hn in
theorem reaches_compared {op : Operator} (hop : op.isComparison = false) (hd : i.mode.isDirect)
    (ho : i.mode.hasOperand) (r : Register) (flags : List Flag) :
    Reaches e (compared n.register n.flags i op r flags) s s := by
  obtain ⟨x, hx, hv⟩ := value?_value hn hd ho
  have hsource := value?_binary hop (value?_contents hn s e r) (hv s e)
  exact .withValue hx (reaches_settingFlags hn hsource flags)

include hn in
theorem reaches_summed {op : Operator} (hop : op.isComparison = false) (hd : i.mode.isDirect)
    (ho : i.mode.hasOperand) {carry : Expression → Expression} {c : Bool}
    (hc : (carry (.identifier (n.flags [.carry]))).value? (s.interpretation e) = some (.bool c))
    {sum : BitVec 8} (hsum : op.fold (.byte (op.combineWords s.a (i.mode.operand i.value s)
      (min (i.mode.operand i.value s).toNat 63))) (.bool c) = .byte sum) :
    Reaches e (summed n.register n.flags i op carry) s (s.put regA.number sum) := by
  obtain ⟨x, hx, hv⟩ := value?_value hn hd ho
  have hsource : (Expression.binary op .byte (.binary op .byte (contents n.register regA) x)
      (carry (.identifier (n.flags [.carry])))).value? (s.interpretation e) =
        some (.byte sum) := by
    rw [Expression.value?, value?_binary hop (value?_contents hn s e regA) (hv s e), hc,
      Option.bind_some, Option.map_some]
    exact congrArg some hsum
  exact .withValue hx (reaches_settingWithFlags hn hsource regA _)

include hn in
theorem reaches_stepped {op : Operator} (hop : op.isComparison = false) (r : Register) :
    Reaches e (settingWithFlags n.register n.flags r resultFlags
        (moveByOne op (contents n.register r))) s
      (s.put r.number (op.combineWords (s.registers r.number) 1 1)) :=
  reaches_settingWithFlags hn (computes_moveByOne hop s _ _ (value?_contents hn s e r)) r _

include hn in
theorem reaches_emitted (he : e.Rotates) (host : Host) (hdata : i.mnemonic.isData)
    (hd : i.mode.isDirect) (ha : i.mnemonic.admits i.mode) :
    Reaches e (emitted n host i) s (i.mnemonic.effect i.mode i.value s) := by
  obtain ⟨a, mnemonic, m, value⟩ := i
  cases mnemonic with
  | lda | ldx | ldy => exact reaches_loaded hn hd ha _
  | sta | stx | sty => exact reaches_stored hn hd ha _
  | tax | tay | txa | tya | tsx | txs => exact reaches_moved hn _ _
  | and | ora | eor => exact reaches_combined hn rfl hd ha
  | adc => exact reaches_summed hn rfl hd ha (value?_carry hn s e) (fold_carry _ _).1
  | sbc => exact reaches_summed hn rfl hd ha (value?_borrow hn s e) (fold_carry _ _).2
  | asl | lsr | inc | dec =>
    have hm : m = .accumulator ∨ m.isMemory := by simpa [Mnemonic.admits] using ha
    exact reaches_modified hn (computes_moveByOne rfl) hd hm _
  | rol =>
    have hm : m = .accumulator ∨ m.isMemory := by simpa [Mnemonic.admits] using ha
    have hc := computes_rotated hn (f := fun v c => v <<< 1 ||| ofCarry c) fun v c =>
      (he.left v c).trans (rotateLeft_eq v c)
    exact reaches_modified hn hc hd hm _
  | ror =>
    have hm : m = .accumulator ∨ m.isMemory := by simpa [Mnemonic.admits] using ha
    have hc := computes_rotated hn (f := fun v c => v >>> 1 ||| ofCarry c <<< 7) fun v c =>
      (he.right v c).trans (rotateRight_eq v c)
    exact reaches_modified hn hc hd hm _
  | inx | iny | dex | dey => exact reaches_stepped hn rfl _
  | cmp | cpx | cpy | bit => exact reaches_compared hn rfl hd ha _ _
  | pha => exact reaches_pushed hn (value?_contents hn s e regA)
  | pla => exact reaches_pulled hn regA (reaches_settingFlags hn (value?_contents hn _ e regA) _)
  | _ => cases hdata

end Execution

section Bytes
variable {c : Cursor}

theorem length_of_peekBytes {delta length : Nat} {bytes : List UInt8}
    (h : c.peekBytes delta length = .ok bytes) : bytes.length = length := by
  unfold Cursor.peekBytes at h
  simp only at h
  split at h
  · rename_i hsize
    cases h
    rw [List.length_take, List.length_drop]
    exact Nat.min_eq_left (Nat.le_sub_of_add_le' hsize)
  · cases h

theorem peekBytes_of_peek8 {delta : Nat} {v : BitVec 8} (h : c.peek8 delta = .ok v) :
    ∃ b : UInt8, c.peekBytes delta 1 = .ok [b] ∧ v = b.toBitVec := by
  unfold Cursor.peek8 Cursor.peekNumber at h
  cases hb : c.peekBytes delta 1 with
  | error e =>
    rw [hb] at h
    cases h
  | ok bytes =>
    obtain ⟨b, rfl⟩ := List.length_eq_one_iff.mp (length_of_peekBytes hb)
    rw [hb] at h
    cases h
    refine ⟨b, rfl, ?_⟩
    have hn : c.byteOrder.number [b] = b.toNat := by
      cases c.byteOrder <;> rfl
    rw [hn]
    exact BitVec.ofNat_toNat 8 b.toBitVec

theorem peekBytes_zero {b : UInt8} (h : c.peekBytes 0 1 = .ok [b]) :
    c.peekBytes 1 0 = .ok [] := by
  unfold Cursor.peekBytes at h ⊢
  simp only at h ⊢
  split at h
  · have hsize : min (c.offset + 1) Cursor.maxOffset + 0 ≤ c.image.size := by omega
    rw [if_pos hsize, List.take_zero]
  · cases h

theorem operand_bytes (horder : c.byteOrder = .little) {b : UInt8}
    (hb : c.peekBytes 0 1 = .ok [b]) {m : Mode} (hm : m ≠ .relative) {value : BitVec 16}
    (h : operandValue c m = .ok value) : ∃ operand,
      c.peekBytes 1 (m.length - 1) = .ok operand ∧ value = .ofNat 16 (littleEndian operand) := by
  unfold operandValue at h
  split at h
  · rename_i hl
    cases h
    rw [hl]
    exact ⟨[], peekBytes_zero hb, rfl⟩
  · rename_i hl
    rw [hl]
    cases hp : c.peek8 1 with
    | error e =>
      rw [hp] at h
      cases h
    | ok v =>
      obtain ⟨d, hd, rfl⟩ := peekBytes_of_peek8 hp
      rw [hp, Except.map, if_neg hm] at h
      cases h
      exact ⟨[d], hd, (BitVec.ofNat_toNat 16 d.toBitVec).symm⟩
  · have hl : m.length = 3 := by
      cases m <;> first | rfl | contradiction
    rw [hl]
    unfold Cursor.peek16 Cursor.peekNumber at h
    cases hp : c.peekBytes 1 2 with
    | error e =>
      rw [hp] at h
      cases h
    | ok operand =>
      rw [hp, horder] at h
      cases h
      exact ⟨operand, rfl, rfl⟩

end Bytes

theorem lift_reaches_effect (e : Surroundings) (he : e.Rotates) (host : Host) (c : Cursor)
    (horder : c.byteOrder = Architecture.mos6502.byteOrder) (i : Instruction)
    (hi : decode c = some i) (hdata : i.mnemonic.isData) (hd : i.mode.isDirect) (s : Machine)
    (w : Workspace) :
    ∃ opcode operand, c.peekBytes 0 1 = .ok [opcode] ∧
      c.peekBytes 1 (i.length - 1) = .ok operand ∧
      ∃ t, executeAll (fun _ => e) (lift host i w).1 s = some t ∧
        let u := effect opcode operand s
        t.a = u.a ∧ t.x = u.x ∧ t.y = u.y ∧ t.stack = u.stack ∧ t.memory = u.memory := by
  obtain ⟨_, ho, hm, hv, -⟩ := decode_eq_some_iff.mp hi
  obtain ⟨opcode, hopcode, rfl⟩ := peekBytes_of_peek8 ho
  -- Only the operand of a branch is not the number that its bytes are.
  have hrelative : i.mode ≠ .relative := by
    intro h
    rw [h] at hd
    cases hd
  obtain ⟨operand, hoperand, hvalue⟩ := operand_bytes horder hopcode hrelative hv
  have heffect : effect opcode operand s = i.mnemonic.effect i.mode i.value s := by
    have hdocumented : documented? opcode.toNat = some (i.mnemonic, i.mode) :=
      (documented?_eq opcode.toBitVec).trans hm
    rw [effect, hdocumented, hvalue]
  have hadmits := admits_of_decodeOpcode opcode.toBitVec (i.mnemonic, i.mode) hm
  obtain ⟨t, ht, hdata⟩ := reaches_emitted (faithful_names w.frame) he host hdata hd hadmits (s := s)
  have hregister : ∀ n, n ≠ regP.number →
      t.registers n = (effect opcode operand s).registers n := by
    rw [heffect]
    exact hdata.registers
  refine ⟨opcode, operand, hopcode, hoperand, t, ?_, ?_⟩
  · rw [lift_eq]
    exact ht
  · refine ⟨hregister _ (by decide), hregister _ (by decide), hregister _ (by decide),
      hregister _ (by decide), ?_⟩
    rw [heffect]
    exact hdata.memory

def rotating : Surroundings where
  intrinsic
    | "__rcl", [v, _, c], t => (rotateLeft (v.resize 8) (!c.isZero)).setWidth t.bits
    | "__rcr", [v, _, c], t => (rotateRight (v.resize 8) (!c.isZero)).setWidth t.bits
    | _, _, _ => 0
  flags _ := 0

theorem rotating_rotates : rotating.Rotates where
  left v c := by
    have hc : (!(Constant.bool c).isZero) = c := by
      cases c <;> rfl
    simp [rotating, hc, Constant.resize, Constant.byte]
  right v c := by
    have hc : (!(Constant.bool c).isZero) = c := by
      cases c <;> rfl
    simp [rotating, hc, Constant.resize, Constant.byte]

theorem lift_reaches_rotation :
    let c : Cursor := ⟨⟨.ptr16 0x0800, [0x7E, 0xFF, 0xFF]⟩, 0, .little⟩
    let i : Instruction := ⟨.ptr16 0x0800, .ror, .absoluteX, 0xFFFF⟩
    let s : Machine := ⟨fun _ => 1, fun _ => 0, fun p => if p = 0 then 0x42 else 0⟩
    decode c = some i ∧ ∃ t,
      executeAll (fun _ => rotating) (lift ⟨fun _ _ => none, fun _ => none⟩ i
          ⟨.empty, .empty 16, []⟩).1 s = some t ∧
        t.a = 1 ∧ t.x = 1 ∧ t.memory 0 = 0xA1 ∧ t.memory 0xFFFF = 0 := by
  have hi : decode ⟨⟨.ptr16 0x0800, [0x7E, 0xFF, 0xFF]⟩, 0, .little⟩ =
      some ⟨.ptr16 0x0800, .ror, .absoluteX, 0xFFFF⟩ := rfl
  intro c i s
  refine ⟨hi, ?_⟩
  obtain ⟨opcode, operand, ho, hv, t, ht, ha, hx, -, -, hm⟩ :=
    lift_reaches_effect rotating rotating_rotates ⟨fun _ _ => none, fun _ => none⟩ c rfl i hi rfl
      rfl s ⟨.empty, .empty 16, []⟩
  cases ho
  cases hv
  refine ⟨t, ht, ha, hx, ?_, ?_⟩
  · rw [hm]
    decide
  · rw [hm]
    decide

end RegisterTransfer.Mos6502
