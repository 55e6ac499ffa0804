import RegisterTransfer.Proofs.Mips.Rendering
import RegisterTransfer.Proofs.Mos6502.Rendering

namespace RegisterTransfer

theorem text_determines :
    (∀ (a b : Address) (v w : BitVec 32) (op op' : Mips.Operation), a.bits = 32 → b.bits = 32 →
      Mips.decode a v = some op → Mips.decode b w = some op' →
        Mips.Instruction.text ⟨a, op⟩ = Mips.Instruction.text ⟨b, op'⟩ → op = op') ∧
    ∀ (c d : Cursor) (i j : Mos6502.Instruction), c.image.size ≤ Cursor.maxOffset →
      d.image.size ≤ Cursor.maxOffset →
        Mos6502.decode c = some i → Mos6502.decode d = some j → i.text = j.text →
          i.mnemonic = j.mnemonic ∧ i.mode = j.mode ∧ i.value = j.value := by
  refine ⟨?_, ?_⟩
  · intro a b v w op op' ha hb hv hw h
    exact Mips.eq_of_text ha hb hv hw h
  · intro c d i j hc hd hi hj h
    exact Mos6502.Instruction.eq_of_text hc hd hi hj h

theorem branches_written_alike :
    let c : Cursor := ⟨⟨⟨0x1000, 16⟩, [0xD0, 0x02, 0xD0, 0x00]⟩, 0, .little⟩
    let d : Cursor := { c with offset := 2 }
    (∃ op op', Mips.decode ⟨0x400000, 32⟩ 0x11000001 = some op ∧
      Mips.decode ⟨0x400004, 32⟩ 0x11000000 = some op' ∧
      Mips.Instruction.text ⟨⟨0x400000, 32⟩, op⟩ = Mips.Instruction.text ⟨⟨0x400004, 32⟩, op'⟩ ∧
      op = op') ∧
    ∃ i j, Mos6502.decode c = some i ∧ Mos6502.decode d = some j ∧ i.address ≠ j.address ∧
      i.text = j.text ∧ i.mnemonic = j.mnemonic ∧ i.mode = j.mode ∧ i.value = j.value := by
  intro c d
  have hv : Mips.decode ⟨0x400000, 32⟩ 0x11000001 =
      some (.compareBranch .beq ⟨8, by decide⟩ Mips.zeroRegister ⟨0x400008, 32⟩) := by
    decide +kernel
  have hw : Mips.decode ⟨0x400004, 32⟩ 0x11000000 =
      some (.compareBranch .beq ⟨8, by decide⟩ Mips.zeroRegister ⟨0x400008, 32⟩) := by
    decide +kernel
  have hi : Mos6502.decode c = some ⟨⟨0x1000, 16⟩, .bne, .relative, 0x1004⟩ := by decide +kernel
  have hj : Mos6502.decode d = some ⟨⟨0x1002, 16⟩, .bne, .relative, 0x1004⟩ := by decide +kernel
  exact ⟨⟨_, _, hv, hw, rfl, text_determines.1 _ _ _ _ _ _ rfl rfl hv hw rfl⟩,
    _, _, hi, hj, by decide, rfl, text_determines.2 c d _ _ (by decide) (by decide) hi hj rfl⟩

end RegisterTransfer
