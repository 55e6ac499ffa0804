import RegisterTransfer.Proofs.Mips.Widths
import RegisterTransfer.Proofs.Mos6502.Widths
import RegisterTransfer.Proofs.Resumption

namespace RegisterTransfer

theorem Frame.names_after_fresh (items : List (Except DecodeError Instruction)) :
    ((empty 16).after items).names.Fresh where
  register := (nameOf_after _ items).trans (nameOf_empty 16)
  flags := flagsOf_after _ items
  slot := rfl

/-- The only nodes out of balance are the sums and differences that take in the carry. -/
theorem widths_consistent (host : Host) (c : Cursor) (k : Knowledge) (n : Nat) :
    let decoded := ((Decoding.start .mos6502 c).take n).1
    let lifted (a : Architecture) := ((Session.start a c k a.emptyFrame).take host n).1
    (∀ order, c.image.base.bits = 32 → ∀ x, .ok x ∈ lifted (.mips order) →
      ∀ t ∈ x.transfers, t.Matched ∧ ∀ e ∈ t.expressions, ∀ y ∈ e.nodes, y.Balanced 32) ∧
    ∀ (m : Nat) x, (lifted .mos6502)[m]? = some (.ok x) →
      ∃ i, decoded[m]? = some (.ok (.mos6502 i)) ∧
        ∀ t ∈ x.transfers, t.Matched ∧ ∀ e ∈ t.expressions, ∀ y ∈ e.nodes,
          ¬y.Balanced 16 ↔ i.mnemonic ∈ Mos6502.Mnemonic.sums ∧ Mos6502.TakesCarry y := by
  intro decoded lifted
  have hitems : ∀ a : Architecture, lifted a =
      clusters host a.emptyFrame ((Decoding.start a c).take n).1 := fun a =>
    Session.clusters_take host a c k a.emptyFrame n
  refine ⟨?_, ?_⟩
  · intro order hbase x hx t ht
    rw [hitems] at hx
    obtain ⟨m, hm⟩ := List.mem_iff_getElem?.mp hx
    obtain ⟨i, hi, rfl⟩ := (clusters_eq_ok_iff host _).mp hm
    obtain ⟨d, himage, hd⟩ := Decoding.cursor_of_take (List.mem_of_getElem? hi)
    have haddress : d.address.bits = 32 := by
      rw [Cursor.address_eq, himage]
      exact hbase
    obtain ⟨w, op, -, -, rfl⟩ := Architecture.decode?_mips.mp hd
    -- The names of the registers are those of a frame without identifiers, however far lifting is.
    have hname : ((Architecture.mips order).emptyFrame.after
        (((Decoding.start (.mips order) c).take n).1.take m)).nameOf = Identifier.ofRegister :=
      (Frame.nameOf_after _ _).trans (Frame.nameOf_empty 32)
    have hregisters : ∀ n, (Identifier.ofRegister (Mips.register n)).dataType.bits = 32 := by
      intro n
      rw [Identifier.ofRegister, Mips.register_bits]
      rfl
    rw [Instruction.emitted, hname] at ht
    have hsized := Mips.emitted_sized hregisters host haddress op t ht
    refine ⟨hsized.matched, ?_⟩
    intro e he y hy
    exact (hsized.throughout e he y hy).resolve_right False.elim
  · intro m x hx
    rw [hitems] at hx
    obtain ⟨i, hi, rfl⟩ := (clusters_eq_ok_iff host _).mp hx
    obtain ⟨d, hd⟩ := Decoding.decode?_of_take (List.mem_of_getElem? hi)
    obtain ⟨j, -, rfl⟩ := Architecture.decode?_mos6502.mp hd
    refine ⟨j, hi, ?_⟩
    intro t ht
    have hsized := Mos6502.emitted_sized (Frame.names_after_fresh _) host j t ht
    refine ⟨hsized.matched, ?_⟩
    intro e he y hy
    constructor
    · intro hbalanced
      exact (hsized.throughout e he y hy).resolve_left hbalanced
    · rintro ⟨-, htakes⟩
      exact htakes.not_balanced

theorem widths_consistent_carry :
    let host : Host := ⟨fun _ _ => none, fun _ => none⟩
    let linking : Cursor := ⟨⟨.ptr32 0x400000, [0x04, 0x91, 0x00, 0x01]⟩, 0, .big⟩
    let adding : Cursor := ⟨⟨.ptr16 0x1000, [0x69, 0x05]⟩, 0, .little⟩
    let a : Expression := .identifier (.ofRegister Mos6502.regA)
    let sum : Expression :=
      .binary .iadd .byte (.binary .iadd .byte a (Mos6502.byte 5)) Mos6502.carry
    (∃ address length link leave, ((Session.fresh (.mips .big) linking).take host 1).1 =
        [.ok ⟨address, length, [link, leave]⟩] ∧ link.Matched ∧ leave.Matched) ∧
    ∃ address length flags i, ((Session.fresh .mos6502 adding).take host 1).1 =
        [.ok ⟨address, length, [.assignment a sum, flags]⟩] ∧ ¬sum.Balanced 16 ∧
      ((Decoding.start .mos6502 adding).take 1).1[0]? = some (.ok (.mos6502 i)) ∧
        i.mnemonic ∈ [.adc, .sbc] := by
  have hlinked : ∃ address length link leave, ((Session.fresh (.mips .big)
      ⟨⟨.ptr32 0x400000, [0x04, 0x91, 0x00, 0x01]⟩, 0, .big⟩).take
        ⟨fun _ _ => none, fun _ => none⟩ 1).1 = [.ok ⟨address, length, [link, leave]⟩] :=
    ⟨_, _, _, _, rfl⟩
  have hadded : ∃ address length flags, ((Session.fresh .mos6502
      ⟨⟨.ptr16 0x1000, [0x69, 0x05]⟩, 0, .little⟩).take ⟨fun _ _ => none, fun _ => none⟩ 1).1 =
        [.ok ⟨address, length, [.assignment (.identifier (.ofRegister Mos6502.regA))
          (.binary .iadd .byte (.binary .iadd .byte (.identifier (.ofRegister Mos6502.regA))
            (Mos6502.byte 5)) Mos6502.carry), flags]⟩] :=
    ⟨_, _, _, rfl⟩
  intro host linking adding a sum
  obtain ⟨address, length, link, leave, hlinked⟩ := hlinked
  obtain ⟨address', length', flags, hadded⟩ := hadded
  obtain ⟨hmips, -⟩ := widths_consistent host linking .empty 1
  obtain ⟨-, hmos6502⟩ := widths_consistent host adding .empty 1
  constructor
  · have hmem := List.mem_singleton_self
      (.ok ⟨address, length, [link, leave]⟩ : Except DecodeError Cluster)
    rw [← hlinked] at hmem
    have h := hmips .big rfl _ hmem
    exact ⟨_, _, _, _, hlinked, (h link (.head _)).1, (h leave (.tail _ (.head _))).1⟩
  · obtain ⟨i, hi, h⟩ := hmos6502 0 _ (congrArg (·[0]?) hadded)
    have hsum : ¬sum.Balanced 16 := Mos6502.TakesCarry.not_balanced ⟨rfl, rfl, .inl ⟨rfl, rfl⟩⟩
    have hi' := ((h _ (.head _)).2 sum (.tail _ (.head _)) sum (.head _)).mp hsum
    exact ⟨_, _, _, i, hadded, hsum, hi, hi'.1⟩

end RegisterTransfer
