import RegisterTransfer.Proofs.Balance
import RegisterTransfer.Proofs.Mips.ControlTransfers

namespace RegisterTransfer.Mips

open Expression Transfer

theorem ShiftOp.isComparison_operator (op : ShiftOp) : op.operator.isComparison = false := by
  cases op <;> rfl

def gauge : Gauge := ⟨32, fun _ => False⟩

section
variable {name : Register → Identifier} (hn : ∀ n, (name (register n)).dataType.bits = 32)
include hn

theorem operand_fits (r : Gpr) : Fits gauge 32 (operand name r) := by
  unfold operand
  split
  · exact .constant rfl
  · exact .identifier (hn r)

theorem pair_fits {op : Operator} (hop : op.isComparison = false) (rs rt : Gpr) :
    Fits gauge 32 (pair name op .word32 rs rt) :=
  .binary rfl hop (operand_fits hn rs) (operand_fits hn rt)

theorem pair_compares {op : Operator} (hop : op.isComparison) (rs rt : Gpr) :
    Fits gauge 1 (pair name op .bool rs rt) :=
  .comparison hop (operand_fits hn rs) (operand_fits hn rt)

theorem pairOrMove_fits {op : Operator} (hop : op.isComparison = false) (rs rt : Gpr) :
    Fits gauge 32 (pairOrMove name op rs rt) := by
  unfold pairOrMove
  split
  · exact operand_fits hn rs
  · split
    · exact operand_fits hn rt
    · exact pair_fits hn hop rs rt

theorem place_fits (base : Gpr) (offset : BitVec 16) : Fits gauge 32 (place name base offset) := by
  unfold place
  split
  · exact .constant rfl
  · exact .binary rfl rfl (operand_fits hn base) (.constant rfl)

theorem aluSource_fits (op : AluOp) (rs rt : Gpr) : Fits gauge 32 (aluSource name op rs rt) := by
  cases op with
  | add | addu | or => exact pairOrMove_fits hn rfl rs rt
  | sub | subu | and | xor => exact pair_fits hn rfl rs rt
  | nor => exact .unary rfl (pair_fits hn rfl rs rt)
  | slt | sltu => exact .cast rfl (pair_compares hn rfl rs rt).throughout

theorem arithmeticSource_fits (op : ArithmeticOp) (rs : Gpr) (value : BitVec 32) :
    Fits gauge 32 (arithmeticSource name op rs value) := by
  cases op with
  | addi | addiu =>
    simp only [arithmeticSource]
    split
    · exact .constant rfl
    · exact .binary rfl rfl (operand_fits hn rs) (.constant rfl)
  | slti | sltiu =>
    exact .cast rfl (Fits.comparison rfl (operand_fits hn rs) (.constant rfl)).throughout

theorem logicalSource_fits (op : LogicalOp) (rs : Gpr) (value : BitVec 32) :
    Fits gauge 32 (logicalSource name op rs value) := by
  unfold logicalSource
  split
  · exact .constant rfl
  · cases op <;> exact .binary rfl rfl (operand_fits hn rs) (.constant rfl)

theorem half_fits (half : HiLo) : Fits gauge 32 (.identifier (name half.register)) := by
  cases half with
  | hi => exact .identifier (hn 32)
  | lo => exact .identifier (hn 33)

theorem shiftSource_fits (op : ShiftOp) (rt : Gpr) (amount : BitVec 5) :
    Fits gauge 32 (shiftSource name op rt amount) :=
  .binary rfl op.isComparison_operator (operand_fits hn rt) (.constant rfl)

theorem loadSource_fits (op : LoadOp) (base : Gpr) (offset : BitVec 16) :
    Fits gauge 32 (op.source (place name base offset)) := by
  have hplace := place_fits hn base offset
  cases op with
  | lb | lbu | lh | lhu => exact .cast rfl (Fits.memory rfl hplace).throughout
  | lw => exact .memory rfl hplace

theorem storing_sized (op : StoreOp) (base rt : Gpr) (offset : BitVec 16) :
    Sized gauge (op.transfer (place name base offset) (operand name rt)) := by
  have hplace := place_fits hn base offset
  have hvalue := operand_fits hn rt
  cases op with
  | sb | sh => exact .assignment (.memory rfl hplace) (.cast rfl hvalue.throughout)
  | sw => exact .assignment (.memory rfl hplace) hvalue

theorem halves_fit (op : ProductOp) (rs rt : Gpr) :
    let halves := op.halves (operand name rs) (operand name rt)
    Fits gauge 32 halves.1 ∧ Fits gauge 32 halves.2 := by
  have hl := operand_fits hn rs
  have hr := operand_fits hn rt
  have hboth : ∀ e ∈ [operand name rs, operand name rt], e.Throughout gauge := by
    simp [hl.throughout, hr.throughout]
  cases op with
  | mult | multu => exact ⟨.binary rfl rfl hl hr, .application rfl hboth⟩
  | div | divu => exact ⟨.binary rfl rfl hl hr, .binary rfl rfl hl hr⟩

theorem setting_sized (r : Gpr) {source : Expression} (h : Fits gauge 32 source) :
    Sized gauge (setting name r source) := by
  unfold setting
  split
  · exact .nop
  · exact .assignment (.identifier (hn r)) h

theorem linkTransfers_sized {a : Address} (ha : a.bits = 32) (op : Operation) :
    ∀ t ∈ linkTransfers name a op, Sized gauge t := by
  unfold linkTransfers
  cases op.link? with
  | none => simp
  | some r =>
    intro t ht
    rw [List.mem_singleton.mp ht]
    exact .assignment (.identifier (hn r)) (.address ha)

theorem leaving_sized (host : Host) (a : Address) (op : Operation) :
    Sized gauge (op.leaving name host a) := by
  have haddress : ∀ target : Address, (address target).Throughout gauge := fun target =>
    (Fits.address rfl).throughout
  cases op with
  | compareBranch op rs rt target =>
    simp only [Operation.leaving, compareTransfer]
    split
    · exact .goto (haddress target) _
    · have hop : (if op = .beq then Operator.eq else .ne).isComparison := by
        split <;> rfl
      exact .branch rfl (pair_compares hn hop rs rt).throughout (haddress target) _
  | signBranch op rs target =>
    have hop : op.operator.isComparison := by
      cases op <;> rfl
    have hc : Fits gauge 1 (.binary op.operator .bool (operand name rs) (.constant (.int32 0))) :=
      .comparison hop (operand_fits hn rs) (.constant rfl)
    exact .branch rfl hc.throughout (haddress target) _
  | jump target => exact .goto (haddress target) _
  | jumpAndLink target => exact .call (throughout_callee host target _) _ _
  | jumpRegister rs =>
    simp only [Operation.leaving]
    split
    · exact .returning _ _
    · exact .goto (operand_fits hn rs).throughout _
  | jumpAndLinkRegister rd rs => exact .call (operand_fits hn rs).throughout _ _
  | _ => exact .nop

theorem emitted_sized (host : Host) {a : Address} (ha : a.bits = 32) (op : Operation) :
    ∀ t ∈ emitted name host ⟨a, op⟩, Sized gauge t := by
  by_cases hd : op.hasDelaySlot
  · rw [emitted_of_hasDelaySlot name hd]
    intro t ht
    rcases List.mem_append.mp ht with hlink | hlast
    · exact linkTransfers_sized hn ha op t hlink
    · rw [List.mem_singleton.mp hlast]
      exact leaving_sized hn host a op
  · have happlication : ∀ function, (application function [] .word32).Throughout gauge := fun _ =>
      (Fits.application rfl (List.forall_mem_nil _)).throughout
    cases op with
    | nop => exact List.forall_mem_singleton.mpr .nop
    | shift op rd rt amount =>
      exact List.forall_mem_singleton.mpr (setting_sized hn rd (shiftSource_fits hn op rt amount))
    | shiftVariable op rd rt rs =>
      exact List.forall_mem_singleton.mpr
        (setting_sized hn rd (pair_fits hn op.isComparison_operator rt rs))
    | alu op rd rs rt =>
      exact List.forall_mem_singleton.mpr (setting_sized hn rd (aluSource_fits hn op rs rt))
    | arithmetic op rt rs immediate =>
      exact List.forall_mem_singleton.mpr (setting_sized hn rt (arithmeticSource_fits hn op rs _))
    | logical op rt rs immediate =>
      exact List.forall_mem_singleton.mpr (setting_sized hn rt (logicalSource_fits hn op rs _))
    | lui rt immediate => exact List.forall_mem_singleton.mpr (setting_sized hn rt (.constant rfl))
    | load op rt base offset =>
      exact List.forall_mem_singleton.mpr (setting_sized hn rt (loadSource_fits hn op base offset))
    | store op rt base offset =>
      exact List.forall_mem_singleton.mpr (storing_sized hn op base rt offset)
    | product op rs rt =>
      obtain ⟨hlow, hhigh⟩ := halves_fit hn op rs rt
      exact List.forall_mem_cons.mpr ⟨.assignment (half_fits hn .lo) hlow,
        List.forall_mem_singleton.mpr (.assignment (half_fits hn .hi) hhigh)⟩
    | moveFrom source rd =>
      exact List.forall_mem_singleton.mpr (setting_sized hn rd (half_fits hn source))
    | moveTo destination rs =>
      exact List.forall_mem_singleton.mpr (.assignment (half_fits hn destination) (operand_fits hn rs))
    | syscall | breakpoint => exact List.forall_mem_singleton.mpr (.sideEffect (happlication _))
    | _ => exact absurd rfl hd

end

end RegisterTransfer.Mips
