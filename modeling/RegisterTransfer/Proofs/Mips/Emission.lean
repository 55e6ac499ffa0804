import RegisterTransfer.Mips.Lift
import RegisterTransfer.Proofs.Workspace

/-!
Lifting taken apart. What an instruction emits, what becomes known by it, which registers it names
and what it asks are functions of their own (`lift_eq`), so that each can be studied without the
others.
-/

namespace RegisterTransfer.Mips

section
variable (name : Register → Identifier)

def operand (r : Gpr) : Expression :=
  if r = zeroRegister then .constant (.word32 0) else .identifier (name r.register)

def setting (r : Gpr) (source : Expression) : Transfer :=
  if r = zeroRegister then .nop else .assignment (.identifier (name r.register)) source

def pair (op : Operator) (t : DataType) (rs rt : Gpr) : Expression :=
  .binary op t (operand name rs) (operand name rt)

def pairOrMove (op : Operator) (rs rt : Gpr) : Expression :=
  if rt = zeroRegister then operand name rs
  else if rs = zeroRegister then operand name rt
  else pair name op .word32 rs rt

def place (base : Gpr) (offset : BitVec 16) : Expression :=
  if base = zeroRegister then .constant (.word32 (offset.signExtend 32))
  else .binary .iadd .word32 (operand name base) (.constant (.int32 (offset.signExtend 32)))

def shiftSource (op : ShiftOp) (rt : Gpr) (amount : BitVec 5) : Expression :=
  .binary op.operator .word32 (operand name rt) (.constant (.word32 (amount.setWidth 32)))

def aluSource (op : AluOp) (rs rt : Gpr) : Expression :=
  match op with
  | .add | .addu => pairOrMove name .iadd rs rt
  | .sub | .subu => pair name .isub .word32 rs rt
  | .and => pair name .and .word32 rs rt
  | .or => pairOrMove name .or rs rt
  | .xor => pair name .xor .word32 rs rt
  | .nor => .unary .not .word32 (pair name .or .word32 rs rt)
  | .slt => ofComparison (pair name .lt .bool rs rt)
  | .sltu => ofComparison (pair name .ult .bool rs rt)

def arithmeticSource (op : ArithmeticOp) (rs : Gpr) (value : BitVec 32) : Expression :=
  match op with
  | .addi | .addiu =>
    if rs = zeroRegister then .constant (.word32 value)
    else .binary .iadd .word32 (operand name rs) (.constant (.int32 value))
  | .slti => ofComparison (.binary .lt .bool (operand name rs) (.constant (.int32 value)))
  | .sltiu => ofComparison (.binary .ult .bool (operand name rs) (.constant (.word32 value)))

def logicalSource (op : LogicalOp) (rs : Gpr) (value : BitVec 32) : Expression :=
  if rs = zeroRegister ∧ op ≠ .andi then .constant (.word32 value)
  else .binary op.operator .word32 (operand name rs) (.constant (.word32 value))

def compareTransfer (op : CompareBranch) (rs rt : Gpr) (target : Address) : Transfer :=
  if op = .beq ∧ rs = rt then .goto (.address target) .delayed
  else .branch (pair name (if op = .beq then .eq else .ne) .bool rs rt) (.address target) branchKind

def signTransfer (op : SignBranch) (rs : Gpr) (target : Address) : Transfer :=
  .branch (.binary op.operator .bool (operand name rs) (.constant (.int32 0))) (.address target)
    { branchKind with call := op.links }

def Operation.link? : Operation → Option Gpr
  | .signBranch op .. => if op.links then some returnAddress else none
  | .jumpAndLinkRegister rd _ =>
    if rd ≠ returnAddress ∧ rd ≠ zeroRegister then some rd else none
  | _ => none

theorem link?_ne_zero {op : Operation} {r : Gpr} (h : op.link? = some r) : r ≠ zeroRegister := by
  cases op with
  | signBranch op rs target =>
    simp only [Operation.link?] at h
    split at h <;> cases h
    decide
  | jumpAndLinkRegister rd rs =>
    simp only [Operation.link?] at h
    split at h <;> cases h
    rename_i hr
    exact hr.2
  | _ => cases h

def linkTransfers (a : Address) (op : Operation) : List Transfer :=
  (op.link?.map fun r =>
    .assignment (.identifier (name r.register)) (.address (continuation a))).toList

def emitted (host : Host) (i : Instruction) : List Transfer :=
  match i.operation with
  | .nop => [.nop]
  | .shift op rd rt amount => [setting name rd (shiftSource name op rt amount)]
  | .shiftVariable op rd rt rs => [setting name rd (pair name op.operator .word32 rt rs)]
  | .alu op rd rs rt => [setting name rd (aluSource name op rs rt)]
  | .arithmetic op rt rs immediate =>
    [setting name rt (arithmeticSource name op rs (immediate.signExtend 32))]
  | .logical op rt rs immediate =>
    [setting name rt (logicalSource name op rs (immediate.setWidth 32))]
  | .lui rt immediate => [setting name rt (.constant (.word32 (immediate ++ 0#16)))]
  | .load op rt base offset => [setting name rt (op.source (place name base offset))]
  | .store op rt base offset => [op.transfer (place name base offset) (operand name rt)]
  | .product op rs rt =>
    let halves := op.halves (operand name rs) (operand name rt)
    [.assignment (.identifier (name HiLo.lo.register)) halves.1,
      .assignment (.identifier (name HiLo.hi.register)) halves.2]
  | .moveFrom source rd => [setting name rd (.identifier (name source.register))]
  | .moveTo destination rs =>
    [.assignment (.identifier (name destination.register)) (operand name rs)]
  | .compareBranch op rs rt target => [compareTransfer name op rs rt target]
  | .signBranch op rs target =>
    linkTransfers name i.address i.operation ++ [signTransfer name op rs target]
  | .jump target => [.goto (.address target) .delayed]
  | .jumpAndLink target => [.call (host.callee target (continuation i.address)) 0 callKind]
  | .jumpRegister rs =>
    if rs = returnAddress then [.returning 0 .delayed] else [.goto (operand name rs) .delayed]
  | .jumpAndLinkRegister _ rs =>
    linkTransfers name i.address i.operation ++ [.call (operand name rs) 0 callKind]
  | .syscall => [.sideEffect (.application "__syscall" [] .word32)]
  | .breakpoint => [.sideEffect (.application "__break" [] .word32)]

def Operation.leaving (op : Operation) (host : Host) (a : Address) : Transfer :=
  match op with
  | .compareBranch op rs rt target => compareTransfer name op rs rt target
  | .signBranch op rs target => signTransfer name op rs target
  | .jump target => .goto (.address target) .delayed
  | .jumpAndLink target => .call (host.callee target (continuation a)) 0 callKind
  | .jumpRegister rs =>
    if rs = returnAddress then .returning 0 .delayed else .goto (operand name rs) .delayed
  | .jumpAndLinkRegister _ rs => .call (operand name rs) 0 callKind
  | _ => .nop

theorem emitted_of_hasDelaySlot {op : Operation} (h : op.hasDelaySlot) (host : Host) (a : Address) :
    emitted name host ⟨a, op⟩ = linkTransfers name a op ++ [op.leaving name host a] := by
  cases op with
  | compareBranch | signBranch | jump | jumpAndLink | jumpAndLinkRegister => rfl
  | jumpRegister rs =>
    by_cases hr : rs = returnAddress
    · simp [emitted, linkTransfers, Operation.link?, Operation.leaving, hr]
    · simp [emitted, linkTransfers, Operation.link?, Operation.leaving, hr]
  | _ => cases h

end

end RegisterTransfer.Mips

namespace RegisterTransfer.Knowledge

open Mips

def value? (k : Knowledge) (r : Gpr) : Option Constant :=
  if r = zeroRegister then some (.word32 0) else k.contents? r.register

def assignGpr (k : Knowledge) (r : Gpr) (source : Expression) : Knowledge :=
  if r = zeroRegister then k else k.assign r.register source

def learn (k : Knowledge) (r : Gpr) (known : Option Constant) : Knowledge :=
  if r = zeroRegister then k else known.elim k (k.record r.register)

end RegisterTransfer.Knowledge

namespace RegisterTransfer.Mips

/-- Folding looks at what was known before the instruction. -/
def Operation.folded? (k : Knowledge) : Operation → Option Constant
  | .arithmetic .addi _ rs immediate | .arithmetic .addiu _ rs immediate =>
    (k.value? rs).map (Operator.iadd.fold · (.word32 (immediate.signExtend 32)))
  | .logical op _ rs immediate =>
    (k.value? rs).map (op.operator.fold · (.word32 (immediate.setWidth 32)))
  | _ => none

def Operation.learned (name : Register → Identifier) (k : Knowledge) (op : Operation) : Knowledge :=
  match op with
  | .shift op rd rt amount => k.assignGpr rd (shiftSource name op rt amount)
  | .shiftVariable op rd rt rs => k.assignGpr rd (pair name op.operator .word32 rt rs)
  | .alu op rd rs rt => k.assignGpr rd (aluSource name op rs rt)
  | .arithmetic op rt rs immediate =>
    (k.assignGpr rt (arithmeticSource name op rs (immediate.signExtend 32))).learn rt
      ((Operation.arithmetic op rt rs immediate).folded? k)
  | .logical op rt rs immediate =>
    (k.assignGpr rt (logicalSource name op rs (immediate.setWidth 32))).learn rt
      ((Operation.logical op rt rs immediate).folded? k)
  | .lui rt immediate => k.assignGpr rt (.constant (.word32 (immediate ++ 0#16)))
  | .load op rt base offset => k.assignGpr rt (op.source (place name base offset))
  | .product op rs rt =>
    let halves := op.halves (operand name rs) (operand name rt)
    (k.assign HiLo.lo.register halves.1).assign HiLo.hi.register halves.2
  | .moveFrom source rd => k.assignGpr rd (.identifier (name source.register))
  | .moveTo destination rs => k.assign destination.register (operand name rs)
  | .signBranch .. => op.link?.elim k (k.forget ·.register)
  | .jumpAndLink _ => k.forget returnAddress.register
  | .jumpAndLinkRegister .. =>
    (op.link?.elim k (k.forget ·.register)).forget returnAddress.register
  | .nop | .store .. | .compareBranch .. | .jump _ | .jumpRegister _ | .syscall | .breakpoint => k

def gprRegisters (rs : List Gpr) : List Register :=
  (rs.filter fun r => r ≠ zeroRegister).map Gpr.register

def Operation.named : Operation → List Register
  | .shift _ rd rt _ => gprRegisters [rt, rd]
  | .shiftVariable _ rd rt rs => gprRegisters [rt, rs, rd]
  | .alu _ rd rs rt => gprRegisters [rs, rt, rd]
  | .arithmetic _ rt rs _ | .logical _ rt rs _ | .load _ rt rs _ | .store _ rt rs _ =>
    gprRegisters [rs, rt]
  | .lui rt _ => gprRegisters [rt]
  | .product _ rs rt => gprRegisters [rs, rt] ++ [HiLo.lo.register, HiLo.hi.register]
  | .moveFrom source rd => source.register :: gprRegisters [rd]
  | .moveTo destination rs => gprRegisters [rs] ++ [destination.register]
  | .compareBranch op rs rt _ => if op = .beq ∧ rs = rt then [] else gprRegisters [rs, rt]
  | .signBranch op rs _ => gprRegisters (if op.links then [rs, returnAddress] else [rs])
  | .jumpRegister rs => if rs = returnAddress then [] else gprRegisters [rs]
  | .jumpAndLinkRegister rd rs => gprRegisters (if rd = returnAddress then [rs] else [rs, rd])
  | .nop | .jump _ | .jumpAndLink _ | .syscall | .breakpoint => []

def Instruction.asked (i : Instruction) : List Question :=
  match i.operation with
  | .jumpAndLink target => [.imported target (continuation i.address)]
  | _ => []

@[simp] theorem ensureAll_gprRegisters (f : Frame) (rs qs : List Gpr) :
    (f.ensureAll (gprRegisters rs)).ensureAll (gprRegisters qs) =
      f.ensureAll (gprRegisters (rs ++ qs)) := by
  simp [← Frame.ensureAll_append, gprRegisters]

theorem gprRegisters_cons (r : Gpr) (rs : List Gpr) :
    gprRegisters (r :: rs) =
      if r = zeroRegister then gprRegisters rs else r.register :: gprRegisters rs := by
  by_cases h : r = zeroRegister <;> simp [gprRegisters, h]

section
variable (w : Workspace)

@[simp] theorem read_apply (r : Gpr) : read r w =
    (operand w.frame.nameOf r, { w with frame := w.frame.ensureAll (gprRegisters [r]) }) := by
  unfold read operand
  by_cases h : r = zeroRegister
  · simp [h, gprRegisters, Frame.ensureAll]
  · simp [h, gprRegisters]

@[simp] theorem write_apply (r : Gpr) (source : Expression) : write r source w =
    (setting w.frame.nameOf r source,
      { w with
        knowledge := w.knowledge.assignGpr r source
        frame := w.frame.ensureAll (gprRegisters [r]) }) := by
  unfold write setting Knowledge.assignGpr
  by_cases h : r = zeroRegister
  · simp [h, gprRegisters, Frame.ensureAll]
  · simp [h, gprRegisters]

@[simp] theorem foldKnown_apply (op : Operator) (r : Gpr) (c : Constant) :
    foldKnown op r c w = ((w.knowledge.value? r).map (op.fold · c), w) := by
  unfold foldKnown Knowledge.value?
  by_cases h : r = zeroRegister
  · simp [h]
  · simp [h]
    rfl

@[simp] theorem writeKnown_apply (r : Gpr) (source : Expression) (known : Option Constant) :
    writeKnown r source known w =
      (setting w.frame.nameOf r source,
        { w with
          knowledge := (w.knowledge.assignGpr r source).learn r known
          frame := w.frame.ensureAll (gprRegisters [r]) }) := by
  unfold writeKnown Knowledge.learn
  by_cases h : r = zeroRegister
  · simp [h]
  · cases known <;> simp [h, Lifting.record]

@[simp] theorem binary_apply (op : Operator) (t : DataType) (rs rt : Gpr) : binary op t rs rt w =
    (pair w.frame.nameOf op t rs rt,
      { w with frame := w.frame.ensureAll (gprRegisters [rs, rt]) }) := by
  simp [binary, pair]

@[simp] theorem binaryOrMove_apply (op : Operator) (rs rt : Gpr) : binaryOrMove op rs rt w =
    (pairOrMove w.frame.nameOf op rs rt,
      { w with frame := w.frame.ensureAll (gprRegisters [rs, rt]) }) := by
  unfold binaryOrMove pairOrMove
  by_cases ht : rt = zeroRegister
  · simp [ht, gprRegisters_cons]
  · by_cases hs : rs = zeroRegister
    · simp [ht, hs, gprRegisters_cons]
    · simp [ht, hs]

@[simp] theorem location_apply (base : Gpr) (offset : BitVec 16) : location base offset w =
    (place w.frame.nameOf base offset,
      { w with frame := w.frame.ensureAll (gprRegisters [base]) }) := by
  unfold location place
  by_cases h : base = zeroRegister
  · simp [h, gprRegisters, Frame.ensureAll]
  · simp [h]

@[simp] theorem source_apply (op : AluOp) (rs rt : Gpr) : op.source rs rt w =
    (aluSource w.frame.nameOf op rs rt,
      { w with frame := w.frame.ensureAll (gprRegisters [rs, rt]) }) := by
  cases op <;> simp [AluOp.source, aluSource]

theorem learn_none (k : Knowledge) (r : Gpr) : k.learn r none = k := by
  unfold Knowledge.learn
  split <;> rfl

@[simp] theorem liftArithmetic_apply (op : ArithmeticOp) (rt rs : Gpr) (immediate : BitVec 16) :
    liftArithmetic op rt rs immediate w =
      (setting w.frame.nameOf rt (arithmeticSource w.frame.nameOf op rs (immediate.signExtend 32)),
        { w with
          knowledge := Operation.learned w.frame.nameOf w.knowledge (.arithmetic op rt rs immediate)
          frame := w.frame.ensureAll (gprRegisters [rs, rt]) }) := by
  cases op with
  | slti | sltiu =>
    simp [liftArithmetic, arithmeticSource, Operation.learned, Operation.folded?, learn_none]
  | addi | addiu =>
    by_cases h : rs = zeroRegister
    · simp [liftArithmetic, arithmeticSource, Operation.learned, Operation.folded?, h,
        gprRegisters_cons]
    · simp [liftArithmetic, arithmeticSource, Operation.learned, Operation.folded?, h]

@[simp] theorem liftLogical_apply (op : LogicalOp) (rt rs : Gpr) (immediate : BitVec 16) :
    liftLogical op rt rs immediate w =
      (setting w.frame.nameOf rt (logicalSource w.frame.nameOf op rs (immediate.setWidth 32)),
        { w with
          knowledge := Operation.learned w.frame.nameOf w.knowledge (.logical op rt rs immediate)
          frame := w.frame.ensureAll (gprRegisters [rs, rt]) }) := by
  by_cases h : rs = zeroRegister ∧ op ≠ .andi
  · simp [liftLogical, logicalSource, Operation.learned, Operation.folded?, h, gprRegisters_cons]
  · simp [liftLogical, logicalSource, Operation.learned, Operation.folded?, h]

@[simp] theorem liftCompareBranch_apply (op : CompareBranch) (rs rt : Gpr) (target : Address) :
    liftCompareBranch op rs rt target w =
      ([compareTransfer w.frame.nameOf op rs rt target],
        { w with
          frame := w.frame.ensureAll (Operation.named (.compareBranch op rs rt target)) }) := by
  unfold liftCompareBranch compareTransfer Operation.named
  by_cases h : op = .beq ∧ rs = rt
  · simp [h, Frame.ensureAll]
  · simp [h]

theorem assignGpr_address {r : Gpr} (h : r ≠ zeroRegister) (k : Knowledge) (a : Address) :
    k.assignGpr r (.address a) = k.forget r.register :=
  if_neg h

@[simp] theorem liftSignBranch_apply (a : Address) (op : SignBranch) (rs : Gpr)
    (target : Address) :
    liftSignBranch a op rs target w =
      (linkTransfers w.frame.nameOf a (.signBranch op rs target) ++
          [signTransfer w.frame.nameOf op rs target],
        { w with
          knowledge := Operation.learned w.frame.nameOf w.knowledge (.signBranch op rs target)
          frame := w.frame.ensureAll (Operation.named (.signBranch op rs target)) }) := by
  have hra : returnAddress ≠ zeroRegister := by decide
  cases hl : op.links
  · simp [liftSignBranch, linkTransfers, signTransfer, Operation.link?, Operation.learned,
      Operation.named, hl, branchKind, TransferClass.delayed, TransferClass.ofTransfer,
      TransferClass.empty]
  · simp [liftSignBranch, linkTransfers, signTransfer, Operation.link?, Operation.learned,
      Operation.named, hl, setting, hra, assignGpr_address hra]

@[simp] theorem liftCallRegister_apply (a : Address) (rd rs : Gpr) :
    liftCallRegister a rd rs w =
      (linkTransfers w.frame.nameOf a (.jumpAndLinkRegister rd rs) ++
          [.call (operand w.frame.nameOf rs) 0 callKind],
        { w with
          knowledge := Operation.learned w.frame.nameOf w.knowledge (.jumpAndLinkRegister rd rs)
          frame := w.frame.ensureAll (Operation.named (.jumpAndLinkRegister rd rs)) }) := by
  by_cases hra : rd = returnAddress
  · simp [liftCallRegister, linkTransfers, Operation.link?, Operation.learned, Operation.named, hra]
  · by_cases hz : rd = zeroRegister
    · subst hz
      simp [liftCallRegister, linkTransfers, Operation.link?, Operation.learned, Operation.named,
        hra, gprRegisters_cons]
    · simp [liftCallRegister, linkTransfers, Operation.link?, Operation.learned, Operation.named,
        hra, hz, setting, assignGpr_address hz]

attribute [local simp] Operation.opcode Operation.operands Listed.register? Listed.signed?
  Listed.unsigned? Listed.memory? Listed.address? Operand.register? Operand.signed?
  Operand.unsigned? Operand.memory? Operand.address?

theorem lift_eq (host : Host) (i : Instruction) : lift host i w =
    (emitted w.frame.nameOf host i,
      { knowledge := i.operation.learned w.frame.nameOf w.knowledge
        frame := w.frame.ensureAll i.operation.named
        questions := w.questions ++ i.asked }) := by
  obtain ⟨a, op⟩ := i
  -- Each operand is found again at the place where it is listed.
  unfold lift Listed.lift Listed.lift? Instruction.listed
  cases op with
  | signBranch | jumpAndLinkRegister => simp [emitted, Instruction.asked]
  | compareBranch => simp [emitted, Operation.learned, Instruction.asked]
  | arithmetic | logical => simp [emitted, Operation.named, Instruction.asked]
  | jumpRegister rs =>
    by_cases h : rs = returnAddress
    · simp [emitted, Operation.named, Operation.learned, Instruction.asked, h, Frame.ensureAll]
    · simp [emitted, Operation.named, Operation.learned, Instruction.asked, h]
  | product =>
    simp [emitted, Operation.named, Operation.learned, Instruction.asked, Frame.ensureAll_append]
    rfl
  | moveTo =>
    simp [emitted, Operation.named, Operation.learned, Instruction.asked, Frame.ensureAll_append]
  | moveFrom source rd =>
    simp [emitted, Operation.named, Operation.learned, Instruction.asked]
    rfl
  | shift | shiftVariable | alu | lui | load | store =>
    simp [emitted, Operation.named, Operation.learned, Instruction.asked, shiftSource]
  | nop | jump | jumpAndLink | syscall | breakpoint =>
    simp [emitted, Operation.named, Operation.learned, Instruction.asked, Frame.ensureAll]

end

end RegisterTransfer.Mips
