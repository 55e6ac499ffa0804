import RegisterTransfer.Mos6502.Lift
import RegisterTransfer.Proofs.Workspace

namespace RegisterTransfer

namespace Mos6502

theorem testBit_mask (f g : Flag) : g.mask.testBit f.mask.log2 = (f == g) := by
  cases f <;> cases g <;> rfl

theorem testBit_foldl (f : Flag) (flags : List Flag) (m : Nat) :
    ((flags.map Flag.mask).foldl (· ||| ·) m).testBit f.mask.log2 =
      (m.testBit f.mask.log2 || flags.contains f) := by
  induction flags generalizing m with
  | nil => simp
  | cons g flags ih =>
    rw [List.map_cons, List.foldl_cons, ih, Nat.testBit_or, testBit_mask, List.contains_cons,
      Bool.or_assoc]

theorem testBit_flagMask (f : Flag) (flags : List Flag) :
    (flagMask flags).testBit f.mask.log2 = flags.contains f := by
  rw [flagMask, testBit_foldl, Nat.zero_testBit, Bool.false_or]

theorem flagName_eq_of_flagMask_eq {fs gs : List Flag} (h : flagMask fs = flagMask gs) :
    flagName fs = flagName gs := by
  have hc : fs.contains = gs.contains := by
    funext f
    rw [← testBit_flagMask, h, testBit_flagMask]
  rw [flagName, hc, flagName]

inductive Use
  | register (r : Register)
  | flags (flags : List Flag)
  | temporary
deriving DecidableEq, Repr

end Mos6502

namespace Frame

open Mos6502

def flagsOf (f : Frame) (flags : List Flag) : Identifier :=
  (f.ensureFlagGroup regP (flagMask flags) (flagName flags)).1

def slot (f : Frame) : Identifier := (f.createTemporary .byte).1

def use (f : Frame) : Use → Frame
  | .register r => (f.ensureRegister r).2
  | .flags flags => (f.ensureFlagGroup regP (flagMask flags) (flagName flags)).2
  | .temporary => (f.createTemporary .byte).2

def useAll (f : Frame) (us : List Use) : Frame := us.foldl use f

theorem ensureAll_eq_useAll (f : Frame) (rs : List Register) :
    f.ensureAll rs = f.useAll (rs.map .register) := by
  rw [useAll, List.foldl_map]
  rfl

@[simp] theorem useAll_nil (f : Frame) : f.useAll [] = f := rfl

@[simp] theorem useAll_useAll (f : Frame) (us vs : List Use) :
    (f.useAll us).useAll vs = f.useAll (us ++ vs) :=
  List.foldl_append.symm

theorem find?_createTemporary (f : Frame) {s : Storage} (h : ∀ n, s ≠ .temporary n) :
    (f.createTemporary .byte).2.find? s = f.find? s := by
  refine (find?_push f _ s).trans ?_
  rw [if_neg fun hs => h _ hs.symm, Option.or_none]

theorem nameOf_use (f : Frame) (u : Use) : (f.use u).nameOf = f.nameOf := by
  funext r
  cases u with
  | register q => exact congrFun (nameOf_ensureRegister f q) r
  | flags flags =>
    apply ensure_ensure
    intro h
    cases h
  | temporary =>
    have hf : (f.use .temporary).find? (.register r) = f.find? (.register r) :=
      find?_createTemporary f fun n => Storage.noConfusion
    rw [nameOf_eq, nameOf_eq, hf]

theorem flagsOf_use (f : Frame) (u : Use) : (f.use u).flagsOf = f.flagsOf := by
  funext flags
  cases u with
  | register r =>
    apply ensure_ensure
    intro h
    cases h
  | flags others =>
    -- A group that exists has the same name if it has the same mask.
    apply ensure_ensure
    intro h
    have hm : flagMask others = flagMask flags := (Storage.flagGroup.inj h).2
    rw [hm, flagName_eq_of_flagMask_eq hm]
  | temporary =>
    have hf : (f.use .temporary).find? (.flagGroup regP (flagMask flags)) =
        f.find? (.flagGroup regP (flagMask flags)) :=
      find?_createTemporary f fun n => Storage.noConfusion
    unfold flagsOf ensureFlagGroup
    rw [ensure_fst, ensure_fst, hf]

@[simp] theorem nameOf_useAll (f : Frame) (us : List Use) : (f.useAll us).nameOf = f.nameOf := by
  induction us generalizing f with
  | nil => rfl
  | cons u us ih => exact (ih _).trans (nameOf_use f u)

@[simp] theorem flagsOf_useAll (f : Frame) (us : List Use) :
    (f.useAll us).flagsOf = f.flagsOf := by
  induction us generalizing f with
  | nil => rfl
  | cons u us ih => exact (ih _).trans (flagsOf_use f u)

theorem nextTemporary_ensure (f : Frame) (id : Identifier) :
    (f.ensure id).2.nextTemporary = f.nextTemporary := by
  unfold ensure
  cases f.find? id.storage <;> rfl

theorem slot_useAll (f : Frame) (rs : List Register) :
    (f.useAll (rs.map .register)).slot = f.slot := by
  have h : (f.useAll (rs.map .register)).nextTemporary = f.nextTemporary := by
    induction rs generalizing f with
    | nil => rfl
    | cons r rs ih => exact (ih _).trans (nextTemporary_ensure f (.ofRegister r))
  unfold slot createTemporary
  rw [h]

end Frame

namespace Knowledge

def forgetAll (k : Knowledge) (rs : List Register) : Knowledge := rs.foldl forget k

@[simp] theorem forgetAll_nil (k : Knowledge) : k.forgetAll [] = k := rfl

@[simp] theorem forgetAll_cons (k : Knowledge) (r : Register) (rs : List Register) :
    k.forgetAll (r :: rs) = (k.forget r).forgetAll rs := rfl

@[simp] theorem forgetAll_ite (k : Knowledge) (p : Prop) [Decidable p] (rs : List Register) :
    k.forgetAll (if p then rs else []) = if p then k.forgetAll rs else k := by
  split <;> rfl

theorem record_forget (k : Knowledge) (r : Register) (c : Constant) :
    (k.forget r).record r c = k.record r c := by
  apply Table.ext_get?
  intro l
  unfold record forget
  rw [Table.get?_insert, Table.get?_insert, Table.get?_erase]
  by_cases h : r.number = l <;> simp [h]

end Knowledge

namespace Mos6502

namespace Mode

def index? : Mode → Option Register
  | .zeroPageX | .absoluteX | .indexedIndirect => some regX
  | .zeroPageY | .absoluteY | .indirectIndexed => some regY
  | _ => none

def isMemory : Mode → Bool
  | .zeroPage | .zeroPageX | .zeroPageY | .absolute | .absoluteX | .absoluteY
  | .indexedIndirect | .indirectIndexed => true
  | _ => false

def reads (m : Mode) : List Register := if m = .accumulator then [regA] else m.index?.toList

def hasOperand (m : Mode) : Bool := m = .immediate || m = .accumulator || m.isMemory

end Mode

section
variable (name : Register → Identifier) (group : List Flag → Identifier) (i : Instruction)

def contents (r : Register) : Expression := .identifier (name r)

def setting (r : Register) (source : Expression) : Transfer := .assignment (contents name r) source

def settingFlags (flags : List Flag) (e : Expression) : Transfer :=
  .assignment (.identifier (group flags)) (.conditionOf e)

def settingFlag (flag : Flag) (value : Bool) : Transfer :=
  .assignment (.identifier (group [flag])) (.constant (.bool value))

def offsetBy (base : Expression) (index : Register) : Expression :=
  .binary .iadd .ptr16 base (.cast .word16 false (contents name index))

def place? : Option Expression :=
  let base := absolute i.value
  match i.mode with
  | .zeroPage | .absolute => some base
  | .zeroPageX | .absoluteX => some (offsetBy name base regX)
  | .zeroPageY | .absoluteY => some (offsetBy name base regY)
  | .indexedIndirect => some (.memory (offsetBy name base regX) .ptr16)
  | .indirectIndexed => some (offsetBy name (.memory base .ptr16) regY)
  | _ => none

def value? : Option Expression :=
  match i.mode with
  | .immediate => some (byte (i.value.setWidth 8))
  | .accumulator => some (contents name regA)
  | _ => (place? name i).map (.memory · .byte)

def stackPlace : Expression := .memory (offsetBy name (absolute 0x0100) regS) .byte

def stackMove (op : Operator) : Transfer :=
  setting name regS (.binary op .byte (contents name regS) (byte 1))

def pushed (value : Expression) : List Transfer :=
  [.assignment (stackPlace name) value, stackMove name .isub]

def pulled (r : Register) : List Transfer :=
  [stackMove name .iadd, setting name r (stackPlace name)]

def settingWithFlags (r : Register) (flags : List Flag) (source : Expression) : List Transfer :=
  [setting name r source, settingFlags group flags (contents name r)]

def withValue (f : Expression → List Transfer) : List Transfer := (value? name i).elim [.invalid] f

def modified (slot : Identifier) (flags : List Flag) (change : Expression → Expression) :
    List Transfer :=
  if i.mode = .accumulator then
    settingWithFlags name group regA flags (change (contents name regA))
  else
    (place? name i).elim [.invalid] fun place =>
      [.assignment (.identifier slot) (.memory place .byte),
        .assignment (.identifier slot) (change (.identifier slot)),
        .assignment (.memory place .byte) (.identifier slot),
        settingFlags group flags (.identifier slot)]

def moved (source destination : Register) : List Transfer :=
  if destination = regS then [setting name destination (contents name source)]
  else settingWithFlags name group destination resultFlags (contents name source)

def combined (op : Operator) : List Transfer :=
  withValue name i fun e =>
    settingWithFlags name group regA resultFlags (.binary op .byte (contents name regA) e)

def summed (op : Operator) (carry : Expression → Expression) : List Transfer :=
  withValue name i fun e =>
    settingWithFlags name group regA [.negative, .overflow, .zero, .carry]
      (.binary op .byte (.binary op .byte (contents name regA) e)
        (carry (.identifier (group [.carry]))))

def moveByOne (op : Operator) (e : Expression) : Expression := .binary op .byte e (byte 1)

def rotated (function : String) (e : Expression) : Expression :=
  .application function [e, byte 1, .identifier (group [.carry])] .byte

def compared (op : Operator) (r : Register) (flags : List Flag) : List Transfer :=
  withValue name i fun e => [settingFlags group flags (.binary op .byte (contents name r) e)]

def branching (code : ConditionCode) (flag : Flag) : List Transfer :=
  [.branch (.test code (.identifier (group [flag]))) (absolute i.value) branchKind]

end

structure Names where
  register : Register → Identifier
  flags : List Flag → Identifier
  slot : Identifier

def emitted (n : Names) (host : Host) (i : Instruction) : List Transfer :=
  let loaded (r : Register) :=
    withValue n.register i (settingWithFlags n.register n.flags r resultFlags)
  let stored (r : Register) :=
    (place? n.register i).elim [.invalid] fun place =>
      [.assignment (.memory place .byte) (contents n.register r)]
  let stepped (r : Register) (op : Operator) :=
    settingWithFlags n.register n.flags r resultFlags (moveByOne op (contents n.register r))
  match i.mnemonic with
  | .lda => loaded regA
  | .ldx => loaded regX
  | .ldy => loaded regY
  | .sta => stored regA
  | .stx => stored regX
  | .sty => stored regY
  | .tax => moved n.register n.flags regA regX
  | .tay => moved n.register n.flags regA regY
  | .txa => moved n.register n.flags regX regA
  | .tya => moved n.register n.flags regY regA
  | .tsx => moved n.register n.flags regS regX
  | .txs => moved n.register n.flags regX regS
  | .and => combined n.register n.flags i .and
  | .ora => combined n.register n.flags i .or
  | .eor => combined n.register n.flags i .xor
  | .adc => summed n.register n.flags i .iadd id
  | .sbc => summed n.register n.flags i .isub (.unary .not .bool ·)
  | .asl => modified n.register n.flags i n.slot carryFlags (moveByOne .shl)
  | .lsr => modified n.register n.flags i n.slot carryFlags (moveByOne .shr)
  | .rol => modified n.register n.flags i n.slot carryFlags (rotated n.flags "__rcl")
  | .ror => modified n.register n.flags i n.slot carryFlags (rotated n.flags "__rcr")
  | .inc => modified n.register n.flags i n.slot resultFlags (moveByOne .iadd)
  | .dec => modified n.register n.flags i n.slot resultFlags (moveByOne .isub)
  | .inx => stepped regX .iadd
  | .iny => stepped regY .iadd
  | .dex => stepped regX .isub
  | .dey => stepped regY .isub
  | .cmp => compared n.register n.flags i .isub regA carryFlags
  | .cpx => compared n.register n.flags i .isub regX carryFlags
  | .cpy => compared n.register n.flags i .isub regY carryFlags
  | .bit => compared n.register n.flags i .and regA [.negative, .overflow, .zero]
  | .bpl => branching n.flags i .ns .negative
  | .bmi => branching n.flags i .sg .negative
  | .bvc => branching n.flags i .no .overflow
  | .bvs => branching n.flags i .ov .overflow
  | .bcc => branching n.flags i .uge .carry
  | .bcs => branching n.flags i .ult .carry
  | .bne => branching n.flags i .ne .zero
  | .beq => branching n.flags i .eq .zero
  | .jmp => [.goto (jumpTarget i) .ofTransfer]
  | .jsr => [.call (host.callee (.ptr16 i.value.toNat) i.nextAddress) 2 callKind]
  | .rts => [returning]
  | .rti => pulled n.register regP ++ [returning]
  | .brk => [.sideEffect (.application "__brk" [] .byte)]
  | .pha => pushed n.register (contents n.register regA)
  | .php => pushed n.register (contents n.register regP)
  | .pla =>
    pulled n.register regA ++ [settingFlags n.flags resultFlags (contents n.register regA)]
  | .plp => pulled n.register regP
  | .clc => [settingFlag n.flags .carry false]
  | .sec => [settingFlag n.flags .carry true]
  | .cli => [settingFlag n.flags .interrupt false]
  | .sei => [settingFlag n.flags .interrupt true]
  | .cld => [settingFlag n.flags .decimal false]
  | .sed => [settingFlag n.flags .decimal true]
  | .clv => [settingFlag n.flags .overflow false]
  | .nop => [.nop]

namespace Mnemonic

def loads? : Mnemonic → Option Register
  | .lda => some regA
  | .ldx => some regX
  | .ldy => some regY
  | _ => none

def steps? : Mnemonic → Option (Register × Operator)
  | .inx => some (regX, .iadd)
  | .iny => some (regY, .iadd)
  | .dex => some (regX, .isub)
  | .dey => some (regY, .isub)
  | _ => none

end Mnemonic

namespace Instruction

def written (i : Instruction) : List Register :=
  match i.mnemonic with
  | .lda | .and | .ora | .eor | .adc | .sbc => if i.mode.hasOperand then [regA] else []
  | .ldx => if i.mode.hasOperand then [regX] else []
  | .ldy => if i.mode.hasOperand then [regY] else []
  | .asl | .lsr | .rol | .ror | .inc | .dec => if i.mode = .accumulator then [regA] else []
  | .tax | .tsx | .inx | .dex => [regX]
  | .tay | .iny | .dey => [regY]
  | .txa | .tya => [regA]
  | .txs | .pha | .php => [regS]
  | .pla => [regS, regA]
  | .plp | .rti => [regS, regP]
  | _ => []

def computed? (k : Knowledge) (i : Instruction) : Option (Register × Constant) :=
  match i.mnemonic.loads? with
  | some r => if i.mode = .immediate then some (r, .byte (i.value.setWidth 8)) else none
  | none => i.mnemonic.steps?.bind fun (r, op) =>
      (k.contents? r).map fun c => (r, op.fold c (.byte 1))

def learned (k : Knowledge) (i : Instruction) : Knowledge :=
  (i.computed? k).elim (k.forgetAll i.written) fun (r, c) => (k.forgetAll i.written).record r c

def usesValue (i : Instruction) (us : List Use) : List Use :=
  if i.mode.hasOperand then i.mode.reads.map .register ++ us else []

def usesPlace (i : Instruction) (us : List Use) : List Use :=
  if i.mode.isMemory then i.mode.index?.toList.map .register ++ us else []

def usesModified (i : Instruction) (flags : List Flag) (us : List Use) : List Use :=
  if i.mode = .accumulator then
    .register regA :: us ++ [.register regA, .register regA, .flags flags]
  else i.usesPlace (.temporary :: us ++ [.flags flags])

end Instruction

def usesSetting (r : Register) (flags : List Flag) : List Use :=
  [.register r, .register r, .flags flags]

def usesMove (source destination : Register) : List Use :=
  .register source ::
    if destination = regS then [.register destination] else usesSetting destination resultFlags

def usesStack : List Use := [.register regS, .register regS, .register regS]

def Instruction.uses (i : Instruction) : List Use :=
  match i.mnemonic with
  | .lda => i.usesValue (usesSetting regA resultFlags)
  | .ldx => i.usesValue (usesSetting regX resultFlags)
  | .ldy => i.usesValue (usesSetting regY resultFlags)
  | .sta => i.usesPlace [.register regA]
  | .stx => i.usesPlace [.register regX]
  | .sty => i.usesPlace [.register regY]
  | .tax => usesMove regA regX
  | .tay => usesMove regA regY
  | .txa => usesMove regX regA
  | .tya => usesMove regY regA
  | .tsx => usesMove regS regX
  | .txs => usesMove regX regS
  | .and | .ora | .eor => i.usesValue (.register regA :: usesSetting regA resultFlags)
  | .adc | .sbc =>
    i.usesValue (.register regA :: .flags [.carry] ::
      usesSetting regA [.negative, .overflow, .zero, .carry])
  | .asl | .lsr => i.usesModified carryFlags []
  | .rol | .ror => i.usesModified carryFlags [.flags [.carry]]
  | .inc | .dec => i.usesModified resultFlags []
  | .inx | .dex => usesSetting regX resultFlags
  | .iny | .dey => usesSetting regY resultFlags
  | .cmp => i.usesValue [.register regA, .flags carryFlags]
  | .cpx => i.usesValue [.register regX, .flags carryFlags]
  | .cpy => i.usesValue [.register regY, .flags carryFlags]
  | .bit => i.usesValue [.register regA, .flags [.negative, .overflow, .zero]]
  | .bpl | .bmi => [.flags [.negative]]
  | .bvc | .bvs | .clv => [.flags [.overflow]]
  | .bcc | .bcs | .clc | .sec => [.flags [.carry]]
  | .bne | .beq => [.flags [.zero]]
  | .cli | .sei => [.flags [.interrupt]]
  | .cld | .sed => [.flags [.decimal]]
  | .pha => .register regA :: usesStack
  | .php => .register regP :: usesStack
  | .pla => usesStack ++ [.register regA, .register regA, .flags resultFlags]
  | .plp | .rti => usesStack ++ [.register regP]
  | .jmp | .jsr | .rts | .brk | .nop => []

def Instruction.asked (i : Instruction) : List Question :=
  match i.mnemonic with
  | .jsr => [.imported (.ptr16 i.value.toNat) i.nextAddress]
  | _ => []

end Mos6502

def Frame.names (f : Frame) : Mos6502.Names := ⟨f.nameOf, f.flagsOf, f.slot⟩

namespace Mos6502

section
variable (w : Workspace)

@[simp high] theorem read_apply (r : Register) : Lifting.read r w =
    (contents w.frame.nameOf r, { w with frame := w.frame.useAll [.register r] }) := rfl

@[simp high] theorem assign_apply (r : Register) (source : Expression) :
    Lifting.assign r source w =
      (setting w.frame.nameOf r source,
        { w with
          knowledge := w.knowledge.assign r source
          frame := w.frame.useAll [.register r] }) := by
  rw [Lifting.assign_apply, Frame.ensureAll_eq_useAll]
  rfl

@[simp] theorem flagGroup_apply (flags : List Flag) : flagGroup flags w =
    (.identifier (w.frame.flagsOf flags), { w with frame := w.frame.useAll [.flags flags] }) := rfl

@[simp] theorem temporary_apply : Lifting.temporary .byte w =
    (.identifier w.frame.slot, { w with frame := w.frame.useAll [.temporary] }) := rfl

@[simp] theorem setFlags_apply (flags : List Flag) (e : Expression) : setFlags flags e w =
    (settingFlags w.frame.flagsOf flags e,
      { w with frame := w.frame.useAll [.flags flags] }) := rfl

@[simp] theorem setFlag_apply (flag : Flag) (value : Bool) : setFlag flag value w =
    (settingFlag w.frame.flagsOf flag value,
      { w with frame := w.frame.useAll [.flags [flag]] }) := rfl

@[simp] theorem indexed_apply (base : Expression) (index : Register) : indexed base index w =
    (offsetBy w.frame.nameOf base index,
      { w with frame := w.frame.useAll [.register index] }) := rfl

@[simp] theorem location?_apply (i : Instruction) : location? i w =
    (place? w.frame.nameOf i,
      { w with frame := w.frame.useAll (i.mode.index?.toList.map .register) }) := by
  cases h : i.mode <;> simp [location?, place?, Mode.index?, h, Frame.useAll]

@[simp] theorem operand?_apply (i : Instruction) : operand? i w =
    (value? w.frame.nameOf i,
      { w with frame := w.frame.useAll (i.mode.reads.map .register) }) := by
  cases h : i.mode <;> simp [operand?, value?, place?, Mode.reads, Mode.index?, h, Frame.useAll]

@[simp] theorem stackSlot_apply : stackSlot w =
    (stackPlace w.frame.nameOf, { w with frame := w.frame.useAll [.register regS] }) := by
  simp [stackSlot, stackPlace]

@[simp] theorem moveStack_apply (op : Operator) : moveStack op w =
    (stackMove w.frame.nameOf op,
      { w with
        knowledge := w.knowledge.forget regS
        frame := w.frame.useAll [.register regS, .register regS] }) := by
  simp [moveStack, stackMove, Knowledge.assign, Expression.constant?]

@[simp] theorem push_apply (value : Expression) : push value w =
    (pushed w.frame.nameOf value,
      { w with
        knowledge := w.knowledge.forget regS
        frame := w.frame.useAll usesStack }) := by
  simp [push, pushed, usesStack]

@[simp] theorem pull_apply (r : Register) : pull r w =
    (pulled w.frame.nameOf r,
      { w with
        knowledge := (w.knowledge.forget regS).forget r
        frame := w.frame.useAll (usesStack ++ [.register r]) }) := by
  simp [pull, pulled, usesStack, Knowledge.assign, stackPlace, Expression.constant?]

@[simp] theorem assignWithFlags_apply (r : Register) (source : Expression) (flags : List Flag) :
    assignWithFlags r source flags w =
      (settingWithFlags w.frame.nameOf w.frame.flagsOf r flags source,
        { w with
          knowledge := w.knowledge.assign r source
          frame := w.frame.useAll (usesSetting r flags) }) := by
  simp [assignWithFlags, settingWithFlags, usesSetting]

theorem value?_cases (name : Register → Identifier) (i : Instruction) :
    (∃ e, value? name i = some e ∧ i.mode.hasOperand = true) ∨
      value? name i = none ∧ i.mode.hasOperand = false ∧ i.mode.reads = [] := by
  cases h : i.mode <;>
    simp [value?, place?, Mode.hasOperand, Mode.isMemory, Mode.reads, Mode.index?, h]

theorem place?_cases (name : Register → Identifier) (i : Instruction) :
    (∃ place, place? name i = some place ∧ i.mode.isMemory = true) ∨
      place? name i = none ∧ i.mode.isMemory = false ∧ i.mode.index? = none := by
  cases h : i.mode <;> simp [place?, Mode.isMemory, Mode.index?, h]

section
variable {w}

theorem withOperand_apply {continuation : Expression → Lifting (List Transfer)}
    {body : Expression → List Transfer} {learn : Expression → Knowledge} {us : List Use}
    (h : ∀ e (rs : List Register),
      continuation e { w with frame := w.frame.useAll (rs.map .register) } =
        (body e,
          { w with knowledge := learn e, frame := w.frame.useAll (rs.map .register ++ us) }))
    (i : Instruction) : withOperand i continuation w =
      (withValue w.frame.nameOf i body,
        { w with
          knowledge := (value? w.frame.nameOf i).elim w.knowledge learn
          frame := w.frame.useAll (i.usesValue us) }) := by
  unfold withOperand withValue Instruction.usesValue
  obtain ⟨e, he, ho⟩ | ⟨he, ho, hr⟩ := value?_cases w.frame.nameOf i
  · simp [he, ho, h]
  · simp [he, ho, hr]

end

theorem elim_assign (k : Knowledge) (name : Register → Identifier) (i : Instruction)
    (r : Register) : (value? name i).elim k (fun e => k.assign r e) =
      if i.mode = .immediate then k.record r (.byte (i.value.setWidth 8))
      else if i.mode.hasOperand then k.forget r else k := by
  cases h : i.mode <;>
    simp [value?, place?, Mode.hasOperand, Mode.isMemory, h, Knowledge.assign,
      Expression.constant?, byte, contents]

theorem elim_const (k l : Knowledge) (name : Register → Identifier) (i : Instruction) :
    (value? name i).elim k (fun _ => l) = if i.mode.hasOperand then l else k := by
  obtain ⟨e, he, ho⟩ | ⟨he, ho, -⟩ := value?_cases name i
  · simp [he, ho]
  · simp [he, ho]

@[simp] theorem loadRegister_apply (i : Instruction) (r : Register) : loadRegister i r w =
    (withValue w.frame.nameOf i (settingWithFlags w.frame.nameOf w.frame.flagsOf r resultFlags),
      { w with
        knowledge :=
          if i.mode = .immediate then w.knowledge.record r (.byte (i.value.setWidth 8))
          else if i.mode.hasOperand then w.knowledge.forget r else w.knowledge
        frame := w.frame.useAll (i.usesValue (usesSetting r resultFlags)) }) := by
  rw [← elim_assign w.knowledge w.frame.nameOf i r]
  apply withOperand_apply
  intro e rs
  simp

@[simp] theorem storeRegister_apply (i : Instruction) (r : Register) : storeRegister i r w =
    ((place? w.frame.nameOf i).elim [.invalid] fun place =>
        [.assignment (.memory place .byte) (contents w.frame.nameOf r)],
      { w with frame := w.frame.useAll (i.usesPlace [.register r]) }) := by
  unfold storeRegister Instruction.usesPlace
  obtain ⟨place, hp, hm⟩ | ⟨hp, hm, hi⟩ := place?_cases w.frame.nameOf i
  · simp [hp, hm]
  · simp [hp, hm, hi]

@[simp] theorem moveRegister_apply (source destination : Register) :
    moveRegister source destination w =
      (moved w.frame.nameOf w.frame.flagsOf source destination,
        { w with
          knowledge := w.knowledge.forget destination
          frame := w.frame.useAll (usesMove source destination) }) := by
  unfold moveRegister moved usesMove
  by_cases h : destination = regS
  · simp [h, Knowledge.assign, contents, Expression.constant?]
  · simp [h, Knowledge.assign, contents, Expression.constant?]

@[simp] theorem logic_apply (i : Instruction) (op : Operator) : logic i op w =
    (combined w.frame.nameOf w.frame.flagsOf i op,
      { w with
        knowledge := if i.mode.hasOperand then w.knowledge.forget regA else w.knowledge
        frame :=
          w.frame.useAll (i.usesValue (.register regA :: usesSetting regA resultFlags)) }) := by
  rw [← elim_const w.knowledge _ w.frame.nameOf i]
  apply withOperand_apply
  intro e rs
  simp [Knowledge.assign, Expression.constant?]

@[simp] theorem addOrSubtract_apply (i : Instruction) (op : Operator)
    (carry : Expression → Expression) : addOrSubtract i op carry w =
      (summed w.frame.nameOf w.frame.flagsOf i op carry,
        { w with
          knowledge := if i.mode.hasOperand then w.knowledge.forget regA else w.knowledge
          frame := w.frame.useAll (i.usesValue (.register regA :: .flags [.carry] ::
            usesSetting regA [.negative, .overflow, .zero, .carry])) }) := by
  rw [← elim_const w.knowledge _ w.frame.nameOf i]
  apply withOperand_apply
  intro e rs
  simp [Knowledge.assign, Expression.constant?]

theorem withOperand_keeps {continuation : Expression → Lifting (List Transfer)}
    {body : Expression → List Transfer} {us : List Use}
    (h : ∀ e (rs : List Register),
      continuation e { w with frame := w.frame.useAll (rs.map .register) } =
        (body e, { w with frame := w.frame.useAll (rs.map .register ++ us) }))
    (i : Instruction) : withOperand i continuation w =
      (withValue w.frame.nameOf i body,
        { w with frame := w.frame.useAll (i.usesValue us) }) := by
  rw [withOperand_apply h, elim_const, ite_self]

@[simp] theorem compareRegister_apply (i : Instruction) (r : Register) : compareRegister i r w =
    (compared w.frame.nameOf w.frame.flagsOf i .isub r carryFlags,
      { w with
        frame := w.frame.useAll (i.usesValue [.register r, .flags carryFlags]) }) := by
  apply withOperand_keeps
  intro e rs
  simp

@[simp] theorem testBits_apply (i : Instruction) : testBits i w =
    (compared w.frame.nameOf w.frame.flagsOf i .and regA [.negative, .overflow, .zero],
      { w with
        frame := w.frame.useAll
          (i.usesValue [.register regA, .flags [.negative, .overflow, .zero]]) }) := by
  apply withOperand_keeps
  intro e rs
  simp

@[simp] theorem branch_apply (i : Instruction) (code : ConditionCode) (flag : Flag) :
    branch i code flag w =
      (branching w.frame.flagsOf i code flag,
        { w with frame := w.frame.useAll [.flags [flag]] }) := rfl

@[simp] theorem byOne_apply (op : Operator) (e : Expression) : byOne op e w =
    (moveByOne op e, { w with frame := w.frame.useAll [] }) := rfl

@[simp] theorem rotate_apply (function : String) (e : Expression) : rotate function e w =
    (rotated w.frame.flagsOf function e,
      { w with frame := w.frame.useAll [.flags [.carry]] }) := rfl

section
variable {w} {change : Expression → Lifting Expression} {body : Expression → Expression}
  {us : List Use}
  (h : ∀ e vs, change e { w with frame := w.frame.useAll vs } =
    (body e, { w with frame := w.frame.useAll (vs ++ us) }))

include h in
theorem modifyAccumulator_apply (flags : List Flag) : modifyAccumulator flags change w =
    (settingWithFlags w.frame.nameOf w.frame.flagsOf regA flags
        (body (contents w.frame.nameOf regA)),
      { w with
        knowledge := w.knowledge.assign regA (body (contents w.frame.nameOf regA))
        frame := w.frame.useAll (.register regA :: us ++ usesSetting regA flags) }) := by
  simp [modifyAccumulator, h]

include h in
theorem modifyMemory_apply (place : Expression) (rs : List Register) (flags : List Flag) :
    modifyMemory place flags change { w with frame := w.frame.useAll (rs.map .register) } =
      ([.assignment (.identifier w.frame.slot) (.memory place .byte),
          .assignment (.identifier w.frame.slot) (body (.identifier w.frame.slot)),
          .assignment (.memory place .byte) (.identifier w.frame.slot),
          settingFlags w.frame.flagsOf flags (.identifier w.frame.slot)],
        { w with
          frame := w.frame.useAll
            (rs.map .register ++ (.temporary :: us ++ [.flags flags])) }) := by
  simp [modifyMemory, h, Frame.slot_useAll]

include h in
theorem modify_apply (hc : ∀ e, (body e).constant? = none) (i : Instruction) (flags : List Flag) :
    modify i flags change w =
      (modified w.frame.nameOf w.frame.flagsOf i w.frame.slot flags body,
        { w with
          knowledge := if i.mode = .accumulator then w.knowledge.forget regA else w.knowledge
          frame := w.frame.useAll (i.usesModified flags us) }) := by
  unfold modify modified Instruction.usesModified
  by_cases ha : i.mode = .accumulator
  · rw [if_pos ha, if_pos ha, if_pos ha, if_pos ha, modifyAccumulator_apply h, Knowledge.assign,
      hc]
    rfl
  · rw [if_neg ha, if_neg ha, if_neg ha, if_neg ha, Instruction.usesPlace]
    obtain ⟨place, hp, hm⟩ | ⟨hp, hm, hi⟩ := place?_cases w.frame.nameOf i
    · simp [hp, hm, modifyMemory_apply h]
    · simp [hp, hm, hi]

end

@[simp] theorem modify_byOne (op : Operator) (i : Instruction) (flags : List Flag) :
    modify i flags (byOne op) w =
      (modified w.frame.nameOf w.frame.flagsOf i w.frame.slot flags (moveByOne op),
        { w with
          knowledge := if i.mode = .accumulator then w.knowledge.forget regA else w.knowledge
          frame := w.frame.useAll (i.usesModified flags []) }) := by
  apply modify_apply
  · intro e vs
    simp
  · intro e
    rfl

@[simp] theorem modify_rotate (function : String) (i : Instruction) (flags : List Flag) :
    modify i flags (rotate function) w =
      (modified w.frame.nameOf w.frame.flagsOf i w.frame.slot flags
          (rotated w.frame.flagsOf function),
        { w with
          knowledge := if i.mode = .accumulator then w.knowledge.forget regA else w.knowledge
          frame := w.frame.useAll (i.usesModified flags [.flags [.carry]]) }) := by
  apply modify_apply
  · intro e vs
    simp
  · intro e
    rfl

@[simp] theorem stepRegister_apply (r : Register) (op : Operator) : stepRegister r op w =
    (settingWithFlags w.frame.nameOf w.frame.flagsOf r resultFlags
        (moveByOne op (contents w.frame.nameOf r)),
      { w with
        knowledge := ((w.knowledge.contents? r).map (op.fold · (.byte 1))).elim
          (w.knowledge.forget r) ((w.knowledge.forget r).record r)
        frame := w.frame.useAll (usesSetting r resultFlags) }) := by
  have hc : Lifting.contents? r w = (w.knowledge.contents? r, w) := rfl
  unfold stepRegister
  cases hk : w.knowledge.contents? r with
  | none => simp [hc, hk, Knowledge.assign, Expression.constant?, settingWithFlags, usesSetting,
      moveByOne]
  | some c => simp [hc, hk, Knowledge.assign, Expression.constant?, settingWithFlags, usesSetting,
      moveByOne, Lifting.record]

theorem learned_of_loads? {i : Instruction} {r : Register} (h : i.mnemonic.loads? = some r)
    (k : Knowledge) : i.learned k =
      if i.mode = .immediate then k.record r (.byte (i.value.setWidth 8))
      else if i.mode.hasOperand then k.forget r else k := by
  have hw : i.written = if i.mode.hasOperand then [r] else [] := by
    unfold Instruction.written
    cases hm : i.mnemonic <;> rw [hm] at h <;> cases h <;> rfl
  unfold Instruction.learned Instruction.computed?
  rw [h, hw]
  by_cases hm : i.mode = .immediate
  · simp [hm, Mode.hasOperand, Knowledge.record_forget]
  · simp [hm]

theorem learned_of_steps? {i : Instruction} {r : Register} {op : Operator}
    (h : i.mnemonic.steps? = some (r, op)) (k : Knowledge) : i.learned k =
      ((k.contents? r).map (op.fold · (.byte 1))).elim (k.forget r) ((k.forget r).record r) := by
  have hw : i.mnemonic.loads? = none ∧ i.written = [r] := by
    unfold Instruction.written
    cases hm : i.mnemonic <;> rw [hm] at h <;> cases h <;> exact ⟨rfl, rfl⟩
  unfold Instruction.learned Instruction.computed?
  rw [hw.1, hw.2, h]
  cases hc : k.contents? r <;> simp [hc]

theorem learned_of_forgets {i : Instruction} (hl : i.mnemonic.loads? = none)
    (hs : i.mnemonic.steps? = none) (k : Knowledge) : i.learned k = k.forgetAll i.written := by
  unfold Instruction.learned Instruction.computed?
  rw [hl, hs]
  rfl

theorem lift_eq (host : Host) (i : Instruction) : lift host i w =
    (emitted w.frame.names host i,
      { knowledge := i.learned w.knowledge
        frame := w.frame.useAll i.uses
        questions := w.questions ++ i.asked }) := by
  -- Loads and steps may learn something, all the others only forget what they write.
  obtain ⟨a, mnemonic, mode, value⟩ := i
  cases mnemonic with
  | lda | ldx | ldy =>
    rw [learned_of_loads? rfl]
    simp [lift, emitted, Instruction.uses, Instruction.asked, Frame.names]
  | inx | iny | dex | dey =>
    rw [learned_of_steps? rfl]
    simp [lift, emitted, Instruction.uses, Instruction.asked, Frame.names]
  | _ =>
    rw [learned_of_forgets rfl rfl]
    simp [lift, emitted, Instruction.uses, Instruction.asked, Frame.names,
      Instruction.written]

end

end Mos6502

end RegisterTransfer
