import Mathlib.Data.Fintype.Card
import RegisterTransfer.Proofs.Identifiers
import RegisterTransfer.Proofs.Mips.KnownRegisters

/-!
Register 0 as a source. With any other register in its places an instruction emits the same, but for
zero where that register stands then; a sum with zero is left out.
-/

namespace RegisterTransfer

namespace Expression

mutual

@[simp] def zeroed (x : Identifier) : Expression → Expression
  | .identifier id => if id = x then .constant (.word32 0) else .identifier id
  | .constant c => .constant c
  | .address a => .address a
  | .binary op t left right => .binary op t (left.zeroed x) (right.zeroed x)
  | .unary op t operand => .unary op t (operand.zeroed x)
  | .cast t signed operand => .cast t signed (operand.zeroed x)
  | .memory location t => .memory (location.zeroed x) t
  | .conditionOf operand => .conditionOf (operand.zeroed x)
  | .test code flags => .test code (flags.zeroed x)
  | .application function arguments t => .application function (zeroedOf x arguments) t
  | .externalProcedure name => .externalProcedure name

@[simp] def zeroedOf (x : Identifier) : List Expression → List Expression
  | [] => []
  | e :: rest => e.zeroed x :: zeroedOf x rest

end

def alone : Expression → Expression
  | .constant c => .constant (.word32 (c.resize 32))
  | e => e

@[simp] theorem alone_int32 (x : BitVec 32) :
    (Expression.constant (.int32 x)).alone = .constant (.word32 x) := by
  simp [alone, Constant.resize, Constant.int32]

@[simp] theorem alone_word32 (x : BitVec 32) :
    (Expression.constant (.word32 x)).alone = .constant (.word32 x) := by
  simp [alone, Constant.resize, Constant.word32]

/-- Zero in place of `x`. What zero is added to, or an immediate that it is combined with, is
left alone. -/
@[simp] def settled (x : Identifier) : Expression → Expression
  | .binary op t left right =>
    if op ∈ [.iadd, .or] ∧ right = .identifier x then left.zeroed x
    else if left = .identifier x ∧ (op ∈ [.iadd, .or] ∨ op = .xor ∧ right.constant?.isSome) then
      right.alone
    else .binary op t (left.zeroed x) (right.zeroed x)
  | .cast t signed operand => .cast t signed (operand.settled x)
  | .memory location t => .memory (location.settled x) t
  | e => e.zeroed x

end Expression

def Transfer.settled (x : Identifier) : Transfer → Transfer
  | .assignment destination source => .assignment (destination.settled x) (source.settled x)
  | .goto target kind => .goto (target.settled x) kind
  | .branch condition target kind => .branch (condition.settled x) (target.settled x) kind
  | .call target size kind => .call (target.settled x) size kind
  | .returning size kind => .returning size kind
  | .sideEffect e => .sideEffect (e.settled x)
  | .nop => .nop
  | .invalid => .invalid

namespace Mips

def Operand.gprs : Operand → List Gpr
  | .register r | .memory r _ => [r]
  | .signed _ | .unsigned _ | .address _ => []

attribute [local simp] Operation.operands Operand.gprs

structure Operation.Fresh (op : Operation) (q : Gpr) : Prop where
  ne_zero : q ≠ zeroRegister
  ne_link : q ≠ returnAddress
  apart : ∀ r ∈ op.operands.flatMap Operand.gprs, r ≠ q

theorem Operation.exists_fresh (op : Operation) : ∃ q, op.Fresh q := by
  let used := zeroRegister :: returnAddress :: op.operands.flatMap Operand.gprs
  have hlength : used.length ≤ 5 := by
    cases op <;> simp [used]
  have hcard : used.toFinset.card < (Finset.univ : Finset Gpr).card := by
    rw [Finset.card_fin]
    exact (List.toFinset_card_le used).trans_lt (by omega)
  obtain ⟨q, -, hq⟩ := Finset.exists_mem_notMem_of_card_lt_card hcard
  obtain ⟨hz, hl, hm⟩ : q ≠ zeroRegister ∧ q ≠ returnAddress ∧
      q ∉ op.operands.flatMap Operand.gprs := by
    simpa only [used, List.mem_toFinset, List.mem_cons, not_or] using hq
  exact ⟨q, hz, hl, fun r hr => ne_of_mem_of_not_mem hr hm⟩

def Gpr.reading (r q : Gpr) : Gpr := if r = zeroRegister then q else r

/-- The operation with `q` wherever it reads register 0. -/
def Operation.reading (q : Gpr) : Operation → Operation
  | .shift op rd rt amount => .shift op rd (rt.reading q) amount
  | .shiftVariable op rd rt rs => .shiftVariable op rd (rt.reading q) (rs.reading q)
  | .alu op rd rs rt => .alu op rd (rs.reading q) (rt.reading q)
  | .arithmetic op rt rs immediate => .arithmetic op rt (rs.reading q) immediate
  | .logical op rt rs immediate => .logical op rt (rs.reading q) immediate
  | .load op rt base offset => .load op rt (base.reading q) offset
  | .store op rt base offset => .store op (rt.reading q) (base.reading q) offset
  | .product op rs rt => .product op (rs.reading q) (rt.reading q)
  | .moveTo destination rs => .moveTo destination (rs.reading q)
  | .compareBranch op rs rt target => .compareBranch op (rs.reading q) (rt.reading q) target
  | .signBranch op rs target => .signBranch op (rs.reading q) target
  | .jumpRegister rs => .jumpRegister (rs.reading q)
  | .jumpAndLinkRegister rd rs => .jumpAndLinkRegister rd (rs.reading q)
  | op => op

def Operation.sources : Operation → List Gpr
  | .shift _ _ r _ | .arithmetic _ _ r _ | .logical _ _ r _ | .load _ _ r _ | .moveTo _ r
  | .signBranch _ r _ | .jumpRegister r | .jumpAndLinkRegister _ r => [r]
  | .shiftVariable _ _ r q | .alu _ _ r q | .store _ r q _ | .product _ r q => [r, q]
  | .compareBranch op r q _ => if op = .beq ∧ r = q then [] else [r, q]
  | .nop | .lui .. | .moveFrom .. | .jump _ | .jumpAndLink _ | .syscall | .breakpoint => []

theorem register_injective : Function.Injective Gpr.register := by
  intro r q h
  have hnumber : r.register.number = q.register.number := congrArg Register.number h
  simp only [Gpr.register, register_number] at hnumber
  exact Fin.ext hnumber

theorem register_ne_hiLo (r : Gpr) (half : HiLo) : half.register ≠ r.register := by
  intro h
  have hnumber : half.register.number = r.register.number := congrArg Register.number h
  have hr := r.isLt
  cases half <;> simp only [HiLo.register, Gpr.register, register_number] at hnumber <;> omega

section
variable {name : Register → Identifier} {r rs rt q : Gpr}

theorem alone_operand (h : r ≠ zeroRegister) : (operand name r).alone = operand name r := by
  rw [operand, if_neg h]
  rfl

theorem reading_eq_reading (hs : rs ≠ q) (ht : rt ≠ q) : rs.reading q = rt.reading q ↔ rs = rt := by
  unfold Gpr.reading
  by_cases h : rs = zeroRegister
  · by_cases h' : rt = zeroRegister
    · simp [h, h']
    · simp [h, h', Ne.symm ht, Ne.symm h']
  · by_cases h' : rt = zeroRegister
    · simp [h, h', hs]
    · simp [h, h']

section
variable (hz : q ≠ zeroRegister)
include hz

theorem reading_ne_zero : r.reading q ≠ zeroRegister := by
  unfold Gpr.reading
  by_cases h : r = zeroRegister
  · rwa [if_pos h]
  · rwa [if_neg h]

theorem operand_reading :
    operand name (r.reading q) = .identifier (name (r.reading q).register) :=
  if_neg (reading_ne_zero hz)

theorem constant?_operand_reading : (operand name (r.reading q)).constant? = none := by
  rw [operand_reading hz]
  rfl

end

theorem reading_eq_link (hq : q ≠ returnAddress) :
    r.reading q = returnAddress ↔ r = returnAddress := by
  unfold Gpr.reading
  by_cases h : r = zeroRegister
  · have hne : zeroRegister ≠ returnAddress := by decide
    simp [h, hq, hne]
  · rw [if_neg h]

theorem settled_callee (x : Identifier) (host : Host) (target continuation : Address) :
    (host.callee target continuation).settled x = host.callee target continuation := by
  unfold Host.callee
  cases host.imported target continuation <;> simp

theorem link?_ne {op : Operation} (hq : op.Fresh q) (h : op.link? = some r) : r ≠ q := by
  cases op with
  | signBranch op rs target =>
    simp only [Operation.link?] at h
    split at h <;> cases h
    exact Ne.symm hq.ne_link
  | jumpAndLinkRegister rd rs =>
    simp only [Operation.link?] at h
    split at h <;> cases h
    exact hq.apart r (by simp)
  | _ => cases h

variable (hn : ∀ r, (name r).storage = .register r)
include hn

theorem injective_of_storage : Function.Injective name := by
  intro r s h
  have hs := congrArg Identifier.storage h
  rw [hn, hn] at hs
  exact Storage.register.inj hs

theorem name_register_eq : name r.register = name q.register ↔ r = q :=
  (injective_of_storage hn).eq_iff.trans register_injective.eq_iff

theorem name_half_ne (half : HiLo) : name half.register ≠ name q.register :=
  fun h => register_ne_hiLo q half (injective_of_storage hn h)

theorem name_reading (hr : r ≠ q) :
    name (r.reading q).register = name q.register ↔ r = zeroRegister := by
  rw [name_register_eq hn, Gpr.reading]
  by_cases h : r = zeroRegister <;> simp [h, hr]

theorem settled_setting (hr : r ≠ q) {source result : Expression}
    (h : source.settled (name q.register) = result) :
    (setting name r source).settled (name q.register) = setting name r result := by
  unfold setting
  by_cases hzero : r = zeroRegister
  · rw [if_pos hzero, if_pos hzero, Transfer.settled]
  · simp [hzero, Transfer.settled, h, name_register_eq hn, hr]

theorem settled_linkTransfers {op : Operation} (hq : op.Fresh q) (a : Address) :
    (linkTransfers name a (op.reading q)).map (Transfer.settled (name q.register)) =
      linkTransfers name a op := by
  have hlink : (op.reading q).link? = op.link? := by cases op <;> rfl
  unfold linkTransfers
  rw [hlink]
  cases h : op.link? with
  | none => rfl
  | some r =>
    have hr : r ≠ q := link?_ne hq h
    simp [Transfer.settled, name_register_eq hn, hr]

variable (hz : q ≠ zeroRegister)
include hz

theorem operand_reading_eq (hr : r ≠ q) :
    operand name (r.reading q) = .identifier (name q.register) ↔ r = zeroRegister := by
  rw [operand_reading hz, Expression.identifier.injEq, name_reading hn hr]

theorem zeroed_operand (hr : r ≠ q) :
    (operand name (r.reading q)).zeroed (name q.register) = operand name r := by
  simp only [operand_reading hz, Expression.zeroed, name_reading hn hr]
  by_cases h : r = zeroRegister <;> simp [h, operand, Gpr.reading]

theorem settled_operand (hr : r ≠ q) :
    (operand name (r.reading q)).settled (name q.register) = operand name r := by
  rw [← zeroed_operand hn hz hr, operand_reading hz]
  simp

theorem zeroed_pair (hs : rs ≠ q) (ht : rt ≠ q) (op : Operator) (t : DataType) :
    (pair name op t (rs.reading q) (rt.reading q)).zeroed (name q.register) =
      pair name op t rs rt := by
  simp [pair, zeroed_operand hn hz hs, zeroed_operand hn hz ht]

theorem settled_pair (hs : rs ≠ q) (ht : rt ≠ q) {op : Operator} (ho : op ∉ [.iadd, .or])
    (t : DataType) : (pair name op t (rs.reading q) (rt.reading q)).settled (name q.register) =
      pair name op t rs rt := by
  simp [pair, Expression.settled, ho, constant?_operand_reading hz, zeroed_operand hn hz hs,
    zeroed_operand hn hz ht]

theorem settled_pairOrMove (hs : rs ≠ q) (ht : rt ≠ q) {op : Operator} (ho : op ∈ [.iadd, .or]) :
    (pairOrMove name op (rs.reading q) (rt.reading q)).settled (name q.register) =
      pairOrMove name op rs rt := by
  unfold pairOrMove
  rw [if_neg (reading_ne_zero hz), if_neg (reading_ne_zero hz), pair, Expression.settled]
  simp only [ho, true_and, true_or, and_true, operand_reading_eq hn hz hs,
    operand_reading_eq hn hz ht, zeroed_operand hn hz hs, zeroed_operand hn hz ht]
  by_cases htz : rt = zeroRegister
  · rw [if_pos htz, if_pos htz]
  · have hr : rt.reading q = rt := if_neg htz
    rw [if_neg htz, if_neg htz, hr, alone_operand htz, pair]

theorem settled_place (hr : r ≠ q) (offset : BitVec 16) :
    (place name (r.reading q) offset).settled (name q.register) = place name r offset := by
  simp [place, reading_ne_zero hz, operand_reading_eq hn hz hr, zeroed_operand hn hz hr]

theorem settled_shiftSource (hr : r ≠ q) (op : ShiftOp) (amount : BitVec 5) :
    (shiftSource name op (r.reading q) amount).settled (name q.register) =
      shiftSource name op r amount := by
  cases op <;> simp [shiftSource, ShiftOp.operator, zeroed_operand hn hz hr]

theorem settled_aluSource (hs : rs ≠ q) (ht : rt ≠ q) (op : AluOp) :
    (aluSource name op (rs.reading q) (rt.reading q)).settled (name q.register) =
      aluSource name op rs rt := by
  cases op with
  | add | addu | or => exact settled_pairOrMove hn hz hs ht (by decide)
  | sub | subu | and | xor => exact settled_pair hn hz hs ht (by decide) _
  | nor => simp [aluSource, zeroed_pair hn hz hs ht]
  | slt | sltu => simp [aluSource, ofComparison, settled_pair hn hz hs ht]

theorem settled_arithmeticSource (hr : r ≠ q) (op : ArithmeticOp) (value : BitVec 32) :
    (arithmeticSource name op (r.reading q) value).settled (name q.register) =
      arithmeticSource name op r value := by
  cases op <;>
    simp [arithmeticSource, ofComparison, reading_ne_zero hz, operand_reading_eq hn hz hr,
      zeroed_operand hn hz hr]

theorem settled_logicalSource (hr : r ≠ q) (op : LogicalOp) (value : BitVec 32) :
    (logicalSource name op (r.reading q) value).settled (name q.register) =
      logicalSource name op r value := by
  cases op <;>
    simp [logicalSource, LogicalOp.operator, Expression.constant?, reading_ne_zero hz,
      operand_reading_eq hn hz hr, zeroed_operand hn hz hr]

theorem settled_load (hr : r ≠ q) (op : LoadOp) (offset : BitVec 16) :
    (op.source (place name (r.reading q) offset)).settled (name q.register) =
      op.source (place name r offset) := by
  cases op <;> simp [LoadOp.source, settled_place hn hz hr]

theorem settled_store (hb : rs ≠ q) (ht : rt ≠ q) (op : StoreOp) (offset : BitVec 16) :
    (op.transfer (place name (rs.reading q) offset) (operand name (rt.reading q))).settled
        (name q.register) = op.transfer (place name rs offset) (operand name rt) := by
  cases op <;>
    simp [StoreOp.transfer, Transfer.settled, settled_place hn hz hb, settled_operand hn hz ht]

theorem settled_halves (hs : rs ≠ q) (ht : rt ≠ q) (op : ProductOp) :
    let halves := op.halves (operand name (rs.reading q)) (operand name (rt.reading q))
    let read := op.halves (operand name rs) (operand name rt)
    halves.1.settled (name q.register) = read.1 ∧ halves.2.settled (name q.register) = read.2 := by
  cases op <;>
    simp [ProductOp.halves, zeroed_operand hn hz hs, zeroed_operand hn hz ht]

theorem settled_compareTransfer (hs : rs ≠ q) (ht : rt ≠ q) (op : CompareBranch)
    (target : Address) :
    (compareTransfer name op (rs.reading q) (rt.reading q) target).settled (name q.register) =
      compareTransfer name op rs rt target := by
  unfold compareTransfer
  simp only [reading_eq_reading hs ht]
  by_cases h : op = .beq ∧ rs = rt
  · rw [if_pos h, if_pos h, Transfer.settled, Expression.settled] <;> simp
  · have ho : (if op = .beq then Operator.eq else .ne) ∉ [.iadd, .or] := by cases op <;> decide
    rw [if_neg h, if_neg h, Transfer.settled, settled_pair hn hz hs ht ho]
    simp

theorem settled_signTransfer (hr : r ≠ q) (op : SignBranch) (target : Address) :
    (signTransfer name op (r.reading q) target).settled (name q.register) =
      signTransfer name op r target := by
  cases op <;> simp [signTransfer, Transfer.settled, SignBranch.operator, zeroed_operand hn hz hr]

theorem settled_leaving {op : Operation} (hq : op.Fresh q) (host : Host) (a : Address) :
    ((op.reading q).leaving name host a).settled (name q.register) = op.leaving name host a := by
  cases op with
  | compareBranch op rs rt target =>
    obtain ⟨hs, ht⟩ : rs ≠ q ∧ rt ≠ q := by simpa using hq.apart
    exact settled_compareTransfer hn hz hs ht op target
  | signBranch op rs target =>
    have hr : rs ≠ q := by simpa using hq.apart
    exact settled_signTransfer hn hz hr op target
  | jumpAndLink target =>
    simp [Operation.reading, Operation.leaving, Transfer.settled, settled_callee]
  | jumpRegister rs =>
    have hr : rs ≠ q := by simpa using hq.apart
    simp only [Operation.reading, Operation.leaving, reading_eq_link hq.ne_link]
    by_cases h : rs = returnAddress
    · simp [h, Transfer.settled]
    · simp [h, Transfer.settled, settled_operand hn hz hr]
  | jumpAndLinkRegister rd rs =>
    obtain ⟨-, hr⟩ : rd ≠ q ∧ rs ≠ q := by simpa using hq.apart
    simp [Operation.reading, Operation.leaving, Transfer.settled, settled_operand hn hz hr]
  | _ => simp [Operation.reading, Operation.leaving, Transfer.settled]

theorem emitted_reading {op : Operation} (hq : op.Fresh q) (host : Host) (a : Address) :
    (emitted name host ⟨a, op.reading q⟩).map (Transfer.settled (name q.register)) =
      emitted name host ⟨a, op⟩ := by
  cases op with
  | nop | syscall | breakpoint => simp [emitted, Operation.reading, Transfer.settled]
  | shift op rd rt amount =>
    obtain ⟨hd, ht⟩ : rd ≠ q ∧ rt ≠ q := by simpa using hq.apart
    exact congrArg ([·]) (settled_setting hn hd (settled_shiftSource hn hz ht op amount))
  | shiftVariable op rd rt rs =>
    obtain ⟨hd, ht, hs⟩ : rd ≠ q ∧ rt ≠ q ∧ rs ≠ q := by simpa using hq.apart
    have ho : op.operator ∉ [.iadd, .or] := by cases op <;> decide
    exact congrArg ([·]) (settled_setting hn hd (settled_pair hn hz ht hs ho _))
  | alu op rd rs rt =>
    obtain ⟨hd, hs, ht⟩ : rd ≠ q ∧ rs ≠ q ∧ rt ≠ q := by simpa using hq.apart
    exact congrArg ([·]) (settled_setting hn hd (settled_aluSource hn hz hs ht op))
  | arithmetic op rt rs immediate =>
    obtain ⟨ht, hs⟩ : rt ≠ q ∧ rs ≠ q := by simpa using hq.apart
    exact congrArg ([·]) (settled_setting hn ht (settled_arithmeticSource hn hz hs op _))
  | logical op rt rs immediate =>
    obtain ⟨ht, hs⟩ : rt ≠ q ∧ rs ≠ q := by simpa using hq.apart
    exact congrArg ([·]) (settled_setting hn ht (settled_logicalSource hn hz hs op _))
  | lui rt immediate =>
    have ht : rt ≠ q := by simpa using hq.apart
    exact congrArg ([·]) (settled_setting hn ht (by simp))
  | load op rt base offset =>
    obtain ⟨ht, hb⟩ : rt ≠ q ∧ base ≠ q := by simpa using hq.apart
    exact congrArg ([·]) (settled_setting hn ht (settled_load hn hz hb op offset))
  | store op rt base offset =>
    obtain ⟨ht, hb⟩ : rt ≠ q ∧ base ≠ q := by simpa using hq.apart
    exact congrArg ([·]) (settled_store hn hz hb ht op offset)
  | product op rs rt =>
    obtain ⟨hs, ht⟩ : rs ≠ q ∧ rt ≠ q := by simpa using hq.apart
    obtain ⟨hlo, hhi⟩ := settled_halves hn hz hs ht op
    simp [emitted, Operation.reading, Transfer.settled, name_half_ne hn, hlo, hhi]
  | moveFrom source rd =>
    have hd : rd ≠ q := by simpa using hq.apart
    exact congrArg ([·]) (settled_setting hn hd (by simp [name_half_ne hn]))
  | moveTo destination rs =>
    have hs : rs ≠ q := by simpa using hq.apart
    simp [emitted, Operation.reading, Transfer.settled, name_half_ne hn, settled_operand hn hz hs]
  | compareBranch | signBranch | jump | jumpAndLink | jumpRegister | jumpAndLinkRegister =>
    rw [emitted_of_hasDelaySlot name (by rfl), emitted_of_hasDelaySlot name (by rfl),
      List.map_append, settled_linkTransfers hn hq, List.map_singleton, settled_leaving hn hz hq]

end

def Operation.destination? : Operation → Option Gpr
  | .shift _ r _ _ | .shiftVariable _ r _ _ | .alu _ r _ _ | .arithmetic _ r _ _ | .logical _ r _ _
  | .lui r _ | .load _ r _ _ | .moveFrom _ r | .jumpAndLinkRegister r _ => some r
  | _ => none

section
variable {name : Register → Identifier} {r : Gpr}

theorem mem_setting_source {d : Gpr} (hd : some d ≠ some zeroRegister) {source : Expression}
    {id : Identifier} (h : id ∈ source.identifiers) :
    id ∈ [setting name d source].flatMap Transfer.identifiers := by
  rw [setting, if_neg fun hz => hd (congrArg some hz)]
  simp [h]

variable {op : Operation} (h : r ∈ op.sources) (hz : r ≠ zeroRegister)
include h hz

theorem mem_leaving_of_mem_sources (hd : op.hasDelaySlot) (hl : r ≠ returnAddress) (host : Host)
    (a : Address) : name r.register ∈ (op.leaving name host a).identifiers := by
  cases op with
  | compareBranch op rs rt target =>
    rw [Operation.sources] at h
    split at h
    · cases h
    · rename_i hne
      have hm : name r.register ∈ (gprRegisters [rs, rt]).map name :=
        mem_map_gprRegisters.mpr ⟨r, h, hz, rfl⟩
      simp [Operation.leaving, compareTransfer, hne, mem_pair.mpr hm]
  | signBranch op rs target =>
    cases List.mem_singleton.mp h
    simp [Operation.leaving, signTransfer, mem_operand, hz]
  | jumpRegister rs =>
    cases List.mem_singleton.mp h
    simp [Operation.leaving, mem_operand, hl, hz]
  | jumpAndLinkRegister rd rs =>
    cases List.mem_singleton.mp h
    simp [Operation.leaving, mem_operand, hz]
  | jump | jumpAndLink => cases h
  | _ => cases hd

theorem mem_emitted_of_mem_sources (hl : r ≠ returnAddress)
    (hd : op.hasDelaySlot ∨ op.destination? ≠ some zeroRegister) (host : Host) (a : Address) :
    name r.register ∈ (emitted name host ⟨a, op⟩).flatMap Transfer.identifiers := by
  have hm : name r.register ∈ (gprRegisters op.sources).map name :=
    mem_map_gprRegisters.mpr ⟨r, h, hz, rfl⟩
  by_cases hs : op.hasDelaySlot
  · rw [emitted_of_hasDelaySlot name hs, List.flatMap_append, List.flatMap_singleton]
    exact List.mem_append_right _ (mem_leaving_of_mem_sources h hz hs hl host a)
  have hd := hd.resolve_left hs
  cases op with
  | shift op rd rt amount =>
    cases List.mem_singleton.mp h
    exact mem_setting_source hd (by simp [shiftSource, mem_operand, hz])
  | shiftVariable op rd rt rs => exact mem_setting_source hd (mem_pair.mpr hm)
  | alu op rd rs rt => exact mem_setting_source hd (mem_aluSource.mpr hm)
  | arithmetic op rt rs immediate =>
    cases List.mem_singleton.mp h
    exact mem_setting_source hd (mem_arithmeticSource.mpr ⟨hz, rfl⟩)
  | logical op rt rs immediate =>
    cases List.mem_singleton.mp h
    exact mem_setting_source hd (mem_logicalSource.mpr ⟨hz, rfl⟩)
  | load op rt base offset =>
    cases List.mem_singleton.mp h
    exact mem_setting_source hd (by cases op <;> simp [LoadOp.source, mem_place, hz])
  | store op rt base offset =>
    have hr : r = rt ∨ r = base := by simpa [Operation.sources] using h
    rcases hr with rfl | rfl <;> cases op <;>
      simp [emitted, StoreOp.transfer, mem_place, mem_operand, hz]
  | product op rs rt =>
    have hr : r = rs ∨ r = rt := by simpa [Operation.sources] using h
    rcases hr with rfl | rfl <;> simp [emitted, mem_halves, mem_operand, hz]
  | moveTo destination rs =>
    cases List.mem_singleton.mp h
    simp [emitted, mem_operand, hz]
  | nop | lui | moveFrom | syscall | breakpoint => cases h
  | _ => exact absurd rfl hs

end

theorem mem_sources_reading {op : Operation} {q : Gpr} (hq : op.Fresh q)
    (h : zeroRegister ∈ op.sources) : q ∈ (op.reading q).sources := by
  have hzero : zeroRegister.reading q = q := if_pos rfl
  have hmap : (op.reading q).sources = op.sources.map (Gpr.reading · q) := by
    cases op with
    | compareBranch op rs rt target =>
      obtain ⟨hs, ht⟩ : rs ≠ q ∧ rt ≠ q := by simpa using hq.apart
      simp only [Operation.reading, Operation.sources, reading_eq_reading hs ht]
      split <;> rfl
    | _ => rfl
  rw [hmap]
  exact List.mem_map.mpr ⟨zeroRegister, h, hzero⟩

/-- Lifting takes zero for what register 0 holds: in what is emitted, as the base of an address,
and in what becomes known. -/
structure ReadsZero (host : Host) (i : Instruction) (w : Workspace) : Prop where
  settled : ∀ q, i.operation.Fresh q → (lift host i w).1 =
    (lift host ⟨i.address, i.operation.reading q⟩ w).1.map
      (Transfer.settled (w.frame.nameOf q.register))
  read : ∀ q, i.operation.Fresh q → zeroRegister ∈ i.operation.sources →
    i.operation.hasDelaySlot ∨ i.operation.destination? ≠ some zeroRegister →
      w.frame.nameOf q.register ∈
        (lift host ⟨i.address, i.operation.reading q⟩ w).1.flatMap Transfer.identifiers
  load : ∀ op rt offset, i.operation = .load op rt zeroRegister offset → rt ≠ zeroRegister →
    (lift host i w).1 = [.assignment (.identifier (w.frame.nameOf rt.register))
      (op.source (.constant (.word32 (offset.signExtend 32))))]
  store : ∀ op rt offset, i.operation = .store op rt zeroRegister offset →
    (lift host i w).1 = [op.transfer (.constant (.word32 (offset.signExtend 32)))
      (operand w.frame.nameOf rt)]
  arithmetic : ∀ op rt immediate, op ∈ [.addi, .addiu] →
    i.operation = .arithmetic op rt zeroRegister immediate → rt ≠ zeroRegister →
      (lift host i w).2.knowledge.contents? rt.register =
        some (Operator.iadd.fold (.word32 0) (.word32 (immediate.signExtend 32)))
  logical : ∀ op rt immediate, i.operation = .logical op rt zeroRegister immediate →
    rt ≠ zeroRegister → (lift host i w).2.knowledge.contents? rt.register =
      some (op.operator.fold (.word32 0) (.word32 (immediate.setWidth 32)))

theorem lift_readsZero (host : Host) (i : Instruction) (w : Workspace) : ReadsZero host i w := by
  have hn := Frame.nameOf_storage w.frame
  obtain ⟨a, op⟩ := i
  constructor
  case settled =>
    intro q hq
    rw [lift_eq, lift_eq]
    exact (emitted_reading hn hq.ne_zero hq host a).symm
  case read =>
    intro q hq h hd
    rw [lift_eq]
    apply mem_emitted_of_mem_sources (mem_sources_reading hq h) hq.ne_zero hq.ne_link
    cases op <;> exact hd
  case load =>
    rintro op rt offset ⟨⟩ hr
    rw [lift_eq]
    simp [emitted, setting, place, hr]
  case store =>
    rintro op rt offset ⟨⟩
    rw [lift_eq]
    rfl
  case arithmetic =>
    rintro op rt immediate ho ⟨⟩ hr
    rw [lift_eq]
    cases op with
    | addi | addiu => exact contents?_learn _ hr _
    | slti | sltiu => exact absurd ho (by decide)
  case logical =>
    rintro op rt immediate ⟨⟩ hr
    rw [lift_eq]
    exact contents?_learn _ hr _

end Mips

end RegisterTransfer
