import RegisterTransfer.Proofs.Mips.DataInstructions
import RegisterTransfer.Proofs.Session

namespace RegisterTransfer

variable {M : Type}

namespace Knowledge

def HeldBy (k : Knowledge) (s : Mips.Machine M) : Prop :=
  ∀ n c, k.get? n = some c → c.pattern? 32 = some (s.registers n)

end Knowledge

namespace Mips

open Knowledge

section Preservation
variable {k : Knowledge} {s t : Machine M} {e : Surroundings M}

theorem heldBy_forget (h : k.HeldBy s) (r : Register) (x : BitVec 32) :
    (k.forget r).HeldBy (s.put r.number x) := by
  intro n c hc
  rw [Knowledge.forget, Table.get?_erase] at hc
  split at hc
  · cases hc
  · rename_i hn
    rw [Machine.put_of_ne (Ne.symm hn)]
    exact h n c hc

theorem heldBy_record (h : k.HeldBy s) (r : Register) {c : Constant} {x : BitVec 32}
    (hx : c.pattern? 32 = some x) : (k.record r c).HeldBy (s.put r.number x) := by
  intro n d hd
  rw [Knowledge.record, Table.get?_insert] at hd
  split at hd
  · rename_i hn
    cases hd
    subst hn
    rw [hx, Machine.put_self]
  · rename_i hn
    rw [Machine.put_of_ne (Ne.symm hn)]
    exact h n d hd

theorem heldBy_assign (h : k.HeldBy s) (r : Register) {source : Expression} {x : BitVec 32}
    (hx : source.pattern? (s.interpretation e) 32 = some x) :
    (k.assign r source).HeldBy (s.put r.number x) := by
  unfold Knowledge.assign
  cases hc : source.constant? with
  | none => exact heldBy_forget h r x
  | some c =>
    cases source with
    | constant d =>
      cases hc
      exact heldBy_record h r hx
    | _ => cases hc

theorem heldBy_assignGpr (h : k.HeldBy s) (r : Gpr) {source : Expression} {x : BitVec 32}
    (hx : source.pattern? (s.interpretation e) 32 = some x) :
    (k.assignGpr r source).HeldBy (s.set r x) := by
  unfold Knowledge.assignGpr Machine.set
  by_cases hr : r = zeroRegister
  · rw [if_pos hr, if_pos hr]
    exact h
  · rw [if_neg hr, if_neg hr]
    have hs := heldBy_assign h r.register hx
    rwa [Gpr.register, register_number] at hs

theorem heldBy_learn (h : k.HeldBy s) (r : Gpr) {known : Option Constant}
    (hk : ∀ c ∈ known, r ≠ zeroRegister → c.pattern? 32 = some (s.registers r)) :
    (k.learn r known).HeldBy s := by
  unfold Knowledge.learn
  split
  · exact h
  · rename_i hr
    cases known with
    | none => exact h
    | some c =>
      have hs := heldBy_record h r.register (hk c rfl hr)
      rw [Gpr.register, register_number] at hs
      have hput : s.put r (s.registers r) = s := by
        simp [Machine.put]
      rwa [hput] at hs

end Preservation

section Folding
variable {k : Knowledge} {s : Machine M}

theorem pattern?_fold {op : Operator} (ho : op.isComparison = false) {c : Constant} {x : BitVec 32}
    (hc : c.pattern? 32 = some x) (y : BitVec 32) :
    (op.fold c (.word32 y)).pattern? 32 = (op.fold (.word32 x) (.word32 y)).pattern? 32 := by
  rw [fold_combine op ho]
  obtain ⟨t, v⟩ := c
  cases t with
  | word32 | int32 | ptr32 =>
    cases hc
    simp only [Operator.fold, ho, Constant.resize, Constant.word32, Operator.shiftAmount,
      BitVec.setWidth_eq]
    rfl
  | _ => cases hc

theorem pattern?_value? (hk : k.HeldBy s) (h0 : s.registers 0 = 0) {r : Gpr} {c : Constant}
    (hc : k.value? r = some c) : c.pattern? 32 = some (s.registers r) := by
  unfold Knowledge.value? at hc
  by_cases hr : r = zeroRegister
  · rw [if_pos hr] at hc
    cases hc
    have hz : s.registers (zeroRegister : Gpr) = 0 := h0
    rw [hr, hz]
    rfl
  · rw [if_neg hr, Knowledge.contents?, Gpr.register, register_number] at hc
    exact hk r c hc

theorem folded?_arithmetic (hk : k.HeldBy s) (h0 : s.registers 0 = 0) {op : ArithmeticOp}
    (rt : Gpr) {rs : Gpr} {immediate : BitVec 16} {c : Constant}
    (hc : (Operation.arithmetic op rt rs immediate).folded? k = some c) :
    c.pattern? 32 = some (op.compute (s.registers rs) (immediate.signExtend 32)) := by
  cases op with
  | addi | addiu =>
    obtain ⟨d, hd, rfl⟩ := Option.map_eq_some_iff.mp hc
    rw [pattern?_fold rfl (pattern?_value? hk h0 hd), fold_iadd]
    rfl
  | slti | sltiu => cases hc

theorem folded?_logical (hk : k.HeldBy s) (h0 : s.registers 0 = 0) {op : LogicalOp}
    (rt : Gpr) {rs : Gpr} {immediate : BitVec 16} {c : Constant}
    (hc : (Operation.logical op rt rs immediate).folded? k = some c) :
    c.pattern? 32 = some (op.compute (s.registers rs) (immediate.setWidth 32)) := by
  obtain ⟨d, hd, rfl⟩ := Option.map_eq_some_iff.mp hc
  rw [pattern?_fold (by cases op <;> rfl) (pattern?_value? hk h0 hd), fold_logical]
  rfl

end Folding

section Steps
variable {name : Register → Identifier} (hn : ∀ r, (name r).storage = .register r)
  {k : Knowledge} {s : Machine M} (hk : k.HeldBy s) (h0 : s.registers 0 = 0)
  (o : Nat → Surroundings M)

def Upholds (o : Nat → Surroundings M) (ts : List Transfer) (s : Machine M) (k : Knowledge) :
    Prop :=
  ∃ t, executeAll o ts s = some t ∧ t.registers 0 = 0 ∧ k.HeldBy t

theorem Upholds.append {o : Nat → Surroundings M} {ts us : List Transfer} {k' : Knowledge}
    (h : Upholds o ts s k)
    (hnext : ∀ t, t.registers 0 = 0 → k.HeldBy t → Upholds (fun n => o (n + ts.length)) us t k') :
    Upholds o (ts ++ us) s k' := by
  obtain ⟨t, ht, h0, hk⟩ := h
  obtain ⟨u, hu, hu0, hku⟩ := hnext t h0 hk
  exact ⟨u, by rw [executeAll_append, ht, Option.bind_some, hu], hu0, hku⟩

include hn hk h0 in
theorem setting_upholds {r : Gpr} {source : Expression} {x : BitVec 32}
    (hx : source.pattern? (s.interpretation (o 0)) 32 = some x) :
    Upholds o [setting name r source] s (k.assignGpr r source) :=
  ⟨s.set r x, (executeAll_single o _).trans (execute_setting hn hx r), Machine.set_zero h0 r x,
    heldBy_assignGpr hk r hx⟩

include hn hk h0 in
theorem setting_upholds_learn {r : Gpr} {source : Expression} {x : BitVec 32}
    (hx : source.pattern? (s.interpretation (o 0)) 32 = some x) {known : Option Constant}
    (hc : ∀ c ∈ known, c.pattern? 32 = some x) :
    Upholds o [setting name r source] s ((k.assignGpr r source).learn r known) := by
  refine ⟨s.set r x, (executeAll_single o _).trans (execute_setting hn hx r),
    Machine.set_zero h0 r x, ?_⟩
  apply heldBy_learn (heldBy_assignGpr hk r hx)
  intro c hmem hr
  rw [hc c hmem, Machine.set_self hr]

include hn in
theorem pattern?_binary {op : Operator} (ho : op.isComparison = false) (rs rt : Gpr)
    (h0 : s.registers 0 = 0) (e : Surroundings M) :
    ∃ x, (pair name op .word32 rs rt).pattern? (s.interpretation e) 32 = some x := by
  have hv := value?_pair hn h0 e op .word32 rs rt
  rw [fold_combine op ho] at hv
  exact ⟨_, Expression.pattern?_of_value? hv⟩

include hn in
theorem pattern?_halves (op : ProductOp) (rs rt : Gpr) (h0 : s.registers 0 = 0)
    (e : Surroundings M) :
    let halves := op.halves (operand name rs) (operand name rt)
    (∃ x, halves.1.pattern? (s.interpretation e) 32 = some x) ∧
      ∃ x, halves.2.pattern? (s.interpretation e) 32 = some x := by
  have hbin (operator : Operator) (ho : operator.isComparison = false) :=
    pattern?_binary hn ho rs rt h0 e
  unfold pair at hbin
  have happ (f : String) : ∃ x, (Expression.application f [operand name rs, operand name rt]
      .word32).pattern? (s.interpretation e) 32 = some x := by
    simp only [Expression.pattern?, Expression.value?, Expression.values?, value?_operand hn h0]
    exact ⟨_, rfl⟩
  cases op with
  | mult => exact ⟨hbin .imul rfl, happ _⟩
  | multu => exact ⟨hbin .umul rfl, happ _⟩
  | div => exact ⟨hbin .sdiv rfl, hbin .smod rfl⟩
  | divu => exact ⟨hbin .udiv rfl, hbin .umod rfl⟩

include hn hk h0 in
theorem product_upholds (op : ProductOp) (rs rt : Gpr) (host : Host) (a : Address) :
    Upholds o (emitted name host ⟨a, .product op rs rt⟩) s
      ((Operation.product op rs rt).learned name k) := by
  obtain ⟨⟨x, hx⟩, -⟩ := pattern?_halves hn op rs rt h0 (o 0)
  let t := s.put HiLo.lo.register.number x
  have ht0 : t.registers 0 = 0 := by
    rw [Machine.put_of_ne (by decide), h0]
  obtain ⟨-, y, hy⟩ := pattern?_halves hn op rs rt ht0 (o 1)
  refine ⟨t.put HiLo.hi.register.number y, ?_, ?_, ?_⟩
  · simp only [emitted, executeAll, execute_assignment hn, hx, Option.map_some, Option.bind_some]
    rw [show s.put HiLo.lo.register.number x = t from rfl, hy]
    rfl
  · rw [Machine.put_of_ne (by decide), ht0]
  · exact heldBy_assign (heldBy_assign hk _ hx) _ hy

include hk h0 in
theorem call_upholds (callee : Expression) :
    Upholds o [.call callee 0 callKind] s (k.forget returnAddress.register) := by
  refine ⟨s.put returnAddress (o 0).link, executeAll_single o _, ?_, ?_⟩
  · rw [Machine.put_of_ne (by decide), h0]
  · exact heldBy_forget hk returnAddress.register (o 0).link

include hn hk h0 in
theorem linkTransfers_uphold (a : Address) (op : Operation) :
    Upholds o (linkTransfers name a op) s (op.link?.elim k (k.forget ·.register)) := by
  have he := executeAll_linkTransfers hn (s := s) o a op
  cases hl : op.link? with
  | none =>
    rw [hl] at he
    exact ⟨s, he, h0, hk⟩
  | some r =>
    rw [hl] at he
    refine ⟨s.put r (continuation a).word, he, ?_, ?_⟩
    · have hz : 0 ≠ (r : Nat) := fun h => link?_ne_zero hl (Fin.ext h.symm)
      exact (Machine.put_of_ne hz _).trans h0
    · have hs := heldBy_forget hk r.register (continuation a).word
      rwa [Gpr.register, register_number] at hs

include h0 in
theorem leaving_upholds {op : Operation} (hd : op.hasDelaySlot)
    (hk : (op.link?.elim k (k.forget ·.register)).HeldBy s) (host : Host) (a : Address) :
    Upholds o [op.leaving name host a] s (op.learned name k) := by
  cases op with
  | compareBranch op rs rt target =>
    refine ⟨s, ?_, h0, hk⟩
    rw [executeAll_single, Operation.leaving, compareTransfer]
    split <;> rfl
  | signBranch | jump => exact ⟨s, executeAll_single o _, h0, hk⟩
  | jumpRegister rs =>
    refine ⟨s, ?_, h0, hk⟩
    rw [executeAll_single, Operation.leaving]
    split <;> rfl
  | jumpAndLink | jumpAndLinkRegister => exact call_upholds hk h0 o _
  | _ => cases hd

include hn hk h0 in
theorem emitted_upholds_learned (host : Host) (a : Address) (op : Operation) :
    Upholds o (emitted name host ⟨a, op⟩) s (op.learned name k) := by
  by_cases hd : op.hasDelaySlot
  · rw [emitted_of_hasDelaySlot name hd]
    apply (linkTransfers_uphold hn hk h0 o a op).append
    intro t ht hkt
    exact leaving_upholds ht _ hd hkt host a
  · cases op with
    | nop | syscall | breakpoint => exact ⟨s, rfl, h0, hk⟩
    | shift op rd rt amount =>
      exact setting_upholds hn hk h0 o
        (Expression.pattern?_of_value? (value?_shiftSource hn h0 (o 0) op rt amount))
    | shiftVariable op rd rt rs =>
      have ho : op.operator.isComparison = false := by cases op <;> rfl
      obtain ⟨x, hx⟩ := pattern?_binary hn ho rt rs h0 (o 0)
      exact setting_upholds hn hk h0 o hx
    | alu op rd rs rt =>
      exact setting_upholds hn hk h0 o
        (Expression.pattern?_of_value? (value?_aluSource hn h0 (o 0) op rs rt))
    | arithmetic op rt rs immediate =>
      exact setting_upholds_learn hn hk h0 o
        (Expression.pattern?_of_value? (value?_arithmeticSource hn h0 (o 0) op rs _))
        (fun c hc => folded?_arithmetic hk h0 rt hc)
    | logical op rt rs immediate =>
      exact setting_upholds_learn hn hk h0 o
        (Expression.pattern?_of_value? (value?_logicalSource hn h0 (o 0) op rs _))
        (fun c hc => folded?_logical hk h0 rt hc)
    | lui rt immediate => exact setting_upholds hn hk h0 o rfl
    | load op rt base offset =>
      exact setting_upholds hn hk h0 o (pattern?_load hn h0 (o 0) op base offset)
    | store op rt base offset =>
      exact ⟨_, (executeAll_single o _).trans (execute_store hn h0 op rt base offset), h0, hk⟩
    | product op rs rt => exact product_upholds hn hk h0 o op rs rt host a
    | moveFrom source rd =>
      exact setting_upholds hn hk h0 o (Expression.pattern?_of_value? (value?_name hn (o 0) _))
    | moveTo destination rs =>
      have hx := Expression.pattern?_of_value? (value?_operand hn h0 (o 0) rs)
      refine ⟨s.put destination.register.number (s.registers rs), ?_, ?_, heldBy_assign hk _ hx⟩
      · simp only [emitted, executeAll_single, execute_assignment hn, hx, Option.map_some]
      · rw [Machine.put_of_ne (by cases destination <;> decide), h0]
    | _ => exact absurd rfl hd

end Steps

section Traced
variable {k : Knowledge} {s : Machine M} (hk : k.HeldBy s) (h0 : s.registers 0 = 0)

def Operation.traced (k : Knowledge) : Operation → Option Gpr
  | .lui rt _ => some rt
  | .arithmetic .addi rt rs _ | .arithmetic .addiu rt rs _ | .logical _ rt rs _ =>
    if rs = zeroRegister ∨ (k.contents? rs.register).isSome then some rt else none
  | _ => none

theorem value?_of_traced {k : Knowledge} {rt rs r : Gpr}
    (h : (if rs = zeroRegister ∨ (k.contents? rs.register).isSome then some rt else none) =
      some r) : rt = r ∧ ∃ c, k.value? rs = some c := by
  split at h
  · rename_i hs
    cases h
    refine ⟨rfl, ?_⟩
    unfold Knowledge.value?
    by_cases hz : rs = zeroRegister
    · exact ⟨_, if_pos hz⟩
    · rw [if_neg hz]
      exact Option.isSome_iff_exists.mp (hs.resolve_left hz)
  · cases h

theorem contents?_learn (k : Knowledge) {r : Gpr} (hr : r ≠ zeroRegister) (c : Constant) :
    (k.learn r (some c)).contents? r.register = some c := by
  rw [Knowledge.learn, if_neg hr]
  exact contents?_record k r.register c

include hk h0 in
theorem traced_recorded {name : Register → Identifier} {op : Operation} {r : Gpr}
    (h : op.traced k = some r) (hr : r ≠ zeroRegister) :
    ∃ c, (op.learned name k).contents? r.register = some c ∧
      ∀ e : Surroundings M, c.pattern? 32 = some ((op.effect e s).registers r) := by
  cases op with
  | lui rt immediate =>
    cases h
    refine ⟨.word32 (immediate ++ 0#16), ?_, ?_⟩
    · rw [Operation.learned, Knowledge.assignGpr, if_neg hr]
      exact contents?_record k r.register _
    · intro e
      rw [Operation.effect, Machine.set_self hr]
      rfl
  | arithmetic op rt rs immediate =>
    cases op with
    | addi | addiu =>
      obtain ⟨rfl, d, hd⟩ := value?_of_traced h
      have hf := congrArg
        (Option.map (Operator.iadd.fold · (.word32 (immediate.signExtend 32)))) hd
      refine ⟨Operator.iadd.fold d (.word32 (immediate.signExtend 32)), ?_, ?_⟩
      · rw [Operation.learned, Operation.folded?, hf]
        exact contents?_learn _ hr _
      · intro e
        rw [Operation.effect, Machine.set_self hr]
        exact folded?_arithmetic hk h0 rt hf
    | slti | sltiu => cases h
  | logical op rt rs immediate =>
    obtain ⟨rfl, d, hd⟩ := value?_of_traced h
    have hf := congrArg (Option.map (op.operator.fold · (.word32 (immediate.setWidth 32)))) hd
    refine ⟨op.operator.fold d (.word32 (immediate.setWidth 32)), ?_, ?_⟩
    · rw [Operation.learned, Operation.folded?, hf]
      exact contents?_learn _ hr _
    · intro e
      rw [Operation.effect, Machine.set_self hr]
      exact folded?_logical hk h0 rt hf
  | _ => cases h

end Traced

end Mips

namespace Session

open Mips

theorem take_upholds (o : Nat → Surroundings M) (host : Host) {order : ByteOrder} (n : Nat)
    {r : Session} (ha : r.architecture = .mips order) {s : Machine M} (h0 : s.registers 0 = 0)
    (hk : r.workspace.knowledge.HeldBy s) :
    Upholds o (transfers (r.take host n).1) s (r.take host n).2.workspace.knowledge := by
  -- The session and the machine move together, and the surroundings count on.
  induction n generalizing r s o with
  | zero => exact ⟨s, rfl, h0, hk⟩
  | succ n ih =>
    rw [take]
    cases hnext : r.next host with
    | none => exact ⟨s, rfl, h0, hk⟩
    | some pulled =>
      obtain ⟨item, t⟩ := pulled
      cases item with
      | error e =>
        obtain ⟨_, _, _, rfl⟩ := next_eq_error_iff.mp hnext
        exact ih o (r := { r with failed := true }) ha h0 hk
      | ok c =>
        obtain ⟨_, i, hi, rfl, rfl⟩ := next_eq_ok_iff.mp hnext
        rw [ha] at hi
        obtain ⟨w, op, _, _, rfl⟩ := Architecture.decode?_mips.mp hi
        have hstep := emitted_upholds_learned r.workspace.frame.nameOf_storage hk h0 o host
          r.cursor.address op
        have hts : transfers ((.ok (r.cluster host (.mips ⟨r.cursor.address, op⟩)) ::
            ((r.past host (.mips ⟨r.cursor.address, op⟩)).take host n).1)) =
            emitted r.workspace.frame.nameOf host ⟨r.cursor.address, op⟩ ++
              transfers ((r.past host (.mips ⟨r.cursor.address, op⟩)).take host n).1 := by
          rw [cluster_mips]
          rfl
        simp only
        rw [hts]
        apply hstep.append
        intro t ht0 hkt
        apply ih _ (r := r.past host (.mips ⟨r.cursor.address, op⟩)) ha ht0
        rw [workspace_past]
        exact hkt

theorem run_upholds_knowledge (o : Nat → Surroundings M) (host : Host) (order : ByteOrder)
    (c : Cursor) (k : Knowledge) (f : Frame) (s : Machine M) (h0 : s.registers 0 = 0)
    (hk : k.HeldBy s) (n : Nat) :
    let run := (start (.mips order) c k f).take host n
    ∃ t, executeAll o (transfers run.1) s = some t ∧ t.registers 0 = 0 ∧
      run.2.workspace.knowledge.HeldBy t ∧
      ∀ x u w op r, run.2.next host = some (.ok x, u) → run.2.cursor.peek32 0 = .ok w →
        decode run.2.cursor.address w = some op → op.traced run.2.workspace.knowledge = some r →
        r ≠ zeroRegister → ∃ d, u.workspace.knowledge.contents? r.register = some d ∧
          ∀ e : Surroundings M, d.pattern? 32 = some ((op.effect e t).registers r) := by
  intro run
  obtain ⟨t, ht, ht0, hkt⟩ := take_upholds o host n (r := start (.mips order) c k f) rfl h0 hk
  refine ⟨t, ht, ht0, hkt, ?_⟩
  intro x u w op r hnext hw hop htr hr
  obtain ⟨_, i, hi, rfl, rfl⟩ := next_eq_ok_iff.mp hnext
  have ha : run.2.architecture = .mips order := architecture_take host n _
  rw [ha, Architecture.decode?_mips.mpr ⟨w, op, hw, hop, rfl⟩] at hi
  cases hi
  rw [workspace_past]
  exact traced_recorded hkt ht0 htr hr

theorem run_knows_address :
    let host : Host := ⟨fun _ _ => none, fun _ => none⟩
    let run := (start (.mips .little)
      ⟨⟨.ptr32 0x10000, [0x41, 0x00, 0x1C, 0x3C, 0x00, 0x80, 0x9C, 0x37]⟩, 0, .little⟩
      (Table.empty.insert 29 (.word32 0x7FFF0000)) (.empty 32)).take host 1
    ∃ t : Machine (BitVec 32 → BitVec 8),
      executeAll (fun _ => bytewise) (transfers run.1)
        ⟨fun n => if n = 29 then 0x7FFF0000 else 0, fun _ => 0⟩ = some t ∧
      t.registers 28 = 0x410000 ∧ t.registers 29 = 0x7FFF0000 ∧
      ∃ x u d, run.2.next host = some (.ok x, u) ∧
        u.workspace.knowledge.contents? (Gpr.register 28) = some d ∧
        d.pattern? 32 =
          some (((Operation.logical .ori 28 28 0x8000).effect bytewise t).registers 28) := by
  intro host run
  have hk : Knowledge.HeldBy (M := BitVec 32 → BitVec 8)
      (Table.empty.insert 29 (.word32 0x7FFF0000))
      ⟨fun n => if n = 29 then 0x7FFF0000 else 0, fun _ => 0⟩ := by
    intro n d hd
    rw [Table.get?_insert] at hd
    split at hd
    · rename_i hn
      subst hn
      cases hd
      exact Constant.pattern?_word32 _
    · cases hd
  obtain ⟨t, ht, -, hkt, hlast⟩ := run_upholds_knowledge (fun _ => bytewise) host .little
    ⟨⟨.ptr32 0x10000, [0x41, 0x00, 0x1C, 0x3C, 0x00, 0x80, 0x9C, 0x37]⟩, 0, .little⟩ _ (.empty 32)
    _ rfl hk 1
  have h28 := hkt 28 (.word32 0x410000) rfl
  have h29 := hkt 29 (.word32 0x7FFF0000) rfl
  rw [Constant.pattern?_word32] at h28 h29
  let i : Instruction := .mips ⟨.ptr32 0x10004, .logical .ori 28 28 0x8000⟩
  have hnext : run.2.next host = some (.ok (run.2.cluster host i), run.2.past host i) :=
    next_eq_ok_iff.mpr ⟨rfl, i, by decide, rfl, rfl⟩
  obtain ⟨d, hd, hx⟩ := hlast _ _ 0x379C8000 (.logical .ori 28 28 0x8000) 28 hnext rfl
    rfl rfl (by decide)
  exact ⟨t, ht, (Option.some.inj h28).symm, (Option.some.inj h29).symm, _, _, d, hnext, hd,
    hx bytewise⟩

end Session

end RegisterTransfer
