import RegisterTransfer.Proofs.Mips.Emission

namespace RegisterTransfer.Mips

inductive LoadsConstant : Operation → Gpr → BitVec 32 → Prop
  | lui {r : Gpr} {immediate : BitVec 16} : LoadsConstant (.lui r immediate) r (immediate ++ 0#16)
  | arithmetic {op : ArithmeticOp} {r : Gpr} {immediate : BitVec 16} (ho : op ∈ [.addi, .addiu]) :
      LoadsConstant (.arithmetic op r zeroRegister immediate) r (immediate.signExtend 32)
  | logical {op : LogicalOp} {r : Gpr} {immediate : BitVec 16} (ho : op ∈ [.ori, .xori]) :
      LoadsConstant (.logical op r zeroRegister immediate) r (immediate.setWidth 32)
  | alu {op : AluOp} {r : Gpr} (ho : op ∈ [.add, .addu, .or]) :
      LoadsConstant (.alu op r zeroRegister zeroRegister) r 0

section Heads
variable {name : Register → Identifier} {host : Host} {a : Address} {op : Operation}
  {ts us : List Transfer}

theorem setting_eq_assignment {r : Gpr} {source e : Expression} {x : Identifier} :
    setting name r source = .assignment (.identifier x) e ↔
      r ≠ zeroRegister ∧ name r.register = x ∧ source = e := by
  unfold setting
  by_cases h : r = zeroRegister
  · simp [h]
  · simp [h]

theorem setting_cons_eq {r : Gpr} {source e : Expression} {x : Identifier} :
    [setting name r source] ++ ts = .assignment (.identifier x) e :: us ↔
      (r ≠ zeroRegister ∧ name r.register = x ∧ source = e) ∧ ts = us := by
  rw [List.cons_append, List.nil_append, List.cons.injEq, setting_eq_assignment]

theorem operand_eq_constant {r : Gpr} {c : Constant} :
    operand name r = .constant c ↔ r = zeroRegister ∧ .word32 0 = c := by
  unfold operand
  by_cases h : r = zeroRegister
  · simp [h]
  · simp [h]

theorem operand_eq_identifier {r : Gpr} {x : Identifier} :
    operand name r = .identifier x ↔ r ≠ zeroRegister ∧ name r.register = x := by
  unfold operand
  by_cases h : r = zeroRegister
  · simp [h]
  · simp [h]

theorem pairOrMove_eq_constant {o : Operator} {rs rt : Gpr} {c : Constant} :
    pairOrMove name o rs rt = .constant c ↔
      rs = zeroRegister ∧ rt = zeroRegister ∧ .word32 0 = c := by
  unfold pairOrMove
  by_cases ht : rt = zeroRegister
  · simp [ht, operand_eq_constant]
  · by_cases hs : rs = zeroRegister
    · simp [ht, hs, operand_eq_constant]
    · simp [ht, hs, pair]

theorem aluSource_eq_constant {o : AluOp} {rs rt : Gpr} {c : Constant} :
    aluSource name o rs rt = .constant c ↔
      o ∈ [.add, .addu, .or] ∧ rs = zeroRegister ∧ rt = zeroRegister ∧ .word32 0 = c := by
  cases o <;> simp [aluSource, pairOrMove_eq_constant, pair, ofComparison]

theorem arithmeticSource_eq_constant {o : ArithmeticOp} {rs : Gpr} {x : BitVec 32} {c : Constant} :
    arithmeticSource name o rs x = .constant c ↔
      o ∈ [.addi, .addiu] ∧ rs = zeroRegister ∧ .word32 x = c := by
  by_cases h : rs = zeroRegister <;> cases o <;> simp [arithmeticSource, ofComparison, h]

theorem logicalSource_eq_constant {o : LogicalOp} {rs : Gpr} {x : BitVec 32} {c : Constant} :
    logicalSource name o rs x = .constant c ↔
      o ∈ [.ori, .xori] ∧ rs = zeroRegister ∧ .word32 x = c := by
  by_cases h : rs = zeroRegister <;> cases o <;> simp [logicalSource, h]

theorem head_of_hasDelaySlot (hd : op.hasDelaySlot) {t : Transfer}
    (h : emitted name host ⟨a, op⟩ ++ ts = t :: us) :
    (∃ x, t = .assignment x (.address (continuation a))) ∨ t = op.leaving name host a := by
  rw [emitted_of_hasDelaySlot name hd, linkTransfers] at h
  cases hl : op.link? with
  | none =>
    rw [hl] at h
    exact .inr (List.cons.inj h).1.symm
  | some r =>
    rw [hl] at h
    exact .inl ⟨_, (List.cons.inj h).1.symm⟩

theorem leaving_ne_assignment (hd : op.hasDelaySlot) (x e : Expression) :
    op.leaving name host a ≠ .assignment x e := by
  intro he
  cases op with
  | compareBranch o rs rt target =>
    simp only [Operation.leaving, compareTransfer] at he
    split at he <;> cases he
  | jumpRegister rs =>
    simp only [Operation.leaving] at he
    split at he <;> cases he
  | signBranch | jump | jumpAndLink | jumpAndLinkRegister => cases he
  | _ => cases hd

theorem source_of_hasDelaySlot (hd : op.hasDelaySlot) {x e : Expression}
    (h : emitted name host ⟨a, op⟩ ++ ts = .assignment x e :: us) :
    e = .address (continuation a) := by
  rcases head_of_hasDelaySlot hd h with ⟨y, hy⟩ | hl
  · exact (Transfer.assignment.inj hy).2
  · exact absurd hl.symm (leaving_ne_assignment hd x e)

theorem emitted_eq_constant {x : Identifier} {c : Constant}
    (h : emitted name host ⟨a, op⟩ ++ ts = .assignment (.identifier x) (.constant c) :: us) :
    ts = us ∧ ((∃ r v, LoadsConstant op r v ∧ r ≠ zeroRegister ∧ x = name r.register ∧
        c = .word32 v) ∨
      ∃ half : HiLo, x = name half.register) := by
  cases op with
  | moveTo destination rs =>
    -- A half of a product can be set to the zero of register 0.
    obtain ⟨ht, hts⟩ := List.cons.inj h
    have hx := Expression.identifier.inj (Transfer.assignment.inj ht).1
    exact ⟨hts, .inr ⟨destination, hx.symm⟩⟩
  | lui rt immediate =>
    obtain ⟨⟨hr, hx, hc⟩, hts⟩ := setting_cons_eq.mp h
    cases hc
    exact ⟨hts, .inl ⟨rt, _, .lui, hr, hx.symm, rfl⟩⟩
  | alu o rd rs rt =>
    obtain ⟨⟨hr, hx, hc⟩, hts⟩ := setting_cons_eq.mp h
    obtain ⟨ho, rfl, rfl, rfl⟩ := aluSource_eq_constant.mp hc
    exact ⟨hts, .inl ⟨rd, _, .alu ho, hr, hx.symm, rfl⟩⟩
  | arithmetic o rt rs immediate =>
    obtain ⟨⟨hr, hx, hc⟩, hts⟩ := setting_cons_eq.mp h
    obtain ⟨ho, rfl, rfl⟩ := arithmeticSource_eq_constant.mp hc
    exact ⟨hts, .inl ⟨rt, _, .arithmetic ho, hr, hx.symm, rfl⟩⟩
  | logical o rt rs immediate =>
    obtain ⟨⟨hr, hx, hc⟩, hts⟩ := setting_cons_eq.mp h
    obtain ⟨ho, rfl, rfl⟩ := logicalSource_eq_constant.mp hc
    exact ⟨hts, .inl ⟨rt, _, .logical ho, hr, hx.symm, rfl⟩⟩
  | load o => cases o <;> simp [emitted, setting_eq_assignment, LoadOp.source] at h
  | store o => cases o <;> simp [emitted, StoreOp.transfer] at h
  | product o => cases o <;> simp [emitted, ProductOp.halves] at h
  | shift | shiftVariable | moveFrom =>
    simp [emitted, setting_eq_assignment, shiftSource, pair] at h
  | nop | syscall | breakpoint => simp [emitted] at h
  | compareBranch | signBranch | jump | jumpAndLink | jumpRegister | jumpAndLinkRegister =>
    cases source_of_hasDelaySlot rfl h

theorem emitted_of_loadsConstant {r : Gpr} {v : BitVec 32} (h : LoadsConstant op r v)
    (hr : r ≠ zeroRegister) : emitted name host ⟨a, op⟩ =
      [.assignment (.identifier (name r.register)) (.constant (.word32 v))] := by
  have hs : setting name r (.constant (.word32 v)) =
      .assignment (.identifier (name r.register)) (.constant (.word32 v)) := if_neg hr
  rw [← hs]
  cases h with
  | lui => rfl
  | arithmetic ho =>
    exact congrArg (fun e => [setting name r e]) (arithmeticSource_eq_constant.mpr ⟨ho, rfl, rfl⟩)
  | logical ho =>
    exact congrArg (fun e => [setting name r e]) (logicalSource_eq_constant.mpr ⟨ho, rfl, rfl⟩)
  | alu ho =>
    exact congrArg (fun e => [setting name r e]) (aluSource_eq_constant.mpr ⟨ho, rfl, rfl, rfl⟩)

theorem operand_ne_memory (r : Gpr) (l : Expression) (t : DataType) :
    operand name r ≠ .memory l t := by
  by_cases h : r = zeroRegister <;> simp [operand, h]

theorem aluSource_ne_memory (o : AluOp) (rs rt : Gpr) (l : Expression) (t : DataType) :
    aluSource name o rs rt ≠ .memory l t := by
  have hp (op : Operator) : pairOrMove name op rs rt ≠ .memory l t := by
    unfold pairOrMove
    split
    · exact operand_ne_memory rs l t
    · split
      · exact operand_ne_memory rt l t
      · simp [pair]
  cases o <;> simp [aluSource, hp, pair, ofComparison]

theorem arithmeticSource_ne_memory (o : ArithmeticOp) (rs : Gpr) (x : BitVec 32) (l : Expression)
    (t : DataType) : arithmeticSource name o rs x ≠ .memory l t := by
  by_cases h : rs = zeroRegister <;> cases o <;> simp [arithmeticSource, ofComparison, h]

theorem logicalSource_ne_memory (o : LogicalOp) (rs : Gpr) (x : BitVec 32) (l : Expression)
    (t : DataType) : logicalSource name o rs x ≠ .memory l t := by
  by_cases h : rs = zeroRegister <;> cases o <;> simp [logicalSource, h]

theorem place_eq_binary {base : Gpr} {offset : BitVec 16} {t : DataType} {x : Identifier}
    {lo : Constant} :
    place name base offset = .binary .iadd t (.identifier x) (.constant lo) ↔
      base ≠ zeroRegister ∧ .word32 = t ∧ name base.register = x ∧
        .int32 (offset.signExtend 32) = lo := by
  unfold place
  by_cases h : base = zeroRegister
  · simp [h]
  · simp [h, operand]

theorem emitted_eq_load {x y : Identifier} {lo : Constant} {t : DataType}
    (h : emitted name host ⟨a, op⟩ ++ ts = .assignment (.identifier y)
      (.memory (.binary .iadd t (.identifier x) (.constant lo)) .word32) :: us) :
    ts = us ∧ ∃ rt base offset, op = .load .lw rt base offset ∧ rt ≠ zeroRegister ∧
      base ≠ zeroRegister ∧ y = name rt.register ∧ x = name base.register ∧
      lo = .int32 (offset.signExtend 32) := by
  cases op with
  | load o rt base offset =>
    cases o with
    | lw =>
      obtain ⟨⟨hr, hy, hm⟩, hts⟩ := setting_cons_eq.mp h
      obtain ⟨hb, -, hx, hlo⟩ := place_eq_binary.mp (Expression.memory.inj hm).1
      exact ⟨hts, rt, base, offset, rfl, hr, hb, hy.symm, hx.symm, hlo.symm⟩
    | _ => simp [emitted, setting_eq_assignment, LoadOp.source] at h
  | alu o rd rs rt => simp [emitted, setting_eq_assignment, aluSource_ne_memory] at h
  | arithmetic => simp [emitted, setting_eq_assignment, arithmeticSource_ne_memory] at h
  | logical => simp [emitted, setting_eq_assignment, logicalSource_ne_memory] at h
  | moveTo => simp [emitted, operand_ne_memory] at h
  | store o => cases o <;> simp [emitted, StoreOp.transfer] at h
  | product o => cases o <;> simp [emitted, ProductOp.halves] at h
  | shift | shiftVariable | moveFrom | lui =>
    simp [emitted, setting_eq_assignment, shiftSource, pair] at h
  | nop | syscall | breakpoint => simp [emitted] at h
  | compareBranch | signBranch | jump | jumpAndLink | jumpRegister | jumpAndLinkRegister =>
    cases source_of_hasDelaySlot rfl h

theorem emitted_eq_goto {y : Identifier}
    (h : emitted name host ⟨a, op⟩ ++ ts = .goto (.identifier y) .delayed :: us) :
    ∃ rs, op = .jumpRegister rs ∧ rs ≠ zeroRegister ∧ rs ≠ returnAddress ∧
      y = name rs.register := by
  have hset (r : Gpr) (e : Expression) : setting name r e ≠ .goto (.identifier y) .delayed := by
    by_cases hr : r = zeroRegister <;> simp [setting, hr]
  by_cases hd : op.hasDelaySlot
  · obtain ⟨x, hx⟩ | hl := head_of_hasDelaySlot hd h
    · cases hx
    · cases op with
      | jumpRegister rs =>
        by_cases hr : rs = returnAddress
        · simp [Operation.leaving, hr] at hl
        · simp only [Operation.leaving, if_neg hr, Transfer.goto.injEq, and_true] at hl
          obtain ⟨hz, hy⟩ := operand_eq_identifier.mp hl.symm
          exact ⟨rs, rfl, hz, hr, hy.symm⟩
      | compareBranch o rs rt target =>
        by_cases hs : o = .beq ∧ rs = rt <;> simp [Operation.leaving, compareTransfer, hs] at hl
      | _ => simp [Operation.leaving, signTransfer] at hl
  · cases op with
    | store o => cases o <;> simp [emitted, StoreOp.transfer] at h
    | shift | shiftVariable | alu | arithmetic | logical | lui | load | moveFrom =>
      simp [emitted, hset] at h
    | nop | product | moveTo | syscall | breakpoint => simp [emitted] at h
    | _ => exact absurd rfl hd

end Heads

end RegisterTransfer.Mips
