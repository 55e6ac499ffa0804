import RegisterTransfer.Proofs.Clusters
import RegisterTransfer.Proofs.Evaluation

namespace RegisterTransfer

structure Interpretation.SameWorld (I J : Interpretation) : Prop where
  pointer : I.pointer = J.pointer
  load : I.load = J.load
  intrinsic : I.intrinsic = J.intrinsic

namespace Expression

mutual

@[simp] def identifiers : Expression → List Identifier
  | .identifier id => [id]
  | .constant _ | .address _ | .externalProcedure _ => []
  | .binary _ _ left right => left.identifiers ++ right.identifiers
  | .unary _ _ operand | .cast _ _ operand | .conditionOf operand => operand.identifiers
  | .memory location _ => location.identifiers
  | .test _ flags => flags.identifiers
  | .application _ arguments _ => identifiersOf arguments

@[simp] def identifiersOf : List Expression → List Identifier
  | [] => []
  | e :: rest => e.identifiers ++ identifiersOf rest

end

mutual

theorem value?_congr {I J : Interpretation} (hIJ : I.SameWorld J) (e : Expression)
    (h : ∀ id ∈ e.identifiers, I.contents id.storage = J.contents id.storage) :
    e.value? I = e.value? J := by
  cases e with
  | identifier id => exact h id (List.mem_singleton_self id)
  | address a => rw [value?, value?, hIJ.pointer]
  | binary op t left right =>
    have hleft := value?_congr hIJ left fun id hid => h id (List.mem_append_left _ hid)
    have hright := value?_congr hIJ right fun id hid => h id (List.mem_append_right _ hid)
    rw [value?, value?, hleft, hright]
  | unary op t operand => rw [value?, value?, value?_congr hIJ operand h]
  | cast t signed operand => rw [value?, value?, value?_congr hIJ operand h]
  | memory location t => rw [value?, value?, value?_congr hIJ location h, hIJ.load]
  | application function arguments t =>
    rw [value?, value?, values?_congr hIJ arguments h, hIJ.intrinsic]
  | constant | conditionOf | test | externalProcedure => rfl

theorem values?_congr {I J : Interpretation} (hIJ : I.SameWorld J) (es : List Expression)
    (h : ∀ id ∈ identifiersOf es, I.contents id.storage = J.contents id.storage) :
    values? I es = values? J es := by
  cases es with
  | nil => rfl
  | cons e rest =>
    have hhead := value?_congr hIJ e fun id hid => h id (List.mem_append_left _ hid)
    have htail := values?_congr hIJ rest fun id hid => h id (List.mem_append_right _ hid)
    rw [values?, values?, hhead, htail]

end

end Expression

namespace Transfer

@[simp] def expressions : Transfer → List Expression
  | .assignment destination source => [destination, source]
  | .goto target _ | .call target _ _ => [target]
  | .branch condition target _ => [condition, target]
  | .sideEffect e => [e]
  | .returning .. | .nop | .invalid => []

@[simp] def identifiers (t : Transfer) : List Identifier :=
  t.expressions.flatMap Expression.identifiers

def reads : Transfer → List Identifier
  | .assignment (.identifier _) source => source.identifiers
  | t => t.identifiers

end Transfer

theorem identifiers_callee (host : Host) (target continuation : Address) :
    (host.callee target continuation).identifiers = [] := by
  unfold Host.callee
  cases host.imported target continuation <;> rfl

def Cluster.identifiers (x : Cluster) : List Identifier := x.transfers.flatMap Transfer.identifiers

namespace Mips

variable {name : Register → Identifier} {id : Identifier}

theorem mem_map_gprRegisters {rs : List Gpr} :
    id ∈ (gprRegisters rs).map name ↔ ∃ r ∈ rs, r ≠ zeroRegister ∧ name r.register = id := by
  simp [gprRegisters, and_assoc]

theorem mem_operand {r : Gpr} :
    id ∈ (operand name r).identifiers ↔ r ≠ zeroRegister ∧ name r.register = id := by
  by_cases h : r = zeroRegister <;> simp [operand, Expression.identifiers, h, eq_comm]

theorem mem_pair {op : Operator} {t : DataType} {rs rt : Gpr} :
    id ∈ (pair name op t rs rt).identifiers ↔ id ∈ (gprRegisters [rs, rt]).map name := by
  simp [pair, Expression.identifiers, mem_operand, mem_map_gprRegisters]

theorem mem_pairOrMove {op : Operator} {rs rt : Gpr} :
    id ∈ (pairOrMove name op rs rt).identifiers ↔ id ∈ (gprRegisters [rs, rt]).map name := by
  unfold pairOrMove
  by_cases ht : rt = zeroRegister
  · simp [ht, mem_operand, mem_map_gprRegisters]
  · by_cases hs : rs = zeroRegister
    · simp [ht, hs, mem_operand, mem_map_gprRegisters]
    · rw [if_neg ht, if_neg hs, mem_pair]

theorem mem_place {base : Gpr} {offset : BitVec 16} :
    id ∈ (place name base offset).identifiers ↔ base ≠ zeroRegister ∧ name base.register = id := by
  by_cases h : base = zeroRegister <;> simp [place, Expression.identifiers, mem_operand, h]

theorem mem_aluSource {op : AluOp} {rs rt : Gpr} :
    id ∈ (aluSource name op rs rt).identifiers ↔ id ∈ (gprRegisters [rs, rt]).map name := by
  cases op <;>
    simp only [aluSource, ofComparison, Expression.identifiers, mem_pair, mem_pairOrMove]

theorem mem_arithmeticSource {op : ArithmeticOp} {rs : Gpr} {x : BitVec 32} :
    id ∈ (arithmeticSource name op rs x).identifiers ↔
      rs ≠ zeroRegister ∧ name rs.register = id := by
  by_cases h : rs = zeroRegister <;> cases op <;>
    simp [arithmeticSource, ofComparison, Expression.identifiers, mem_operand, h]

theorem mem_logicalSource {op : LogicalOp} {rs : Gpr} {x : BitVec 32} :
    id ∈ (logicalSource name op rs x).identifiers ↔ rs ≠ zeroRegister ∧ name rs.register = id := by
  by_cases h : rs = zeroRegister <;> cases op <;>
    simp [logicalSource, Expression.identifiers, mem_operand, h]

theorem mem_halves {op : ProductOp} {a b : Expression} :
    (id ∈ (op.halves a b).1.identifiers ↔ id ∈ a.identifiers ∨ id ∈ b.identifiers) ∧
      (id ∈ (op.halves a b).2.identifiers ↔ id ∈ a.identifiers ∨ id ∈ b.identifiers) := by
  cases op <;> simp [ProductOp.halves]

theorem mem_setting {r : Gpr} {source : Expression} (h : id ∈ (setting name r source).identifiers) :
    (r ≠ zeroRegister ∧ name r.register = id) ∨ id ∈ source.identifiers := by
  unfold setting at h
  by_cases hr : r = zeroRegister
  · rw [if_pos hr] at h
    cases h
  · simpa [Transfer.identifiers, Transfer.expressions, Expression.identifiers, hr, eq_comm] using h

theorem mem_setting_named {r : Gpr} (rs : List Gpr) {source : Expression}
    (hs : id ∈ source.identifiers → id ∈ (gprRegisters rs).map name)
    (h : id ∈ [setting name r source].flatMap Transfer.identifiers) :
    id ∈ (gprRegisters (rs ++ [r])).map name := by
  rw [List.flatMap_singleton] at h
  rw [mem_map_gprRegisters]
  rcases mem_setting h with ⟨hr, hid⟩ | hid
  · exact ⟨r, List.mem_append_right _ (List.mem_singleton_self r), hr, hid⟩
  · obtain ⟨q, hq, hz, hid⟩ := mem_map_gprRegisters.mp (hs hid)
    exact ⟨q, List.mem_append_left _ hq, hz, hid⟩

theorem mem_linkTransfers {a : Address} {op : Operation}
    (h : id ∈ (linkTransfers name a op).flatMap Transfer.identifiers) :
    ∃ r, op.link? = some r ∧ name r.register = id := by
  unfold linkTransfers at h
  cases hl : op.link? with
  | none => simp [hl] at h
  | some r =>
    have hid : id = name r.register := by simpa [hl] using h
    exact ⟨r, rfl, hid.symm⟩

theorem register_mem_gprRegisters {r : Gpr} {rs : List Gpr} (h : r ∈ rs) (hr : r ≠ zeroRegister) :
    r.register ∈ gprRegisters rs :=
  List.mem_map_of_mem (List.mem_filter.mpr ⟨h, decide_eq_true hr⟩)

theorem register_mem_named {op : Operation} {r : Gpr} (h : op.link? = some r) :
    r.register ∈ op.named := by
  cases op with
  | signBranch op rs target =>
    simp only [Operation.link?] at h
    split at h <;> cases h
    rename_i hl
    rw [Operation.named, if_pos hl]
    exact register_mem_gprRegisters (by simp) (by decide)
  | jumpAndLinkRegister rd rs =>
    simp only [Operation.link?] at h
    split at h <;> cases h
    rename_i hr
    rw [Operation.named, if_neg hr.1]
    exact register_mem_gprRegisters (by simp) hr.2
  | _ => cases h

theorem mem_sources_of_halves {op : ProductOp} {rs rt : Gpr} {half : Expression}
    (hh : half = (op.halves (operand name rs) (operand name rt)).1 ∨
      half = (op.halves (operand name rs) (operand name rt)).2) (h : id ∈ half.identifiers) :
    id ∈ (gprRegisters [rs, rt]).map name := by
  have hs : id ∈ (operand name rs).identifiers ∨ id ∈ (operand name rt).identifiers := by
    rcases hh with rfl | rfl
    · exact mem_halves.1.mp h
    · exact mem_halves.2.mp h
  rw [mem_operand, mem_operand] at hs
  rw [mem_map_gprRegisters]
  rcases hs with hs | ht
  · exact ⟨rs, by simp, hs⟩
  · exact ⟨rt, by simp, ht⟩

theorem mem_leaving {host : Host} {a : Address} {op : Operation}
    (h : id ∈ (op.leaving name host a).identifiers) : id ∈ op.named.map name := by
  cases op with
  | compareBranch op rs rt target =>
    unfold Operation.leaving compareTransfer at h
    by_cases hs : op = .beq ∧ rs = rt
    · simp [hs] at h
    · simpa [hs, mem_pair, Operation.named] using h
  | signBranch op rs target =>
    have hs : rs ≠ zeroRegister ∧ name rs.register = id := by
      simpa [Operation.leaving, signTransfer, mem_operand] using h
    rw [Operation.named, mem_map_gprRegisters]
    exact ⟨rs, by cases op.links <;> simp, hs⟩
  | jumpAndLink target => simp [Operation.leaving, identifiers_callee] at h
  | jumpRegister rs =>
    unfold Operation.leaving at h
    by_cases hr : rs = returnAddress
    · simp [hr] at h
    · simpa [hr, mem_operand, Operation.named, mem_map_gprRegisters] using h
  | jumpAndLinkRegister rd rs =>
    have hs : rs ≠ zeroRegister ∧ name rs.register = id := by
      simpa [Operation.leaving, mem_operand] using h
    rw [Operation.named, mem_map_gprRegisters]
    exact ⟨rs, by by_cases ho : rd = returnAddress <;> simp [ho], hs⟩
  | _ => simp [Operation.leaving] at h

theorem mem_emitted {host : Host} {a : Address} {op : Operation}
    (h : id ∈ (emitted name host ⟨a, op⟩).flatMap Transfer.identifiers) :
    id ∈ op.named.map name := by
  by_cases hd : op.hasDelaySlot
  · rw [emitted_of_hasDelaySlot name hd, List.flatMap_append, List.mem_append,
      List.flatMap_singleton] at h
    rcases h with hl | ht
    · obtain ⟨r, hr, rfl⟩ := mem_linkTransfers hl
      exact List.mem_map_of_mem (register_mem_named hr)
    · exact mem_leaving ht
  · cases op with
    | shift op rd rt amount =>
      apply mem_setting_named [rt] _ h
      simp [shiftSource, Expression.identifiers, mem_operand, mem_map_gprRegisters]
    | shiftVariable op rd rt rs => exact mem_setting_named [rt, rs] mem_pair.mp h
    | alu op rd rs rt => exact mem_setting_named [rs, rt] mem_aluSource.mp h
    | arithmetic op rt rs immediate =>
      apply mem_setting_named [rs] _ h
      simp [mem_arithmeticSource, mem_map_gprRegisters]
    | logical op rt rs immediate =>
      apply mem_setting_named [rs] _ h
      simp [mem_logicalSource, mem_map_gprRegisters]
    | lui rt immediate =>
      apply mem_setting_named [] _ h
      simp [Expression.identifiers]
    | load op rt base offset =>
      apply mem_setting_named [base] _ h
      cases op <;> simp [LoadOp.source, Expression.identifiers, mem_place, mem_map_gprRegisters]
    | store op rt base offset =>
      have ho : id ∈ (op.transfer (place name base offset) (operand name rt)).identifiers := by
        rwa [emitted, List.flatMap_singleton] at h
      rw [Operation.named, mem_map_gprRegisters]
      cases op <;> simpa [StoreOp.transfer, mem_place, mem_operand] using ho
    | product op rs rt =>
      let halves := op.halves (operand name rs) (operand name rt)
      have ho : id = name HiLo.lo.register ∨ id ∈ halves.1.identifiers ∨
          id = name HiLo.hi.register ∨ id ∈ halves.2.identifiers := by
        simpa [emitted] using h
      rw [Operation.named, List.map_append, List.mem_append]
      rcases ho with hlo | hs | hhi | hs
      · exact .inr (by simp [hlo])
      · exact .inl (mem_sources_of_halves (.inl rfl) hs)
      · exact .inr (by simp [hhi])
      · exact .inl (mem_sources_of_halves (.inr rfl) hs)
    | moveFrom source rd =>
      rw [emitted, List.flatMap_singleton] at h
      rcases mem_setting h with hr | hs
      · exact List.mem_cons_of_mem _ (mem_map_gprRegisters.mpr ⟨rd, by simp, hr⟩)
      · rw [List.mem_singleton.mp hs]
        exact List.mem_cons_self
    | moveTo destination rs =>
      have ho : id = name destination.register ∨ id ∈ (operand name rs).identifiers := by
        simpa [emitted] using h
      rw [Operation.named, List.map_append, List.mem_append, mem_map_gprRegisters]
      rcases ho with hd | hs
      · exact .inr (by simp [hd])
      · exact .inl ⟨rs, by simp, mem_operand.mp hs⟩
    | nop | syscall | breakpoint => simp [emitted] at h
    | _ => exact absurd rfl hd

end Mips

namespace Mos6502

def Names.identifier (n : Names) : Use → Identifier
  | .register r => n.register r
  | .flags flags => n.flags flags
  | .temporary => n.slot

variable {n : Names} {id : Identifier} {i : Instruction}

theorem mem_place {e : Expression} (hp : place? n.register i = some e) (h : id ∈ e.identifiers) :
    i.mode.isMemory ∧ ∃ r ∈ i.mode.index?.toList, n.register r = id := by
  cases hm : i.mode <;> simp [place?, hm] at hp <;> subst hp <;>
    simp_all [offsetBy, contents, absolute, Mode.isMemory, Mode.index?]

theorem mem_value {e : Expression} (hv : value? n.register i = some e) (h : id ∈ e.identifiers) :
    i.mode.hasOperand ∧ ∃ r ∈ i.mode.reads, n.register r = id := by
  cases hm : i.mode <;> simp [value?, place?, hm] at hv <;> subst hv <;>
    simp_all [offsetBy, contents, absolute, byte, Mode.hasOperand, Mode.isMemory, Mode.reads,
      Mode.index?]

theorem mem_usesValue {us : List Use} (ho : i.mode.hasOperand)
    (h : (∃ r ∈ i.mode.reads, n.register r = id) ∨ id ∈ us.map n.identifier) :
    id ∈ (i.usesValue us).map n.identifier := by
  rw [Instruction.usesValue, if_pos ho, List.map_append, List.mem_append, List.map_map]
  exact h.imp_left List.mem_map.mpr

theorem mem_usesPlace {us : List Use} (hm : i.mode.isMemory)
    (h : (∃ r ∈ i.mode.index?.toList, n.register r = id) ∨ id ∈ us.map n.identifier) :
    id ∈ (i.usesPlace us).map n.identifier := by
  rw [Instruction.usesPlace, if_pos hm, List.map_append, List.mem_append, List.map_map]
  exact h.imp_left List.mem_map.mpr

theorem mem_withValue {f : Expression → List Transfer} {us : List Use}
    (hf : ∀ e, id ∈ (f e).flatMap Transfer.identifiers →
      id ∈ e.identifiers ∨ id ∈ us.map n.identifier)
    (h : id ∈ (withValue n.register i f).flatMap Transfer.identifiers) :
    id ∈ (i.usesValue us).map n.identifier := by
  unfold withValue at h
  obtain ⟨e, hv, ho⟩ | ⟨hv, -, -⟩ := value?_cases n.register i
  · rw [hv, Option.elim_some] at h
    apply mem_usesValue ho
    exact (hf e h).imp_left fun he => (mem_value hv he).2
  · simp [hv] at h

theorem mem_settingWithFlags {r : Register} {flags : List Flag} {source : Expression}
    (h : id ∈ (settingWithFlags n.register n.flags r flags source).flatMap Transfer.identifiers) :
    id ∈ source.identifiers ∨ id ∈ (usesSetting r flags).map n.identifier := by
  have ho : id = n.register r ∨ id ∈ source.identifiers ∨ id = n.flags flags ∨
      id = n.register r := by
    simpa [settingWithFlags, setting, settingFlags, contents, or_assoc] using h
  rcases ho with hr | hs | hf | hr
  · exact .inr (by simp [usesSetting, Names.identifier, hr])
  · exact .inl hs
  · exact .inr (by simp [usesSetting, Names.identifier, hf])
  · exact .inr (by simp [usesSetting, Names.identifier, hr])

theorem mem_stored {r : Register}
    (h : id ∈ ((place? n.register i).elim [.invalid] fun place =>
      [.assignment (.memory place .byte) (contents n.register r)]).flatMap Transfer.identifiers) :
    id ∈ (i.usesPlace [.register r]).map n.identifier := by
  obtain ⟨place, hp, hm⟩ | ⟨hp, -, -⟩ := place?_cases n.register i
  · rw [hp, Option.elim_some] at h
    have h' : id ∈ place.identifiers ∨ id = n.register r := by simpa [contents] using h
    apply mem_usesPlace hm
    exact h'.imp (fun he => (mem_place hp he).2) (by simp [Names.identifier])
  · simp [hp] at h

theorem mem_modified {flags : List Flag} {change : Expression → Expression} {us : List Use}
    (hc : ∀ e, id ∈ (change e).identifiers → id ∈ e.identifiers ∨ id ∈ us.map n.identifier)
    (h : id ∈ (modified n.register n.flags i n.slot flags change).flatMap Transfer.identifiers) :
    id ∈ (i.usesModified flags us).map n.identifier := by
  unfold modified at h
  unfold Instruction.usesModified
  by_cases ha : i.mode = .accumulator
  · rw [if_pos ha] at h ⊢
    rcases mem_settingWithFlags h with hs | hu
    · rcases hc _ hs with he | hu
      · simp_all [contents, Names.identifier]
      · simp_all
    · simp_all [usesSetting]
  · rw [if_neg ha] at h ⊢
    obtain ⟨place, hp, hm⟩ | ⟨hp, -, -⟩ := place?_cases n.register i
    · rw [hp, Option.elim_some] at h
      have ho : id = n.slot ∨ id ∈ place.identifiers ∨
          id ∈ (change (.identifier n.slot)).identifiers ∨ id = n.flags flags := by
        simp only [settingFlags, List.flatMap_cons, List.flatMap_nil, Transfer.identifiers,
          Transfer.expressions, Expression.identifiers, List.append_nil, List.mem_append,
          List.mem_singleton] at h
        grind
      have hslot : id = n.slot → id ∈ (.temporary :: us ++ [Use.flags flags]).map n.identifier := by
        rintro rfl
        exact List.mem_cons_self
      apply mem_usesPlace hm
      rcases ho with hs | he | he | hf
      · exact .inr (hslot hs)
      · exact .inl (mem_place hp he).2
      · rcases hc _ he with hs | hu
        · exact .inr (hslot (List.mem_singleton.mp hs))
        · right
          rw [List.map_append, List.map_cons]
          exact List.mem_append_left _ (List.mem_cons_of_mem _ hu)
      · right
        rw [hf, List.map_append]
        exact List.mem_append_right _ (List.mem_singleton_self _)
    · simp [hp] at h

theorem mem_moved {source destination : Register}
    (h : id ∈ (moved n.register n.flags source destination).flatMap Transfer.identifiers) :
    id ∈ (usesMove source destination).map n.identifier := by
  unfold moved at h
  unfold usesMove
  by_cases hd : destination = regS
  · rw [if_pos hd] at h ⊢
    have h' : id = n.register destination ∨ id = n.register source := by
      simpa [setting, contents] using h
    simpa [Names.identifier] using h'.symm
  · rw [if_neg hd] at h ⊢
    rcases mem_settingWithFlags h with hs | hu
    · rw [List.mem_singleton.mp hs]
      exact List.mem_cons_self
    · exact List.mem_cons_of_mem _ hu

theorem mem_compared {op : Operator} {r : Register} {flags : List Flag}
    (h : id ∈ (compared n.register n.flags i op r flags).flatMap Transfer.identifiers) :
    id ∈ (i.usesValue [.register r, .flags flags]).map n.identifier := by
  apply mem_withValue _ h
  intro e he
  simp only [settingFlags, contents, List.flatMap_cons, List.flatMap_nil, Transfer.identifiers,
    Transfer.expressions, Expression.identifiers, List.append_nil, List.mem_append,
    List.mem_singleton] at he
  simp only [List.map_cons, List.map_nil, List.mem_cons, Names.identifier]
  grind

theorem mem_combined {op : Operator}
    (h : id ∈ (combined n.register n.flags i op).flatMap Transfer.identifiers) :
    id ∈ (i.usesValue (.register regA :: usesSetting regA resultFlags)).map n.identifier := by
  apply mem_withValue _ h
  intro e he
  rcases mem_settingWithFlags he with hs | hu
  · rcases List.mem_append.mp hs with ha | he
    · rw [List.mem_singleton.mp ha]
      exact .inr List.mem_cons_self
    · exact .inl he
  · exact .inr (List.mem_cons_of_mem _ hu)

theorem mem_summed {op : Operator} (carry : Expression → Expression)
    (hc : ∀ e, (carry e).identifiers = e.identifiers)
    (h : id ∈ (summed n.register n.flags i op carry).flatMap Transfer.identifiers) :
    id ∈ (i.usesValue (.register regA :: .flags [.carry] ::
      usesSetting regA [.negative, .overflow, .zero, .carry])).map n.identifier := by
  apply mem_withValue _ h
  intro e he
  rcases mem_settingWithFlags he with hs | hu
  · have ho : id = n.register regA ∨ id ∈ e.identifiers ∨ id = n.flags [.carry] := by
      simpa [contents, hc, or_assoc] using hs
    rcases ho with ha | he | hf
    · exact .inr (by simp [ha, Names.identifier])
    · exact .inl he
    · exact .inr (by simp [hf, Names.identifier])
  · exact .inr (List.mem_cons_of_mem _ (List.mem_cons_of_mem _ hu))

theorem mem_pushed {value : Expression}
    (h : id ∈ (pushed n.register value).flatMap Transfer.identifiers) :
    id = n.register regS ∨ id ∈ value.identifiers := by
  have ho : id = n.register regS ∨ id ∈ value.identifiers ∨ id = n.register regS := by
    simpa [pushed, stackPlace, stackMove, offsetBy, setting, contents, absolute, byte] using h
  rcases ho with hs | hv | hs
  · exact .inl hs
  · exact .inr hv
  · exact .inl hs

theorem mem_pulled {r : Register}
    (h : id ∈ (pulled n.register r).flatMap Transfer.identifiers) :
    id = n.register regS ∨ id = n.register r := by
  have ho : id = n.register regS ∨ id = n.register r ∨ id = n.register regS := by
    simpa [pulled, stackPlace, stackMove, offsetBy, setting, contents, absolute, byte] using h
  rcases ho with hs | hr | hs
  · exact .inl hs
  · exact .inr hr
  · exact .inl hs

theorem mem_stepped {r : Register} {op : Operator}
    (h : id ∈ (settingWithFlags n.register n.flags r resultFlags
      (moveByOne op (contents n.register r))).flatMap Transfer.identifiers) :
    id ∈ (usesSetting r resultFlags).map n.identifier := by
  rcases mem_settingWithFlags h with hs | hu
  · have hr : id = n.register r := by simpa [moveByOne, byte, contents] using hs
    rw [hr]
    exact List.mem_cons_self
  · exact hu

theorem mem_emitted {host : Host}
    (h : id ∈ (emitted n host i).flatMap Transfer.identifiers) :
    id ∈ i.uses.map n.identifier := by
  obtain ⟨a, mnemonic, mode, value⟩ := i
  cases mnemonic with
  | lda | ldx | ldy => exact mem_withValue (fun e => mem_settingWithFlags) h
  | sta | stx | sty => exact mem_stored h
  | tax | tay | txa | tya | tsx | txs => exact mem_moved h
  | cmp | cpx | cpy | bit => exact mem_compared h
  | and | ora | eor => exact mem_combined h
  | adc => exact mem_summed (fun e => e) (fun e => rfl) h
  | sbc => exact mem_summed (.unary .not .bool ·) (fun e => rfl) h
  | asl | lsr | inc | dec =>
    apply mem_modified _ h
    intro e he
    simpa [moveByOne, byte] using he
  | rol | ror =>
    apply mem_modified _ h
    intro e he
    simpa [rotated, byte, Names.identifier] using he
  | inx | iny | dex | dey => exact mem_stepped h
  | pha | php =>
    rcases mem_pushed h with hs | hv
    · simp [hs, Instruction.uses, usesStack, Names.identifier]
    · rw [List.mem_singleton.mp hv]
      exact List.mem_cons_self
  | plp => rcases mem_pulled h with hs | hp <;>
      simp [*, Instruction.uses, usesStack, Names.identifier]
  | rti =>
    rw [emitted, List.flatMap_append, List.mem_append] at h
    rcases h with h | hr
    · rcases mem_pulled h with hs | hp <;>
        simp [*, Instruction.uses, usesStack, Names.identifier]
    · simp [returning] at hr
  | pla =>
    rw [emitted, List.flatMap_append, List.mem_append] at h
    rcases h with h | hf
    · rcases mem_pulled h with hs | hp <;>
        simp [*, Instruction.uses, usesStack, Names.identifier]
    · have ho : id = n.flags resultFlags ∨ id = n.register regA := by
        simpa [settingFlags, contents] using hf
      rcases ho with hf | ha <;> simp [*, Instruction.uses, usesStack, Names.identifier]
  | bpl | bmi | bvc | bvs | bcc | bcs | bne | beq =>
    simpa [emitted, branching, absolute, Instruction.uses, Names.identifier] using h
  | clc | sec | cli | sei | cld | sed | clv =>
    simpa [emitted, settingFlag, Instruction.uses, Names.identifier] using h
  | jmp => cases mode <;> simp [emitted, jumpTarget, absolute] at h
  | jsr => simp [emitted, identifiers_callee] at h
  | rts | brk | nop => simp [emitted, returning] at h

end Mos6502

namespace Instruction

def uses : Instruction → List Mos6502.Use
  | .mips i => i.operation.named.map .register
  | .mos6502 i => i.uses

theorem framed_eq (f : Frame) (i : Instruction) : i.framed f = f.useAll i.uses := by
  cases i with
  | mips i => exact f.ensureAll_eq_useAll i.operation.named
  | mos6502 i => rfl

theorem mem_emitted {host : Host} {f : Frame} {i : Instruction} {id : Identifier}
    (h : id ∈ (i.emitted host f).flatMap Transfer.identifiers) :
    id ∈ i.uses.map f.names.identifier := by
  cases i with
  | mips i =>
    rw [uses, List.map_map]
    exact Mips.mem_emitted h
  | mos6502 i => exact Mos6502.mem_emitted h

end Instruction

end RegisterTransfer
