import RegisterTransfer.Proofs.Clusters
import RegisterTransfer.Proofs.Mips.ControlTransfers
import RegisterTransfer.Proofs.Mips.Operands
import RegisterTransfer.Proofs.Mos6502.DataInstructions

namespace RegisterTransfer

namespace Transfer

@[simp] def isData : Transfer → Bool
  | .assignment .. | .sideEffect _ | .nop => true
  | _ => false

def isControl : Transfer → Bool
  | .goto .. | .branch .. | .call .. | .returning .. => true
  | _ => false

def isBranch : Transfer → Bool
  | .branch .. => true
  | _ => false

variable {t : Transfer}

theorem kind_of_isData (h : t.isData) : t.kind = .ofLinear := by
  cases t <;> first | rfl | cases h

theorem not_isControl_of_isData (h : t.isData) : ¬t.isControl := by
  cases t <;> first | exact Bool.false_ne_true | cases h

structure Leaves (delay : Bool) (t : Transfer) : Prop where
  isControl : t.isControl
  transfer : t.kind.transfer
  conditional : t.kind.conditional = t.isBranch
  delay : t.kind.delay = delay

end Transfer

inductive Formed (delay : Bool) : Bool → List Transfer → Prop
  | data {ts : List Transfer} (hne : ts ≠ []) (hts : ∀ t ∈ ts, t.isData) : Formed delay false ts
  | leaving {ts : List Transfer} {t : Transfer} (hts : ∀ u ∈ ts, u.isData) (ht : t.Leaves delay) :
    Formed delay true (ts ++ [t])

namespace Formed
variable {delay leaves : Bool} {ts : List Transfer}

theorem alone {t : Transfer} (ht : t.Leaves delay) : Formed delay true [t] := by
  have h : Formed delay true ([] ++ [t]) := .leaving (by simp) ht
  exact h

theorem ne_nil (h : Formed delay leaves ts) : ts ≠ [] := by
  cases h with
  | data hne hts => exact hne
  | leaving hts ht => simp

theorem isData_or_leaves (h : Formed delay leaves ts) {t : Transfer} (ht : t ∈ ts) :
    t.isData ∨ leaves ∧ t.Leaves delay := by
  cases h with
  | data hne hts => exact .inl (hts t ht)
  | leaving hts hu =>
    rcases List.mem_append.mp ht with ht | ht
    · exact .inl (hts t ht)
    · rw [List.mem_singleton.mp ht]
      exact .inr ⟨rfl, hu⟩

theorem getLast?_eq_some (h : Formed delay leaves ts) {t : Transfer} (ht : t ∈ ts)
    (hd : ¬t.isData) : leaves ∧ ts.getLast? = some t := by
  cases h with
  | data hne hts => exact absurd (hts t ht) hd
  | leaving hts hu =>
    rcases List.mem_append.mp ht with ht | ht
    · exact absurd (hts t ht) hd
    · rw [List.mem_singleton.mp ht]
      exact ⟨rfl, List.getLast?_concat⟩

theorem control_last (h : Formed delay leaves ts) {m : Nat} {t : Transfer} (ht : ts[m]? = some t)
    (hc : t.isControl) : m + 1 = ts.length := by
  have hdata : ¬t.isData := fun hd => Transfer.not_isControl_of_isData hd hc
  cases h with
  | data hne hts => exact absurd (hts t (List.mem_of_getElem? ht)) hdata
  | @leaving us u hts hu =>
    rw [List.getElem?_append] at ht
    split at ht
    · exact absurd (hts t (List.mem_of_getElem? ht)) hdata
    · have hm : m - us.length < 1 := (List.getElem?_eq_some_iff.mp ht).1
      rw [List.length_append, List.length_singleton]
      omega

theorem exists_isControl_iff (h : Formed delay leaves ts) : (∃ t ∈ ts, t.isControl) ↔ leaves := by
  constructor
  · rintro ⟨t, ht, hc⟩
    rcases h.isData_or_leaves ht with hd | ⟨hl, -⟩
    · exact absurd hc (Transfer.not_isControl_of_isData hd)
    · exact hl
  · intro hl
    cases h with
    | data hne hts => cases hl
    | @leaving us u hts hu => exact ⟨u, by simp, hu.isControl⟩

end Formed

namespace TransferClass

def projections : List (TransferClass → Bool) :=
  [linear, transfer, conditional, delay, call, invalid]

theorem projection_union {flag : TransferClass → Bool} (h : flag ∈ projections)
    (a b : TransferClass) : flag (a.union b) = (flag a || flag b) := by
  simp only [projections, List.mem_cons, List.not_mem_nil, or_false] at h
  rcases h with rfl | rfl | rfl | rfl | rfl | rfl <;> rfl

theorem projection_empty {flag : TransferClass → Bool} (h : flag ∈ projections) :
    flag empty = false := by
  simp only [projections, List.mem_cons, List.not_mem_nil, or_false] at h
  rcases h with rfl | rfl | rfl | rfl | rfl | rfl <;> rfl

end TransferClass

theorem Cluster.projection_kind (x : Cluster) {flag : TransferClass → Bool}
    (h : flag ∈ TransferClass.projections) :
    flag x.kind = x.transfers.any fun t => flag t.kind := by
  have hfold : ∀ (ts : List Transfer) (kind : TransferClass),
      flag (ts.foldl (fun kind t => kind.union t.kind) kind) =
        (flag kind || ts.any fun t => flag t.kind) := by
    intro ts
    induction ts with
    | nil => simp
    | cons t ts ih =>
      intro kind
      rw [List.foldl_cons, ih, TransferClass.projection_union h, List.any_cons, Bool.or_assoc]
  rw [kind, hfold, TransferClass.projection_empty h, Bool.false_or]

namespace Mips
variable {name : Register → Identifier}

theorem isData_setting (r : Gpr) (source : Expression) : (setting name r source).isData := by
  unfold setting
  split <;> rfl

theorem isData_linkTransfers (a : Address) (op : Operation) :
    ∀ t ∈ linkTransfers name a op, t.isData := by
  unfold linkTransfers
  cases op.link? <;> simp

theorem leaving_leaves {op : Operation} (h : op.hasDelaySlot) (host : Host) (a : Address) :
    (op.leaving name host a).Leaves true := by
  cases op with
  | compareBranch op rs rt target =>
    simp only [Operation.leaving, compareTransfer]
    split <;> exact ⟨rfl, rfl, rfl, rfl⟩
  | signBranch op rs target => exact ⟨rfl, rfl, rfl, rfl⟩
  | jumpRegister rs =>
    simp only [Operation.leaving]
    split <;> exact ⟨rfl, rfl, rfl, rfl⟩
  | jump | jumpAndLink | jumpAndLinkRegister => exact ⟨rfl, rfl, rfl, rfl⟩
  | _ => cases h

theorem emitted_formed (host : Host) (i : Instruction) :
    Formed true i.operation.hasDelaySlot (emitted name host i) := by
  obtain ⟨a, op⟩ := i
  by_cases h : op.hasDelaySlot
  · rw [emitted_of_hasDelaySlot name h, h]
    exact .leaving (isData_linkTransfers a op) (leaving_leaves h host a)
  · cases op with
    | shift | shiftVariable | alu | arithmetic | logical | lui | load | moveFrom =>
      exact .data (List.cons_ne_nil _ _) (by simpa [emitted] using isData_setting _ _)
    | store op =>
      exact .data (List.cons_ne_nil _ _) (by cases op <;> simp [emitted, StoreOp.transfer])
    | product | moveTo | nop | syscall | breakpoint =>
      exact .data (List.cons_ne_nil _ _) (by simp [emitted])
    | _ => exact absurd rfl h

theorem eq_leaving_of_mem {host : Host} {a : Address} {op : Operation} {t : Transfer}
    (ht : t ∈ emitted name host ⟨a, op⟩) (hd : ¬t.isData) : op.hasDelaySlot ∧ t = op.leaving name host a := by
  obtain ⟨hslot, hlast⟩ := (emitted_formed host ⟨a, op⟩).getLast?_eq_some ht hd
  rw [emitted_of_hasDelaySlot name hslot, List.getLast?_concat] at hlast
  exact ⟨hslot, (Option.some.inj hlast).symm⟩

end Mips

namespace Mos6502

def Mnemonic.leaving : List Mnemonic :=
  [.bpl, .bmi, .bvc, .bvs, .bcc, .bcs, .bne, .beq, .jmp, .jsr, .rts, .rti]

section
variable {n : Names} {i : Instruction}

theorem settingWithFlags_formed (r : Register) (flags : List Flag) (source : Expression) :
    Formed false false (settingWithFlags n.register n.flags r flags source) :=
  .data (List.cons_ne_nil _ _) (by simp [settingWithFlags, setting, settingFlags])

theorem withValue_formed (ho : i.mode.hasOperand) {f : Expression → List Transfer}
    (hf : ∀ e, Formed false false (f e)) : Formed false false (withValue n.register i f) := by
  obtain ⟨e, hv, -⟩ | ⟨-, hn, -⟩ := value?_cases n.register i
  · rw [withValue, hv]
    exact hf e
  · rw [ho] at hn
    cases hn

theorem stored_formed (hm : i.mode.isMemory) (r : Register) :
    Formed false false ((place? n.register i).elim [.invalid] fun place =>
      [.assignment (.memory place .byte) (contents n.register r)]) := by
  obtain ⟨place, hp, -⟩ | ⟨-, hn, -⟩ := place?_cases n.register i
  · rw [hp]
    exact .data (List.cons_ne_nil _ _) (by simp)
  · rw [hm] at hn
    cases hn

theorem modified_formed (hm : i.mode = .accumulator ∨ i.mode.isMemory) (flags : List Flag)
    (change : Expression → Expression) :
    Formed false false (modified n.register n.flags i n.slot flags change) := by
  unfold modified
  by_cases ha : i.mode = .accumulator
  · rw [if_pos ha]
    exact settingWithFlags_formed regA flags _
  · rw [if_neg ha]
    obtain ⟨place, hp, -⟩ | ⟨-, hn, -⟩ := place?_cases n.register i
    · rw [hp]
      exact .data (List.cons_ne_nil _ _) (by simp [settingFlags])
    · rw [hm.resolve_left ha] at hn
      cases hn

theorem moved_formed (source destination : Register) :
    Formed false false (moved n.register n.flags source destination) := by
  unfold moved
  split
  · exact .data (List.cons_ne_nil _ _) (by simp [setting])
  · exact settingWithFlags_formed destination resultFlags _

theorem isData_pulled (r : Register) : ∀ t ∈ pulled n.register r, t.isData := by
  simp [pulled, stackMove, setting]

theorem emitted_formed (host : Host) (ha : i.mnemonic.admits i.mode) :
    Formed false (i.mnemonic ∈ Mnemonic.leaving) (emitted n host i) := by
  obtain ⟨a, mnemonic, mode, value⟩ := i
  cases mnemonic with
  | lda | ldx | ldy => exact withValue_formed ha fun e => settingWithFlags_formed _ _ e
  | sta | stx | sty => exact stored_formed ha _
  | tax | tay | txa | tya | tsx | txs => exact moved_formed _ _
  | and | ora | eor | adc | sbc => exact withValue_formed ha fun e => settingWithFlags_formed _ _ _
  | asl | lsr | rol | ror | inc | dec =>
    have hm : mode = .accumulator ∨ mode.isMemory := by simpa [Mnemonic.admits] using ha
    exact modified_formed hm _ _
  | inx | iny | dex | dey => exact settingWithFlags_formed _ _ _
  | cmp | cpx | cpy | bit =>
    exact withValue_formed ha fun e => .data (List.cons_ne_nil _ _) (by simp [settingFlags])
  | pha | php =>
    exact .data (List.cons_ne_nil _ _) (by simp [emitted, pushed, stackMove, setting])
  | plp => exact .data (List.cons_ne_nil _ _) (isData_pulled regP)
  | pla =>
    exact .data (List.cons_ne_nil _ _) (by simp [emitted, pulled, stackMove, setting, settingFlags])
  | clc | sec | cli | sei | cld | sed | clv =>
    exact .data (List.cons_ne_nil _ _) (by simp [emitted, settingFlag])
  | brk | nop => exact .data (List.cons_ne_nil _ _) (by simp [emitted])
  | bpl | bmi | bvc | bvs | bcc | bcs | bne | beq | jmp | jsr | rts =>
    exact .alone ⟨rfl, rfl, rfl, rfl⟩
  | rti => exact .leaving (isData_pulled regP) ⟨rfl, rfl, rfl, rfl⟩

end

end Mos6502

def Instruction.leaves : Instruction → Bool
  | .mips i => i.operation.hasDelaySlot
  | .mos6502 i => i.mnemonic ∈ Mos6502.Mnemonic.leaving

def Architecture.delays : Architecture → Bool
  | .mips _ => true
  | .mos6502 => false

theorem Architecture.emitted_formed (host : Host) {a : Architecture} {c : Cursor} {i : Instruction}
    (h : a.decode? c = some i) (f : Frame) : Formed a.delays i.leaves (i.emitted host f) := by
  cases a with
  | mips order =>
    obtain ⟨w, op, -, -, rfl⟩ := decode?_mips.mp h
    exact Mips.emitted_formed host _
  | mos6502 =>
    obtain ⟨j, hj, rfl⟩ := decode?_mos6502.mp h
    obtain ⟨opcode, -, hm, -, -⟩ := Mos6502.decode_eq_some_iff.mp hj
    exact Mos6502.emitted_formed host (Mos6502.admits_of_decodeOpcode opcode _ hm)

theorem Architecture.lift_formed (host : Host) {a : Architecture} {c : Cursor} {i : Instruction}
    (h : a.decode? c = some i) (w : Workspace) :
    let x : Cluster := ⟨i.address, i.length, (i.lift host w).1⟩
    x.transfers ≠ [] ∧ .invalid ∉ x.transfers ∧
      (∀ (m : Nat) (t : Transfer), x.transfers[m]? = some t →
        if t.isControl then m + 1 = x.transfers.length else t.kind = .ofLinear) ∧
      ((∃ t ∈ x.transfers, t.isControl) ↔ i.leaves) ∧
      (∀ t ∈ x.transfers, t.isControl → t.kind.transfer) ∧
      (∀ t ∈ x.transfers, t.kind.delay = (a.delays && t.isControl)) ∧
      (∀ t ∈ x.transfers, t.kind.conditional = t.isBranch) ∧
      (∀ flag ∈ TransferClass.projections,
        flag x.kind = x.transfers.any fun t => flag t.kind) ∧
      (∀ j, i = .mips j → ∃ run, j.listed.lift? host = some run ∧ x.transfers = (run w).1) ∧
      ∀ listed : Mips.Listed, ¬listed.Fits → listed.lift host w = ([.invalid], w) := by
  intro x
  have hx : x.transfers = i.emitted host w.frame := congrArg Prod.fst (i.lift_eq host w)
  have hformed : Formed a.delays i.leaves x.transfers := by
    rw [hx]
    exact emitted_formed host h w.frame
  -- Each transfer is of data or leaves as its form says, and either way its class is known.
  have hkinds : ∀ t ∈ x.transfers, t.isData ∨ t.Leaves a.delays :=
    fun t ht => (hformed.isData_or_leaves ht).imp_right And.right
  refine ⟨hformed.ne_nil, ?_, ?_, hformed.exists_isControl_iff, ?_, ?_, ?_,
    fun flag => x.projection_kind, ?_, fun _ h => Mips.Listed.lift_of_not_fits h host w⟩
  · intro hinvalid
    rcases hkinds _ hinvalid with hd | hl
    · cases hd
    · cases hl.isControl
  · intro m t ht
    rcases hkinds t (List.mem_of_getElem? ht) with hd | hl
    · rw [if_neg (Transfer.not_isControl_of_isData hd)]
      exact Transfer.kind_of_isData hd
    · rw [if_pos hl.isControl]
      exact hformed.control_last ht hl.isControl
  · intro t ht hc
    rcases hkinds t ht with hd | hl
    · exact absurd hc (Transfer.not_isControl_of_isData hd)
    · exact hl.transfer
  · intro t ht
    rcases hkinds t ht with hd | hl
    · rw [Transfer.kind_of_isData hd, Bool.eq_false_iff.mpr (Transfer.not_isControl_of_isData hd),
        Bool.and_false]
      rfl
    · rw [hl.delay, hl.isControl, Bool.and_true]
  · intro t ht
    rcases hkinds t ht with hd | hl
    · cases t <;> first | rfl | cases hd
    · exact hl.conditional
  · rintro j rfl
    have hfits := (j.listed.isSome_lift? host).mpr j.listed_fits
    obtain ⟨run, hrun⟩ := Option.isSome_iff_exists.mp hfits
    refine ⟨run, hrun, ?_⟩
    change ((j.listed.lift host) w).1 = _
    rw [Mips.Listed.lift, hrun]
    rfl

theorem Architecture.lift_formed_linking_branch :
    ∃ (host : Host) (c : Cursor) (w : Workspace) (i : Instruction),
      (Architecture.mips .big).decode? c = some i ∧
        i = .mips ⟨.ptr32 0x400000, .signBranch .bgezal 4 (.ptr32 0x400008)⟩ ∧
        (i.lift host w).1.length = 2 ∧ (∃ t ∈ (i.lift host w).1, t.isControl) ∧
        ∀ (m : Nat) (t : Transfer), (i.lift host w).1[m]? = some t →
          if t.isControl then m + 1 = 2 else t.kind = .ofLinear := by
  refine ⟨⟨fun _ _ => none, fun _ => none⟩, ⟨⟨.ptr32 0x400000, [0x04, 0x91, 0x00, 0x01]⟩, 0, .big⟩,
    ⟨.empty, .empty 32, []⟩, _, rfl, rfl, rfl, ?_⟩
  have h := lift_formed ⟨fun _ _ => none, fun _ => none⟩ (a := .mips .big)
    (c := ⟨⟨.ptr32 0x400000, [0x04, 0x91, 0x00, 0x01]⟩, 0, .big⟩) rfl ⟨.empty, .empty 32, []⟩
  exact ⟨h.2.2.2.1.mpr rfl, h.2.2.1⟩

end RegisterTransfer
