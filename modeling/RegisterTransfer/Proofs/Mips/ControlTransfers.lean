import RegisterTransfer.Proofs.Mips.DataInstructions

/-!
Where lifted branches, jumps and calls lead. A link is an assignment ahead of the transfer, so that
the transfer finds the registers as the link has left them: it leads where the instruction set says
unless the register that is linked is one that the condition or the target reads.
-/

namespace RegisterTransfer

namespace Address

theorem word_addOffset {a : Address} (ha : a.bits = 32) (n : Int) :
    (a.addOffset n).word = a.word + .ofInt 32 n := by
  obtain ⟨v, b⟩ := a
  cases ha
  have hv : BitVec.ofNat 32 v = .ofInt 32 v := (BitVec.ofInt_natCast 32 v).symm
  have hw : BitVec.ofNat 32 ((v + n) % 0x100000000).toNat = .ofInt 32 ((v + n) % 0x100000000) := by
    rw [← BitVec.ofInt_natCast, Int.toNat_of_nonneg (Int.emod_nonneg _ (by decide))]
  have hm : BitVec.ofInt 32 ((v + n) % 0x100000000) = .ofInt 32 (v + n) := by
    apply BitVec.eq_of_toNat_eq
    rw [BitVec.toNat_ofInt, BitVec.toNat_ofInt]
    omega
  exact hw.trans (hm.trans (by rw [BitVec.ofInt_add, word, hv]))

theorem word_wrap (n : Nat) : (wrap 32 n).word = .ofNat 32 n := by
  apply BitVec.eq_of_toNat_eq
  simp [word, wrap, space]

end Address

namespace Mips

def SignBranch.decides (op : SignBranch) (x : BitVec 32) : Bool :=
  match op with
  | .blez => x.toInt ≤ 0
  | .bgtz => 0 < x.toInt
  | .bltz | .bltzal => x.toInt < 0
  | .bgez | .bgezal => 0 ≤ x.toInt

namespace Operation

def consulted : Operation → List Gpr
  | .compareBranch _ rs rt _ => [rs, rt]
  | .signBranch _ rs _ | .jumpRegister rs | .jumpAndLinkRegister _ rs => [rs]
  | _ => []

def clobbers (op : Operation) : Prop := ∃ r ∈ op.link?, r ∈ op.consulted

instance (op : Operation) : Decidable op.clobbers :=
  match h : op.link? with
  | none => isFalse (by simp [clobbers, h])
  | some r => decidable_of_iff (r ∈ op.consulted) (by simp [clobbers, h])

def linked {M : Type} (op : Operation) (a : Address) (s : Machine M) : Machine M :=
  op.link?.elim s fun r => s.put r (a.word + 8)

def departure? {M : Type} (op : Operation) (s : Machine M) : Option Departure :=
  match op with
  | .compareBranch .beq rs rt target => some ⟨s.registers rs = s.registers rt, target.word⟩
  | .compareBranch .bne rs rt target => some ⟨s.registers rs ≠ s.registers rt, target.word⟩
  | .signBranch op rs target => some ⟨op.decides (s.registers rs), target.word⟩
  | .jump target | .jumpAndLink target => some ⟨true, target.word⟩
  | .jumpRegister rs | .jumpAndLinkRegister _ rs => some ⟨true, s.registers rs⟩
  | _ => none

end Operation

/-- The transfer leads where the departure says. A procedure outside the image stands for the
address that the host finds it at, and a return goes to what the link register holds. -/
inductive Departs (host : Host) (next : Address) (I : Interpretation) : Transfer → Departure → Prop
  | goto {target : Expression} {kind : TransferClass} {x : BitVec 32}
      (ht : target.pattern? I 32 = some x) : Departs host next I (.goto target kind) ⟨true, x⟩
  | branch {condition target : Expression} {kind : TransferClass} {b : Bool} {x : BitVec 32}
      (hc : condition.pattern? I 1 = some (.ofBool b)) (ht : target.pattern? I 32 = some x) :
      Departs host next I (.branch condition target kind) ⟨b, x⟩
  | call {target : Expression} {size : Nat} {kind : TransferClass} {x : BitVec 32}
      (ht : target.pattern? I 32 = some x) : Departs host next I (.call target size kind) ⟨true, x⟩
  | imported {procedure : Procedure} {size : Nat} {kind : TransferClass} {x : BitVec 32}
      (hp : host.imported (.ptr32 x.toNat) next = some procedure) :
      Departs host next I (.call (.externalProcedure procedure.name) size kind) ⟨true, x⟩
  | returning {size : Nat} {kind : TransferClass} {c : Constant} {x : BitVec 32}
      (hc : I.contents (.register returnAddress.register) = some c) (hx : c.pattern? 32 = some x) :
      Departs host next I (.returning size kind) ⟨true, x⟩

section Words
variable {M : Type} {a : Address} {w : BitVec 32} {op : Operation}

theorem word_branchTarget (ha : a.bits = 32) (w : BitVec 32) :
    (branchTarget a w).word = a.word + 4 + 4 * (field w 0 16).signExtend 32 := by
  rw [branchTarget, Address.word_addOffset ha, BitVec.ofInt_add, BitVec.ofInt_mul,
    BitVec.signExtend, BitVec.add_assoc]
  rfl

theorem word_jumpTarget (ha : a.bits = 32) (w : BitVec 32) :
    (jumpTarget a w).word = (a.word + 4).extractLsb' 28 4 ++ field w 0 26 ++ 0#2 := by
  have hs : BitVec.ofNat 32 (a.addOffset 4).value = a.word + 4 := Address.word_addOffset ha 4
  rw [jumpTarget, hs, Address.ptr32, Address.word_wrap, BitVec.ofNat_toNat, BitVec.setWidth_eq,
    field]

theorem departure_eq (ha : a.bits = 32) (h : decode a w = some op) (hd : op.hasDelaySlot)
    (s : Machine M) : departure a.word w s = op.departure? s := by
  simp only [decode] at h
  simp only [departure]
  split at h
  case h_1 hc =>
    simp only [decodeSpecial] at h
    split at h
    case h_7 hf | h_8 hf =>
      cases h
      simp only [hc, hf]
      rfl
    case h_1 =>
      by_cases hz : w = 0
      · rw [if_pos hz] at h
        cases h
        cases hd
      · rw [if_neg hz] at h
        cases h
        cases hd
    all_goals cases h
    all_goals cases hd
  case h_2 hc =>
    simp only [decodeRegisterImmediate] at h
    split at h
    case h_5 => cases h
    all_goals
      rename_i hf
      cases h
      simp only [hc, hf, Operation.departure?, word_branchTarget ha]
      rfl
  case h_3 hc | h_4 hc =>
    cases h
    simp only [hc, Operation.departure?, word_jumpTarget ha]
  case h_5 hc | h_6 hc =>
    cases h
    simp only [hc, Operation.departure?, word_branchTarget ha]
  case h_7 hc | h_8 hc =>
    split at h <;> cases h
    simp only [hc, Operation.departure?, word_branchTarget ha]
    rfl
  case h_16 =>
    split at h <;> cases h
    cases hd
  all_goals cases h
  all_goals cases hd

theorem decodeSpecial_ne_jumpAndLink (w : BitVec 32) (target : Address) :
    decodeSpecial w ≠ some (.jumpAndLink target) := by
  intro h
  simp only [decodeSpecial] at h
  split at h
  case h_1 =>
    have h := Option.some.inj h
    split at h <;> cases h
  all_goals cases h

theorem decode_jumpAndLink {target : Address} (h : decode a w = some (.jumpAndLink target)) :
    target = jumpTarget a w := by
  simp only [decode] at h
  split at h
  case h_1 => exact absurd h (decodeSpecial_ne_jumpAndLink w target)
  case h_2 =>
    simp only [decodeRegisterImmediate] at h
    split at h <;> cases h
  case h_4 =>
    cases h
    rfl
  case h_7 | h_8 | h_16 => split at h <;> cases h
  all_goals cases h

theorem ptr32_jumpTarget (a : Address) (w : BitVec 32) :
    .ptr32 (jumpTarget a w).word.toNat = jumpTarget a w := by
  unfold jumpTarget Address.ptr32
  rw [Address.word_wrap, BitVec.ofNat_toNat, BitVec.setWidth_eq]

end Words

section Execution
variable {M : Type} {name : Register → Identifier} (hn : ∀ r, (name r).storage = .register r)
  {s : Machine M} (e : Surroundings M)

theorem linked_eq {a : Address} (ha : a.bits = 32) (op : Operation) (s : Machine M) :
    op.linked a s = op.link?.elim s fun r => s.put r (continuation a).word := by
  have h : (continuation a).word = a.word + 8 := Address.word_addOffset ha 8
  rw [Operation.linked, h]

theorem linked_of_ne {op : Operation} {r : Gpr} (h : r ∉ op.link?) (a : Address) (s : Machine M) :
    (op.linked a s).registers r = s.registers r := by
  unfold Operation.linked
  cases hl : op.link? with
  | none => rfl
  | some q =>
    have hq : (r : Nat) ≠ q := by
      intro he
      exact h (by rw [hl, Fin.ext he]; rfl)
    exact Machine.put_of_ne hq _

theorem linked_zero (op : Operation) (a : Address) (h0 : s.registers 0 = 0) :
    (op.linked a s).registers 0 = 0 := by
  have h : zeroRegister ∉ op.link? := fun h => link?_ne_zero h rfl
  exact (linked_of_ne h a s).trans h0

theorem fold_equal (op : CompareBranch) (x y : BitVec 32) :
    (if op = .beq then Operator.eq else .ne).fold (.word32 x) (.word32 y) =
      .bool (if op = .beq then x = y else x ≠ y) := by
  have he : (x == y) = decide (x = y) := rfl
  cases op with
  | beq => simp [fold_word32, Operator.isComparison, Operator.compareWords, he]
  | bne => simp [fold_word32, Operator.isComparison, Operator.compareWords, bne, he]

theorem fold_sign (op : SignBranch) (x : BitVec 32) :
    op.operator.fold (.word32 x) (.int32 0) = .bool (op.decides x) := by
  cases op <;> rw [fold_int32, fold_word32] <;> rfl

theorem departure?_isSome {op : Operation} (h : op.hasDelaySlot) (s : Machine M) :
    ∃ d, op.departure? s = some d := by
  cases op with
  | compareBranch op rs rt target => cases op <;> exact ⟨_, rfl⟩
  | signBranch | jump | jumpAndLink | jumpRegister | jumpAndLinkRegister => exact ⟨_, rfl⟩
  | _ => cases h

theorem departure?_congr {op : Operation} {t : Machine M}
    (h : ∀ r ∈ op.consulted, t.registers r = s.registers r) :
    op.departure? t = op.departure? s := by
  cases op with
  | compareBranch op rs rt target =>
    have hs := h rs (by simp [Operation.consulted])
    have ht := h rt (by simp [Operation.consulted])
    cases op <;> simp only [Operation.departure?, hs, ht]
  | signBranch op rs target =>
    simp only [Operation.departure?, h rs (by simp [Operation.consulted])]
  | jumpRegister rs =>
    simp only [Operation.departure?, h rs (by simp [Operation.consulted])]
  | jumpAndLinkRegister rd rs =>
    simp only [Operation.departure?, h rs (by simp [Operation.consulted])]
  | _ => rfl

include hn in
theorem leaving_departs (h0 : s.registers 0 = 0) {op : Operation} {d : Departure}
    (hd : op.departure? s = some d)
    (ht : ∀ target, op = .jumpAndLink target → .ptr32 target.word.toNat = target)
    (host : Host) (a : Address) :
    Departs host (continuation a) (s.interpretation e) (op.leaving name host a) d := by
  have hp (r : Gpr) := Expression.pattern?_of_value? (value?_operand hn h0 e r)
  cases op with
  | compareBranch op rs rt target =>
    simp only [Operation.leaving, compareTransfer]
    by_cases hs : op = .beq ∧ rs = rt
    · obtain ⟨rfl, rfl⟩ := hs
      cases hd
      rw [if_pos ⟨rfl, rfl⟩, decide_eq_true rfl]
      exact .goto rfl
    · rw [if_neg hs]
      have hc : (pair name (if op = .beq then .eq else .ne) .bool rs rt).pattern?
          (s.interpretation e) 1 = some (.ofBool d.taken) := by
        rw [Expression.pattern?, value?_pair hn h0, fold_equal]
        cases op <;> cases hd <;> rfl
      have hx : d.target = target.word := by cases op <;> cases hd <;> rfl
      obtain ⟨taken, _⟩ := d
      cases hx
      exact .branch hc rfl
  | signBranch op rs target =>
    cases hd
    have hc : (Expression.binary op.operator .bool (operand name rs)
        (.constant (.int32 0))).pattern? (s.interpretation e) 1 =
          some (.ofBool (op.decides (s.registers rs))) := by
      simp only [Expression.pattern?, Expression.value?, value?_operand hn h0, Option.bind_some,
        Option.map_some, fold_sign]
      rfl
    exact .branch hc rfl
  | jump target =>
    cases hd
    exact .goto rfl
  | jumpAndLink target =>
    cases hd
    simp only [Operation.leaving, Host.callee]
    cases hi : host.imported target (continuation a) with
    | none => exact .call rfl
    | some procedure => exact .imported (by rwa [ht target rfl])
  | jumpRegister rs =>
    cases hd
    simp only [Operation.leaving]
    by_cases hr : rs = returnAddress
    · subst hr
      exact .returning rfl rfl
    · rw [if_neg hr]
      exact .goto (hp rs)
  | jumpAndLinkRegister rd rs =>
    cases hd
    exact .call (hp rs)
  | _ => cases hd

theorem Departs.unique {host : Host} {next : Address} {I : Interpretation} {t : Transfer}
    {c d : Departure} (hc : Departs host next I t c) (hd : Departs host next I t d)
    (ht : ∀ f size kind, t ≠ .call (.externalProcedure f) size kind) : c = d := by
  cases hc with
  | goto hx =>
    cases hd with
    | goto hy => rw [Option.some.inj (hx.symm.trans hy)]
  | branch hb hx =>
    cases hd with
    | branch hc hy =>
      have h := BitVec.ofBool_eq_iff_eq.mp (Option.some.inj (hb.symm.trans hc))
      rw [h, Option.some.inj (hx.symm.trans hy)]
  | call hx =>
    cases hd with
    | call hy => rw [Option.some.inj (hx.symm.trans hy)]
    | imported => exact absurd rfl (ht _ _ _)
  | imported => exact absurd rfl (ht _ _ _)
  | returning hp hx =>
    cases hd with
    | returning hq hy =>
      cases hp.symm.trans hq
      rw [Option.some.inj (hx.symm.trans hy)]

theorem decides_not (op : SignBranch) (h : op.links) (x : BitVec 32) :
    op.decides (~~~x) = !op.decides x := by
  cases op with
  | bltzal =>
    have hm (y : BitVec 32) : SignBranch.bltzal.decides y = y.msb := y.msb_eq_toInt.symm
    rw [hm, hm, BitVec.msb_not]
    rfl
  | bgezal =>
    have hm (y : BitVec 32) : SignBranch.bgezal.decides y = !y.msb := by
      rw [y.msb_eq_toInt, ← decide_not, SignBranch.decides]
      exact decide_eq_decide.mpr Int.not_lt.symm
    rw [hm, hm, BitVec.msb_not]
    rfl
  | blez | bgtz | bltz | bgez => cases h

theorem departure?_linked_iff [Inhabited M] (op : Operation) (a : Address) :
    (∀ s : Machine M, s.registers 0 = 0 → op.departure? (op.linked a s) = op.departure? s) ↔
      ¬ op.clobbers := by
  constructor
  · rintro h ⟨r, hl, hr⟩
    -- Whatever the link is, its complement goes elsewhere and has the other sign.
    let x := a.word + 8
    let s : Machine M := ⟨fun n => if n = 0 then 0 else ~~~x, default⟩
    have hs := h s rfl
    have hz : (r : Nat) ≠ 0 := fun he => link?_ne_zero hl (Fin.ext he)
    have hb : s.registers r = ~~~x := if_neg hz
    have ha : (op.linked a s).registers r = x := by
      unfold Operation.linked
      rw [hl]
      simp [Machine.put, x]
    cases op with
    | signBranch op rs target =>
      cases List.mem_singleton.mp hr
      simp only [Operation.departure?, ha, hb, Option.some.injEq, Departure.mk.injEq,
        and_true] at hs
      simp only [Operation.link?] at hl
      split at hl
      · rename_i hlinks
        rw [decides_not op hlinks] at hs
        exact (Bool.eq_not_self _).mp hs
      · cases hl
    | jumpAndLinkRegister rd rs =>
      cases List.mem_singleton.mp hr
      simp only [Operation.departure?, ha, hb, Option.some.injEq, Departure.mk.injEq,
        true_and] at hs
      have hm := congrArg BitVec.msb hs
      rw [BitVec.msb_not] at hm
      exact (Bool.eq_not_self _).mp hm
    | _ => cases hl
  · intro h s _
    apply departure?_congr
    intro r hr
    exact linked_of_ne (fun hl => h ⟨r, hl, hr⟩) a s

include hn in
theorem leaving_departs_iff (h0 : s.registers 0 = 0) {op : Operation} (hl : op.link? ≠ none)
    (host : Host) (a : Address) (d : Departure) :
    Departs host (continuation a) (s.interpretation e) (op.leaving name host a) d ↔
      op.departure? s = some d := by
  have ht (target : Address) (h : op = .jumpAndLink target) :
      .ptr32 target.word.toNat = target := by
    subst h
    exact absurd rfl hl
  constructor
  · intro h
    have hd : op.hasDelaySlot := by
      cases op with
      | signBranch | jumpAndLinkRegister => rfl
      | _ => exact absurd rfl hl
    obtain ⟨c, hc⟩ := departure?_isSome hd s
    have hx (f : String) (size : Nat) (kind : TransferClass) :
        op.leaving name host a ≠ .call (.externalProcedure f) size kind := by
      cases op with
      | signBranch => simp [Operation.leaving, signTransfer]
      | jumpAndLinkRegister rd rs =>
        by_cases hr : rs = zeroRegister
        · simp [Operation.leaving, operand, hr]
        · simp [Operation.leaving, operand, hr]
      | _ => exact absurd rfl hl
    rw [hc, (leaving_departs hn e h0 hc ht host a).unique h hx]
  · intro h
    exact leaving_departs hn e h0 h ht host a

end Execution

theorem lifted_transfer_departs_iff {M : Type} [Inhabited M] (e : Surroundings M) (host : Host)
    (a : Address) (ha : a.bits = 32) (w : BitVec 32) (op : Operation) (hop : decode a w = some op)
    (hd : op.hasDelaySlot) (ws : Workspace) :
    ∃ before transfer, (lift host ⟨a, op⟩ ws).1 = before ++ [transfer] ∧
      (∀ s : Machine M, s.registers 0 = 0 →
        executeAll (fun _ => e) before s = some (op.linked a s)) ∧
      ((∀ s : Machine M, s.registers 0 = 0 → ∃ d, departure a.word w s = some d ∧
          Departs host (continuation a) ((op.linked a s).interpretation e) transfer d) ↔
        ¬ op.clobbers) := by
  have hn : ∀ r, (ws.frame.nameOf r).storage = .register r := ws.frame.nameOf_storage
  have ht (target : Address) (h : op = .jumpAndLink target) :
      .ptr32 target.word.toNat = target := by
    subst h
    rw [decode_jumpAndLink hop, ptr32_jumpTarget]
  refine ⟨linkTransfers ws.frame.nameOf a op, op.leaving ws.frame.nameOf host a, ?_, ?_, ?_⟩
  · rw [lift_eq]
    exact emitted_of_hasDelaySlot _ hd host a
  · intro s _
    rw [linked_eq ha]
    exact executeAll_linkTransfers hn _ a op
  -- The transfer finds the registers after the link, the instruction set reads those before it.
  · rw [← departure?_linked_iff (M := M) op a]
    constructor
    · intro h s h0
      obtain ⟨d, hs, hl⟩ := h s h0
      rw [departure_eq ha hop hd] at hs
      cases hlink : op.link? with
      | none => rw [Operation.linked, hlink, Option.elim_none]
      | some r =>
        rw [hs, ← leaving_departs_iff hn e (linked_zero op a h0) (by simp [hlink]) host a]
        exact hl
    · intro h s h0
      obtain ⟨d, hs⟩ := departure?_isSome hd s
      refine ⟨d, (departure_eq ha hop hd s).trans hs, ?_⟩
      exact leaving_departs hn e (linked_zero op a h0) ((h s h0).trans hs) ht host a

theorem lifted_call_departs :
    ∃ before transfer,
      (lift ⟨fun _ _ => none, fun _ => none⟩ ⟨.ptr32 0x400000, .jumpAndLinkRegister 5 4⟩
        ⟨.empty, .empty 32, []⟩).1 = before ++ [transfer] ∧
      (∀ s : Machine (BitVec 32 → BitVec 8), s.registers 0 = 0 →
        executeAll (fun _ => bytewise) before s = some (s.put 5 0x400008)) ∧
      ∀ s : Machine (BitVec 32 → BitVec 8), s.registers 0 = 0 →
        ∃ d, departure 0x400000 0x00802809 s = some d ∧
          Departs ⟨fun _ _ => none, fun _ => none⟩ (.ptr32 0x400008)
            ((s.put 5 0x400008).interpretation bytewise) transfer d := by
  obtain ⟨before, transfer, ht, hl, hd⟩ := lifted_transfer_departs_iff bytewise
    ⟨fun _ _ => none, fun _ => none⟩ (.ptr32 0x400000) rfl 0x00802809 (.jumpAndLinkRegister 5 4)
    (by decide) rfl ⟨.empty, .empty 32, []⟩
  exact ⟨before, transfer, ht, hl, hd.mpr (by decide)⟩

theorem call_through_linked_register :
    let host : Host := ⟨fun _ _ => none, fun _ => none⟩
    let s : Machine (BitVec 32 → BitVec 8) := ⟨fun n => if n = 4 then 0x500000 else 0, fun _ => 0⟩
    decode (.ptr32 0x400000) 0x00802009 = some (.jumpAndLinkRegister 4 4) ∧
      departure 0x400000 0x00802009 s = some ⟨true, 0x500000⟩ ∧
      ∃ before call s',
        (lift host ⟨.ptr32 0x400000, .jumpAndLinkRegister 4 4⟩ ⟨.empty, .empty 32, []⟩).1 =
            before ++ [call] ∧
          executeAll (fun _ => bytewise) before s = some s' ∧
          Departs host (.ptr32 0x400008) (s'.interpretation bytewise) call ⟨true, 0x400008⟩ ∧
          ¬ Departs host (.ptr32 0x400008) (s'.interpretation bytewise) call ⟨true, 0x500000⟩ := by
  intro host s
  refine ⟨by decide, by decide, _, .call (.identifier (.ofRegister (register 4))) 0 callKind,
    s.put 4 0x400008, rfl, rfl, .call rfl, ?_⟩
  intro h
  cases h with
  | call ht => cases ht

end Mips

end RegisterTransfer
