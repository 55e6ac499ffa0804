import RegisterTransfer.Proofs.Mips.Execution
import RegisterTransfer.Proofs.Mips.InstructionSet

namespace RegisterTransfer.Mips

variable {M : Type}

def Machine.half (s : Machine M) (source : HiLo) : BitVec 32 := s.registers source.register.number

namespace Operation

def isData : Operation → Bool
  | .nop | .shift .. | .alu .. | .arithmetic .. | .logical .. | .lui .. | .load .. | .store ..
  | .product .. | .moveFrom .. | .moveTo .. => true
  | .shiftVariable .. | .compareBranch .. | .signBranch .. | .jump _ | .jumpAndLink _
  | .jumpRegister _ | .jumpAndLinkRegister .. | .syscall | .breakpoint => false

def divisor? : Operation → Option Gpr
  | .product op _ rt => if op.divides then some rt else none
  | _ => none

def effect (op : Operation) (e : Surroundings M) (s : Machine M) : Machine M :=
  match op with
  | .shift op rd rt amount => s.set rd (op.compute (s.registers rt) amount.toNat)
  | .alu op rd rs rt => s.set rd (op.compute (s.registers rs) (s.registers rt))
  | .arithmetic op rt rs immediate =>
    s.set rt (op.compute (s.registers rs) (immediate.signExtend 32))
  | .logical op rt rs immediate => s.set rt (op.compute (s.registers rs) (immediate.setWidth 32))
  | .lui rt immediate => s.set rt (immediate ++ 0#16)
  | .load op rt base offset =>
    s.set rt (op.compute (e.load s.memory (s.registers base + offset.signExtend 32)))
  | .store op rt base offset =>
    { s with
      memory :=
        op.store e s.memory (s.registers base + offset.signExtend 32) (s.registers rt) }
  | .product op rs rt =>
    let product := op.compute (s.registers rs) (s.registers rt)
    s.setProduct product.1 product.2
  | .moveFrom source rd => s.set rd (s.half source)
  | .moveTo destination rs => s.put destination.register.number (s.registers rs)
  | _ => s

end Operation

section Words
variable {w : BitVec 32} {op : Operation}

theorem append_zeros (x : BitVec 16) : x ++ 0#16 = x.setWidth 32 <<< 16 := by
  ext i hi
  rw [BitVec.getElem_append, BitVec.getElem_shiftLeft]
  by_cases h : i < 16
  · simp [h]
  · simp [h, BitVec.getLsbD_eq_getElem (show i - 16 < 16 by omega)]

theorem specialEffect_eq (h : decodeSpecial w = some op) (hd : op.isData) (e : Surroundings M)
    (s : Machine M) : specialEffect w s = op.effect e s := by
  simp only [decodeSpecial] at h
  simp only [specialEffect]
  split at h
  case h_1 hc =>
    rw [hc]
    by_cases hz : w = 0
    · rw [if_pos hz] at h
      cases h
      subst hz
      rfl
    · rw [if_neg hz] at h
      cases h
      rfl
  case h_4 | h_5 | h_6 =>
    cases h
    cases hd
  all_goals
    rename_i hc
    cases h
  all_goals
    rw [hc]
    rfl

theorem effect_eq {a : Address} (h : decode a w = some op) (hd : op.isData) (e : Surroundings M)
    (s : Machine M) : effect e w s = op.effect e s := by
  simp only [decode] at h
  simp only [effect]
  split at h
  case h_1 hc =>
    rw [hc]
    exact specialEffect_eq h hd e s
  case h_2 hc =>
    unfold decodeRegisterImmediate at h
    split at h <;> cases h <;> cases hd
  case h_7 hc | h_8 hc =>
    split at h <;> cases h
    cases hd
  case h_16 hc =>
    split at h <;> cases h
    rw [hc]
    simp only [Operation.effect, append_zeros]
  all_goals
    rename_i hc
    cases h
  all_goals
    rw [hc]
    rfl

end Words

section Execution
variable {name : Register → Identifier} (hn : ∀ r, (name r).storage = .register r)
  {s : Machine M} (h0 : s.registers 0 = 0) {e : Surroundings M}

include hn h0 in
theorem executeAll_product {op : ProductOp} (hp : e.ReadsProducts) (rs rt : Gpr)
    (hd : op.divides → s.registers rt ≠ 0) (host : Host) (a : Address) :
    executeAll (fun _ => e) (emitted name host ⟨a, .product op rs rt⟩) s =
      some ((Operation.product op rs rt).effect e s) := by
  -- The low half is written before the sources of the high half are read.
  have hr (r : Gpr) (x : BitVec 32) :
      (s.put HiLo.lo.register.number x).registers r = s.registers r :=
    Machine.put_of_ne (by have := r.isLt; simp only [HiLo.register, register_number]; omega) x
  obtain ⟨hl, -⟩ := value?_halves hn h0 e rs rt hp hd
  have hh (x : BitVec 32) :=
    (value?_halves hn (s := s.put HiLo.lo.register.number x) ((hr 0 x).trans h0) e rs rt hp
      (by rw [hr]; exact hd)).2
  simp only [emitted, executeAll, execute_assignment hn, Expression.pattern?_of_value? hl,
    Option.map_some, Option.bind_some, Expression.pattern?_of_value? (hh _), hr]
  rfl

include hn h0 in
theorem executeAll_emitted (hp : e.ReadsProducts) (host : Host) {i : Instruction}
    (hd : i.operation.isData) (hdiv : ∀ r ∈ i.operation.divisor?, s.registers r ≠ 0) :
    executeAll (fun _ => e) (emitted name host i) s = some (i.operation.effect e s) := by
  obtain ⟨a, op⟩ := i
  cases op with
  | nop => rfl
  | product op rs rt =>
    refine executeAll_product hn h0 hp rs rt ?_ host a
    intro h
    exact hdiv rt (by simp [Operation.divisor?, h])
  | store op rt base offset =>
    exact (executeAll_single _ _).trans (execute_store hn h0 op rt base offset)
  | load op rt base offset =>
    exact (executeAll_single _ _).trans
      (execute_setting hn (pattern?_load hn h0 e op base offset) rt)
  | moveTo destination rs =>
    have hx := Expression.pattern?_of_value? (value?_operand hn h0 e rs)
    simp only [emitted, executeAll_single, execute_assignment hn, hx, Option.map_some]
    rfl
  | moveFrom source rd =>
    have hx := Expression.pattern?_of_value? (value?_name hn e (s := s) source.register)
    exact (executeAll_single _ _).trans (execute_setting hn hx rd)
  | shift op rd rt amount =>
    have hx := Expression.pattern?_of_value? (value?_shiftSource hn h0 e op rt amount)
    exact (executeAll_single _ _).trans (execute_setting hn hx rd)
  | alu op rd rs rt =>
    have hx := Expression.pattern?_of_value? (value?_aluSource hn h0 e op rs rt)
    exact (executeAll_single _ _).trans (execute_setting hn hx rd)
  | arithmetic op rt rs immediate =>
    have hx := Expression.pattern?_of_value?
      (value?_arithmeticSource hn h0 e op rs (immediate.signExtend 32))
    exact (executeAll_single _ _).trans (execute_setting hn hx rt)
  | logical op rt rs immediate =>
    have hx := Expression.pattern?_of_value?
      (value?_logicalSource hn h0 e op rs (immediate.setWidth 32))
    exact (executeAll_single _ _).trans (execute_setting hn hx rt)
  | lui rt immediate => exact (executeAll_single _ _).trans (execute_setting hn rfl rt)
  | shiftVariable | compareBranch | signBranch | jump | jumpAndLink | jumpRegister
  | jumpAndLinkRegister | syscall | breakpoint => cases hd

end Execution

theorem lift_executes_effect (e : Surroundings M) (hp : e.ReadsProducts) (host : Host) (a : Address)
    (w : BitVec 32) (op : Operation) (hop : decode a w = some op) (hd : op.isData) (s : Machine M)
    (h0 : s.registers 0 = 0) (hdiv : ∀ r ∈ op.divisor?, s.registers r ≠ 0) (ws : Workspace) :
    executeAll (fun _ => e) (lift host ⟨a, op⟩ ws).1 s = some (effect e w s) := by
  have hn : ∀ r, (ws.frame.nameOf r).storage = .register r := ws.frame.nameOf_storage
  rw [effect_eq hop hd e s, lift_eq]
  exact executeAll_emitted hn h0 hp host (i := ⟨a, op⟩) hd hdiv

def bytewise : Surroundings (BitVec 32 → BitVec 8) where
  load m a width :=
    .ofNat width
      ((List.range (width / 8)).foldr (fun i n => (m (a + .ofNat 32 i)).toNat + 256 * n) 0)
  store m a width x b :=
    let place := (b - a).toNat * 8
    if place < width then x.extractLsb' place 8 else m b
  intrinsic
    | "__smul_hi", [x, y], t =>
      ((x.resize 32).signExtend 64 * (y.resize 32).signExtend 64).extractLsb' 32 t.bits
    | "__umul_hi", [x, y], t =>
      ((x.resize 32).setWidth 64 * (y.resize 32).setWidth 64).extractLsb' 32 t.bits
    | _, _, _ => 0
  link := 0

theorem bytewise_readsProducts : bytewise.ReadsProducts where
  signed _ _ := rfl
  unsigned _ _ := rfl

theorem lift_executes_division :
    let s : Machine (BitVec 32 → BitVec 8) :=
      ⟨fun n => if n = 3 then -7 else if n = 4 then 2 else 0, fun _ => 0⟩
    executeAll (fun _ => bytewise)
        (lift ⟨fun _ _ => none, fun _ => none⟩ ⟨.ptr32 0x400000, .product .div 3 4⟩
          ⟨.empty, .empty 32, []⟩).1 s = some (effect bytewise 0x0064001A s) ∧
      (effect bytewise 0x0064001A s).lo = -3 ∧ (effect bytewise 0x0064001A s).hi = -1 := by
  intro s
  refine ⟨?_, by decide, by decide⟩
  exact lift_executes_effect bytewise bytewise_readsProducts _ _ _ _ (by decide) rfl s rfl
    (by decide) _

end RegisterTransfer.Mips
