import RegisterTransfer.Proofs.Mos6502.Sources

namespace RegisterTransfer.Mos6502

namespace Machine

structure SameData (s t : Machine) : Prop where
  registers : ∀ n, n ≠ regP.number → s.registers n = t.registers n
  memory : s.memory = t.memory

theorem SameData.refl (s : Machine) : s.SameData s := ⟨fun _ _ => rfl, rfl⟩

theorem SameData.trans {s t u : Machine} (h : s.SameData t) (h' : t.SameData u) : s.SameData u :=
  ⟨fun n hn => (h.registers n hn).trans (h'.registers n hn), h.memory.trans h'.memory⟩

theorem sameData_keep (s : Machine) (k : Nat) (v : BitVec 8) : (s.keep k v).SameData s :=
  ⟨fun _ _ => rfl, rfl⟩

theorem SameData.store {s t : Machine} (h : s.SameData t) (p : BitVec 16) (v : BitVec 8) :
    (s.store p v).SameData (t.store p v) where
  registers := h.registers
  memory := by rw [Machine.store, Machine.store, h.memory]

theorem location_keep (m : Mode) (operand : BitVec 16) (s : Machine) (k : Nat) (v : BitVec 8) :
    m.location operand (s.keep k v) = m.location operand s := by
  cases m <;> rfl

theorem sameData_putFlags (s : Machine) (mask : Nat) (v : BitVec 8) :
    (s.putFlags regP.number mask v).SameData s where
  registers n hn := by simp [putFlags, put, Function.update_of_ne hn]
  memory := rfl

end Machine

def Reaches (e : Surroundings) (ts : List Transfer) (s t : Machine) : Prop :=
  ∃ u, executeAll (fun _ => e) ts s = some u ∧ u.SameData t

section
variable {e : Surroundings} {s t u : Machine} {ts : List Transfer}

theorem Reaches.nil (h : s.SameData t) : Reaches e [] s t := ⟨s, rfl, h⟩

theorem Reaches.cons {x : Transfer} (hx : execute e x s = some u) (h : Reaches e ts u t) :
    Reaches e (x :: ts) s t := by
  obtain ⟨v, hv, hd⟩ := h
  refine ⟨v, ?_, hd⟩
  rw [executeAll, hx]
  exact hv

theorem Reaches.congr {t' : Machine} (h : Reaches e ts s t) (hd : t.SameData t') :
    Reaches e ts s t' := by
  obtain ⟨v, hv, hvt⟩ := h
  exact ⟨v, hv, hvt.trans hd⟩

variable {n : Names} (hn : n.Faithful) {source : Expression} {v : BitVec 8}

theorem pattern?_byte (h : source.value? (s.interpretation e) = some (.byte v)) :
    source.pattern? (s.interpretation e) 8 = some v := by
  rw [Expression.pattern?, h]
  rfl

include hn in
theorem execute_setting (h : source.value? (s.interpretation e) = some (.byte v)) (r : Register) :
    execute e (setting n.register r source) s = some (s.put r.number v) := by
  simp only [setting, contents, execute, hn.register, pattern?_byte h, Option.map_some]

include hn in
theorem execute_settingFlags {c : Constant} (h : source.value? (s.interpretation e) = some c)
    (flags : List Flag) : execute e (settingFlags n.flags flags source) s =
      some (s.putFlags regP.number (flagMask flags) (e.flags c)) := by
  simp only [settingFlags, execute, hn.flags, Machine.flagBits?, h, Option.map_some]

include hn in
theorem execute_settingFlag (e : Surroundings) (s : Machine) (flag : Flag) (value : Bool) :
    execute e (settingFlag n.flags flag value) s =
      some (s.putFlags regP.number (flagMask [flag]) (if value then .allOnes 8 else 0)) := by
  simp only [settingFlag, execute, hn.flags]
  cases value <;> rfl

theorem execute_memory {place : Expression} {p : BitVec 16}
    (hp : place.value? (s.interpretation e) = some ⟨.ptr16, p⟩)
    (h : source.value? (s.interpretation e) = some (.byte v)) :
    execute e (.assignment (.memory place .byte) source) s = some (s.store p v) := by
  have hpattern : place.pattern? (s.interpretation e) 16 = some p := by
    rw [Expression.pattern?, hp]
    rfl
  simp only [execute, hpattern, pattern?_byte h, Option.bind_some, Option.map_some]

section
variable {slot : Identifier} {k : Nat} (hk : slot.storage = .temporary k)

include hk in
theorem value?_slot (s : Machine) (e : Surroundings) :
    (Expression.identifier slot).value? (s.interpretation e) = some (.byte (s.temporaries k)) := by
  rw [Expression.value?, hk]
  rfl

include hk in
theorem value?_slot_keep (s : Machine) (e : Surroundings) (v : BitVec 8) :
    (Expression.identifier slot).value? ((s.keep k v).interpretation e) = some (.byte v) := by
  rw [value?_slot hk, Machine.keep_self]

include hk in
theorem execute_slot (h : source.value? (s.interpretation e) = some (.byte v)) :
    execute e (.assignment (.identifier slot) source) s = some (s.keep k v) := by
  simp only [execute, hk, pattern?_byte h, Option.map_some]

end

include hn in
theorem reaches_settingFlags {c : Constant} (h : source.value? (s.interpretation e) = some c)
    (flags : List Flag) : Reaches e [settingFlags n.flags flags source] s s :=
  .cons (execute_settingFlags hn h flags) (.nil (s.sameData_putFlags _ _))

include hn in
theorem reaches_settingWithFlags (h : source.value? (s.interpretation e) = some (.byte v))
    (r : Register) (flags : List Flag) :
    Reaches e (settingWithFlags n.register n.flags r flags source) s (s.put r.number v) :=
  .cons (execute_setting hn h r) (reaches_settingFlags hn (value?_contents hn _ e r) flags)

include hn in
theorem reaches_moved (source destination : Register) :
    Reaches e (moved n.register n.flags source destination) s
      (s.put destination.number (s.registers source.number)) := by
  have hv := value?_contents hn s e source
  unfold moved
  split
  · exact .cons (execute_setting hn hv destination) (.nil (.refl _))
  · exact reaches_settingWithFlags hn hv destination resultFlags

theorem Reaches.withValue {i : Instruction} {f : Expression → List Transfer} {x : Expression}
    (hx : value? n.register i = some x) (h : Reaches e (f x) s t) :
    Reaches e (withValue n.register i f) s t := by
  rw [Mos6502.withValue, hx]
  exact h

theorem value?_binary {op : Operator} (hop : op.isComparison = false) {x y : Expression}
    {u v : BitVec 8} (hx : x.value? (s.interpretation e) = some (.byte u))
    (hy : y.value? (s.interpretation e) = some (.byte v)) :
    (Expression.binary op .byte x y).value? (s.interpretation e) =
      some (.byte (op.combineWords u v (min v.toNat 63))) := by
  rw [Expression.value?, hx, hy, Option.bind_some, Option.map_some, fold_byte hop]

include hn in
theorem reaches_pushed (h : source.value? (s.interpretation e) = some (.byte v)) :
    Reaches e (pushed n.register source) s (s.push v) := by
  have hplace := value?_offsetBy hn (value?_absolute s e 0x0100) regS
  have hmove : (Expression.binary .isub .byte (contents n.register regS) (byte 1)).value?
      ((s.store s.stackPlace v).interpretation e) = some (.byte (s.stack - 1)) :=
    value?_binary rfl (value?_contents hn _ e regS) rfl
  apply Reaches.cons (execute_memory hplace h)
  exact .cons (execute_setting hn hmove regS) (.nil (.refl _))

include hn in
theorem reaches_pulled (r : Register) (h : Reaches e ts (s.pull r) t) :
    Reaches e (pulled n.register r ++ ts) s t := by
  have hmove : (Expression.binary .iadd .byte (contents n.register regS) (byte 1)).value?
      (s.interpretation e) = some (.byte (s.stack + 1)) :=
    value?_binary rfl (value?_contents hn s e regS) rfl
  apply Reaches.cons (execute_setting hn hmove regS)
  exact .cons (execute_setting hn (value?_stackPlace hn) r) h

def Computes (e : Surroundings) (change : Expression → Expression)
    (f : BitVec 8 → Bool → BitVec 8) : Prop :=
  ∀ (s : Machine) x v, x.value? (s.interpretation e) = some (.byte v) →
    (change x).value? (s.interpretation e) = some (.byte (f v s.carry))

theorem computes_moveByOne {op : Operator} (hop : op.isComparison = false) :
    Computes e (moveByOne op) fun v _ => op.combineWords v 1 1 := by
  intro s x v hx
  exact value?_binary hop hx rfl

include hn in
theorem computes_rotated {function : String} {f : BitVec 8 → Bool → BitVec 8}
    (hf : ∀ v c, e.intrinsic function [.byte v, .byte 1, .bool c] .byte = f v c) :
    Computes e (rotated n.flags function) f := by
  intro s x v hx
  have hc := value?_carry hn s e
  unfold Expression.value? at hc
  simp only [rotated, byte, Expression.value?, Expression.values?, hx, hc, Option.bind_some,
    Option.map_some]
  exact congrArg (fun u => some (Constant.byte u)) (hf v s.carry)

section
variable {change : Expression → Expression} {f : BitVec 8 → Bool → BitVec 8}
  (hc : Computes e change f)

include hn hc in
theorem reaches_modifiedMemory {place : Expression} {m : Mode} {operand : BitVec 16}
    (hp : ∀ s e, place.value? (Machine.interpretation s e) =
      some ⟨.ptr16, m.location operand s⟩) (flags : List Flag) :
    Reaches e
      [.assignment (.identifier n.slot) (.memory place .byte),
        .assignment (.identifier n.slot) (change (.identifier n.slot)),
        .assignment (.memory place .byte) (.identifier n.slot),
        settingFlags n.flags flags (.identifier n.slot)] s
      (s.store (m.location operand s) (f (s.memory (m.location operand s)) s.carry)) := by
  obtain ⟨k, hk⟩ := hn.slot
  let v := s.memory (m.location operand s)
  let read := s.keep k v
  let changed := read.keep k (f v s.carry)
  let written := changed.store (m.location operand s) (f v s.carry)
  have hread : execute e (.assignment (.identifier n.slot) (.memory place .byte)) s = some read :=
    execute_slot hk (value?_memory (hp s e))
  have hchanged : execute e (.assignment (.identifier n.slot) (change (.identifier n.slot))) read =
      some changed :=
    execute_slot hk (hc read _ v (value?_slot_keep hk s e v))
  -- The place is worked out again, after the temporary was written.
  have hplace : place.value? (changed.interpretation e) = some ⟨.ptr16, m.location operand s⟩ := by
    rw [hp, Machine.location_keep, Machine.location_keep]
  have hwritten : execute e (.assignment (.memory place .byte) (.identifier n.slot)) changed =
      some written :=
    execute_memory hplace (value?_slot_keep hk read e _)
  have hdata : changed.SameData s := (read.sameData_keep k _).trans (s.sameData_keep k v)
  have hflags := reaches_settingFlags hn (value?_slot hk written e) flags
  exact .cons hread (.cons hchanged (.cons hwritten (hflags.congr (hdata.store _ _))))

include hn hc in
theorem reaches_modified {i : Instruction} (hd : i.mode.isDirect)
    (hm : i.mode = .accumulator ∨ i.mode.isMemory) (flags : List Flag) :
    Reaches e (modified n.register n.flags i n.slot flags change) s
      (s.replace i.mode i.value (f (i.mode.operand i.value s) s.carry)) := by
  unfold modified Machine.replace
  by_cases ha : i.mode = .accumulator
  · rw [if_pos ha, if_pos ha, ha]
    exact reaches_settingWithFlags hn (hc s _ _ (value?_contents hn s e regA)) regA flags
  · have hmemory := hm.resolve_left ha
    obtain ⟨place, hplace, hp⟩ := value?_place hn hd hmemory
    rw [if_neg ha, if_neg ha, hplace, operand_of_isMemory hmemory]
    exact reaches_modifiedMemory hn hc hp flags

end

end

end RegisterTransfer.Mos6502
