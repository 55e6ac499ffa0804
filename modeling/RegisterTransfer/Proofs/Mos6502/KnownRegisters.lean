import RegisterTransfer.Proofs.Clusters
import RegisterTransfer.Proofs.Mos6502.DataInstructions

namespace RegisterTransfer

namespace Mos6502

structure Machine.Confirms (s : Machine) (k : Knowledge) : Prop where
  byte : ∀ n c, k.get? n = some c → c = .byte (s.registers n)
  status : k.contents? regP = none

def Machine.SameOutside (rs : List Register) (s t : Machine) : Prop :=
  ∀ n, n ≠ regP.number → (∀ r ∈ rs, r.number ≠ n) → t.registers n = s.registers n

section Knowledge
variable {k : Knowledge} {s t : Machine}

theorem get?_forgetAll (k : Knowledge) (rs : List Register) (n : Nat) :
    (k.forgetAll rs).get? n = if rs.any (·.number == n) then none else k.get? n := by
  induction rs generalizing k with
  | nil => rfl
  | cons r rs ih =>
    rw [Knowledge.forgetAll_cons, ih, Knowledge.forget, Table.get?_erase, List.any_cons]
    by_cases h : r.number = n <;> simp [h]

theorem get?_of_forgetAll {rs : List Register} {n : Nat} {c : Constant}
    (h : (k.forgetAll rs).get? n = some c) : k.get? n = some c ∧ ∀ r ∈ rs, r.number ≠ n := by
  rw [get?_forgetAll] at h
  split at h
  · cases h
  · rename_i hn
    exact ⟨h, by simpa using hn⟩

theorem Machine.Confirms.forgetAll (h : s.Confirms k) {rs : List Register}
    (hs : s.SameOutside rs t) : t.Confirms (k.forgetAll rs) where
  byte n c hc := by
    obtain ⟨hk, hrs⟩ := get?_of_forgetAll hc
    have hn : n ≠ regP.number := by
      rintro rfl
      exact Option.some_ne_none c (hk.symm.trans h.status)
    rw [hs n hn hrs]
    exact h.byte n c hk
  status := by
    have hnone := h.status
    cases hp : (k.forgetAll rs).contents? regP with
    | none => rfl
    | some c =>
      have hk := (get?_of_forgetAll hp).1
      exact absurd (hk.symm.trans hnone) (Option.some_ne_none c)

theorem Machine.Confirms.record (h : s.Confirms k) {r : Register} (hr : r.number ≠ regP.number)
    {c : Constant} (hc : c = .byte (s.registers r.number)) : s.Confirms (k.record r c) where
  byte n d hd := by
    rw [Knowledge.record, Table.get?_insert] at hd
    split at hd
    · rename_i hn
      cases hd
      rwa [← hn]
    · exact h.byte n d hd
  status := by
    rw [Knowledge.record, Knowledge.contents?, Table.get?_insert, if_neg hr]
    exact h.status

end Knowledge

theorem byte_injective {x y : BitVec 8} (h : Constant.byte x = .byte y) : x = y := by
  cases h
  rfl

theorem executeAll_append (o : Nat → Surroundings) (ts us : List Transfer) (s : Machine) :
    executeAll o (ts ++ us) s =
      (executeAll o ts s).bind (executeAll (fun n => o (n + ts.length)) us) := by
  induction ts generalizing o s with
  | nil => rfl
  | cons t ts ih =>
    rw [List.cons_append, executeAll, executeAll, Option.bind_assoc]
    congr 1
    funext u
    rw [ih]
    simp only [List.length_cons, Nat.add_assoc]

section Values
variable {n : Names} (hn : n.Faithful)

def Evaluates (x : Expression) : Prop :=
  ∀ (s : Machine) (e : Surroundings), ∃ c, x.value? (s.interpretation e) = some c

def YieldsByte (x : Expression) : Prop :=
  ∀ (s : Machine) (e : Surroundings), ∃ v, x.value? (s.interpretation e) = some (.byte v)

def YieldsPlace (x : Expression) : Prop :=
  ∀ (s : Machine) (e : Surroundings), ∃ p, x.value? (s.interpretation e) = some ⟨.ptr16, p⟩

theorem YieldsByte.evaluates {x : Expression} (h : YieldsByte x) : Evaluates x := by
  intro s e
  obtain ⟨v, hv⟩ := h s e
  exact ⟨_, hv⟩

theorem yieldsByte_byte (v : BitVec 8) : YieldsByte (byte v) := fun _ _ => ⟨v, rfl⟩

include hn in
theorem yieldsByte_contents (r : Register) : YieldsByte (contents n.register r) :=
  fun s e => ⟨_, value?_contents hn s e r⟩

include hn in
theorem yieldsByte_slot : YieldsByte (.identifier n.slot) := by
  obtain ⟨k, hk⟩ := hn.slot
  intro s e
  exact ⟨_, value?_slot hk s e⟩

theorem yieldsByte_binary {op : Operator} (hop : op.isComparison = false) {x y : Expression}
    (hx : YieldsByte x) (hy : Evaluates y) : YieldsByte (.binary op .byte x y) := by
  intro s e
  obtain ⟨v, hv⟩ := hx s e
  obtain ⟨c, hc⟩ := hy s e
  have hfold : ∃ u, op.fold (.byte v) c = .byte u := by
    rw [Operator.fold, hop]
    exact ⟨_, rfl⟩
  obtain ⟨u, hu⟩ := hfold
  refine ⟨u, ?_⟩
  rw [Expression.value?, hv, hc, Option.bind_some, Option.map_some, hu]

theorem yieldsByte_memory {place : Expression} (hp : YieldsPlace place) :
    YieldsByte (.memory place .byte) := by
  intro s e
  obtain ⟨p, hp⟩ := hp s e
  exact ⟨_, value?_memory hp⟩

theorem yieldsPlace_memory {place : Expression} (hp : YieldsPlace place) :
    YieldsPlace (.memory place .ptr16) := by
  intro s e
  obtain ⟨p, hp⟩ := hp s e
  refine ⟨s.load p 16, ?_⟩
  rw [Expression.value?, hp]
  rfl

theorem yieldsPlace_absolute (p : BitVec 16) : YieldsPlace (absolute p) :=
  fun s e => ⟨p, value?_absolute s e p⟩

include hn in
theorem yieldsPlace_offsetBy {base : Expression} (hb : YieldsPlace base) (r : Register) :
    YieldsPlace (offsetBy n.register base r) := by
  intro s e
  obtain ⟨p, hp⟩ := hb s e
  exact ⟨_, value?_offsetBy hn hp r⟩

include hn in
theorem yieldsPlace_place {i : Instruction} {place : Expression}
    (h : place? n.register i = some place) : YieldsPlace place := by
  have hbase := yieldsPlace_absolute i.value
  unfold place? at h
  cases hm : i.mode with
  | zeroPage | absolute =>
    rw [hm] at h
    cases h
    exact hbase
  | zeroPageX | absoluteX | zeroPageY | absoluteY =>
    rw [hm] at h
    cases h
    exact yieldsPlace_offsetBy hn hbase _
  | indexedIndirect =>
    rw [hm] at h
    cases h
    exact yieldsPlace_memory (yieldsPlace_offsetBy hn hbase regX)
  | indirectIndexed =>
    rw [hm] at h
    cases h
    exact yieldsPlace_offsetBy hn (yieldsPlace_memory hbase) regY
  | implied | accumulator | immediate | indirect | relative =>
    rw [hm] at h
    cases h

include hn in
theorem yieldsByte_value {i : Instruction} {x : Expression} (h : value? n.register i = some x) :
    YieldsByte x := by
  by_cases hm : i.mode = .immediate
  · rw [value?, hm] at h
    cases h
    exact yieldsByte_byte _
  · by_cases ha : i.mode = .accumulator
    · rw [value?, ha] at h
      cases h
      exact yieldsByte_contents hn regA
    · have hmem : value? n.register i = (place? n.register i).map (.memory · .byte) := by
        unfold value?
        split <;> first | contradiction | rfl
      rw [hmem, Option.map_eq_some_iff] at h
      obtain ⟨place, hplace, rfl⟩ := h
      exact yieldsByte_memory (yieldsPlace_place hn hplace)

include hn in
theorem evaluates_flags (flags : List Flag) : Evaluates (.identifier (n.flags flags)) := by
  intro s e
  rw [Expression.value?, hn.flags]
  exact ⟨_, rfl⟩

include hn in
theorem evaluates_borrow :
    Evaluates (.unary .not .bool (.identifier (n.flags [.carry]))) :=
  fun s e => ⟨_, value?_borrow hn s e⟩

include hn in
theorem yieldsByte_rotated (function : String) {x : Expression} (hx : YieldsByte x) :
    YieldsByte (rotated n.flags function x) := by
  intro s e
  obtain ⟨v, hv⟩ := hx s e
  obtain ⟨c, hc⟩ := evaluates_flags hn [.carry] s e
  refine ⟨e.intrinsic function [.byte v, .byte 1, c] .byte, ?_⟩
  unfold Expression.value? at hc
  simp only [rotated, byte, Expression.value?, Expression.values?, hv, hc, Option.bind_some,
    Option.map_some]
  rfl

end Values

section Confinement
variable {n : Names} (hn : n.Faithful) {rs : List Register}

def Confined (rs : List Register) (ts : List Transfer) : Prop :=
  ∀ (o : Nat → Surroundings) (s : Machine), ∃ t, executeAll o ts s = some t ∧ s.SameOutside rs t

theorem Confined.append {ts us : List Transfer} (h : Confined rs ts) (h' : Confined rs us) :
    Confined rs (ts ++ us) := by
  intro o s
  obtain ⟨t, ht, hst⟩ := h o s
  obtain ⟨u, hu, htu⟩ := h' (fun n => o (n + ts.length)) t
  refine ⟨u, ?_, ?_⟩
  · rw [executeAll_append, ht, Option.bind_some, hu]
  · intro n hp hn
    rw [htu n hp hn, hst n hp hn]

theorem confined_of_execute {x : Transfer}
    (h : ∀ e s, ∃ t, execute e x s = some t ∧ s.SameOutside rs t) : Confined rs [x] := by
  intro o s
  obtain ⟨t, ht, hs⟩ := h (o 0) s
  refine ⟨t, ?_, hs⟩
  rw [executeAll, ht]
  rfl

theorem confined_of_idle {x : Transfer} (h : ∀ e s, execute e x s = some s) : Confined rs [x] :=
  confined_of_execute fun e s => ⟨s, h e s, fun _ _ _ => rfl⟩

include hn in
theorem confined_setting {r : Register} (hr : r ∈ rs) {x : Expression} (hx : YieldsByte x) :
    Confined rs [setting n.register r x] := by
  apply confined_of_execute
  intro e s
  obtain ⟨v, hv⟩ := hx s e
  refine ⟨_, execute_setting hn hv r, ?_⟩
  intro m _ hm
  exact Function.update_of_ne (hm r hr).symm _ _

theorem sameOutside_putFlags (rs : List Register) (s : Machine) (mask : Nat) (v : BitVec 8) :
    s.SameOutside rs (s.putFlags regP.number mask v) :=
  fun m hm _ => (s.sameData_putFlags mask v).registers m hm

include hn in
theorem confined_settingFlags (flags : List Flag) {x : Expression} (hx : Evaluates x) :
    Confined rs [settingFlags n.flags flags x] := by
  apply confined_of_execute
  intro e s
  obtain ⟨c, hc⟩ := hx s e
  exact ⟨_, execute_settingFlags hn hc flags, sameOutside_putFlags rs s _ _⟩

include hn in
theorem confined_settingFlag (flag : Flag) (value : Bool) :
    Confined rs [settingFlag n.flags flag value] := by
  apply confined_of_execute
  intro e s
  exact ⟨_, execute_settingFlag hn e s flag value, sameOutside_putFlags rs s _ _⟩

theorem confined_store {place x : Expression} (hp : YieldsPlace place) (hx : YieldsByte x) :
    Confined rs [.assignment (.memory place .byte) x] := by
  apply confined_of_execute
  intro e s
  obtain ⟨p, hp⟩ := hp s e
  obtain ⟨v, hv⟩ := hx s e
  exact ⟨_, execute_memory hp hv, fun _ _ _ => rfl⟩

include hn in
theorem confined_slot {x : Expression} (hx : YieldsByte x) :
    Confined rs [.assignment (.identifier n.slot) x] := by
  obtain ⟨k, hk⟩ := hn.slot
  apply confined_of_execute
  intro e s
  obtain ⟨v, hv⟩ := hx s e
  exact ⟨_, execute_slot hk hv, fun _ _ _ => rfl⟩

include hn in
theorem confined_settingWithFlags {r : Register} (hr : r ∈ rs) (flags : List Flag)
    {x : Expression} (hx : YieldsByte x) :
    Confined rs (settingWithFlags n.register n.flags r flags x) :=
  (confined_setting hn hr hx).append
    (confined_settingFlags hn flags (yieldsByte_contents hn r).evaluates)

include hn in
theorem confined_withValue {i : Instruction} (ho : i.mode.hasOperand)
    {f : Expression → List Transfer} (h : ∀ x, YieldsByte x → Confined rs (f x)) :
    Confined rs (withValue n.register i f) := by
  obtain ⟨x, hx, -⟩ | ⟨-, hno, -⟩ := value?_cases n.register i
  · rw [withValue, hx]
    exact h x (yieldsByte_value hn hx)
  · rw [hno] at ho
    cases ho

include hn in
theorem confined_withPlace {i : Instruction} (hm : i.mode.isMemory)
    {f : Expression → List Transfer} (h : ∀ x, YieldsPlace x → Confined rs (f x)) :
    Confined rs ((place? n.register i).elim [.invalid] f) := by
  obtain ⟨x, hx, -⟩ | ⟨-, hno, -⟩ := place?_cases n.register i
  · rw [hx]
    exact h x (yieldsPlace_place hn hx)
  · rw [hno] at hm
    cases hm

include hn in
theorem confined_moved {source destination : Register} (hd : destination ∈ rs) :
    Confined rs (moved n.register n.flags source destination) := by
  have hs := yieldsByte_contents hn source
  unfold moved
  split
  · exact confined_setting hn hd hs
  · exact confined_settingWithFlags hn hd resultFlags hs

include hn in
theorem confined_modified {i : Instruction} (hm : i.mode = .accumulator ∨ i.mode.isMemory)
    (flags : List Flag) {change : Expression → Expression}
    (hc : ∀ x, YieldsByte x → YieldsByte (change x)) :
    Confined (if i.mode = .accumulator then [regA] else [])
      (modified n.register n.flags i n.slot flags change) := by
  unfold modified
  by_cases ha : i.mode = .accumulator
  · rw [if_pos ha, if_pos ha]
    exact confined_settingWithFlags hn (List.mem_singleton_self _) flags
      (hc _ (yieldsByte_contents hn regA))
  · rw [if_neg ha, if_neg ha]
    apply confined_withPlace hn (hm.resolve_left ha)
    intro place hp
    have hslot := yieldsByte_slot hn
    exact (confined_slot hn (yieldsByte_memory hp)).append <|
      (confined_slot hn (hc _ hslot)).append <|
      (confined_store hp hslot).append <| confined_settingFlags hn flags hslot.evaluates

include hn in
theorem yieldsPlace_stack : YieldsPlace (offsetBy n.register (absolute 0x0100) regS) :=
  yieldsPlace_offsetBy hn (yieldsPlace_absolute 0x0100) regS

include hn in
theorem confined_stackMove (hs : regS ∈ rs) {op : Operator} (hop : op.isComparison = false) :
    Confined rs [stackMove n.register op] :=
  confined_setting hn hs
    (yieldsByte_binary hop (yieldsByte_contents hn regS) (yieldsByte_byte 1).evaluates)

include hn in
theorem confined_pushed (hs : regS ∈ rs) (r : Register) :
    Confined rs (pushed n.register (contents n.register r)) :=
  (confined_store (yieldsPlace_stack hn) (yieldsByte_contents hn r)).append
    (confined_stackMove hn hs rfl)

include hn in
theorem confined_pulled (r : Register) : Confined [regS, r] (pulled n.register r) :=
  (confined_stackMove hn List.mem_cons_self rfl).append
    (confined_setting hn (List.mem_cons_of_mem _ (List.mem_singleton_self r))
      (yieldsByte_memory (yieldsPlace_stack hn)))

include hn in
theorem emitted_confined (host : Host) {i : Instruction} (ha : i.mnemonic.admits i.mode) :
    Confined i.written (emitted n host i) := by
  have hself : ∀ r : Register, r ∈ [r] := List.mem_singleton_self
  have ho : i.mode.hasOperand → ∀ r : Register, r ∈ if i.mode.hasOperand then [r] else [] := by
    intro h r
    rw [if_pos h]
    exact hself r
  obtain ⟨a, mnemonic, m, value⟩ := i
  cases mnemonic with
  | lda | ldx | ldy =>
    exact confined_withValue hn ha fun x hx =>
      confined_settingWithFlags hn (ho ha _) resultFlags hx
  | sta | stx | sty =>
    exact confined_withPlace hn ha fun place hp => confined_store hp (yieldsByte_contents hn _)
  | tax | tay | txa | tya | tsx | txs => exact confined_moved hn (hself _)
  | and | ora | eor =>
    exact confined_withValue hn ha fun x hx =>
      confined_settingWithFlags hn (ho ha _) _
        (yieldsByte_binary rfl (yieldsByte_contents hn regA) hx.evaluates)
  | adc =>
    exact confined_withValue hn ha fun x hx =>
      confined_settingWithFlags hn (ho ha _) _
        (yieldsByte_binary rfl (yieldsByte_binary rfl (yieldsByte_contents hn regA) hx.evaluates)
          (evaluates_flags hn _))
  | sbc =>
    exact confined_withValue hn ha fun x hx =>
      confined_settingWithFlags hn (ho ha _) _
        (yieldsByte_binary rfl (yieldsByte_binary rfl (yieldsByte_contents hn regA) hx.evaluates)
          (evaluates_borrow hn))
  | asl | lsr | inc | dec =>
    have hm : m = .accumulator ∨ m.isMemory := by simpa [Mnemonic.admits] using ha
    exact confined_modified hn hm _ fun x hx =>
      yieldsByte_binary rfl hx (yieldsByte_byte 1).evaluates
  | rol | ror =>
    have hm : m = .accumulator ∨ m.isMemory := by simpa [Mnemonic.admits] using ha
    exact confined_modified hn hm _ fun x hx => yieldsByte_rotated hn _ hx
  | inx | iny | dex | dey =>
    exact confined_settingWithFlags hn (hself _) _
      (yieldsByte_binary rfl (yieldsByte_contents hn _) (yieldsByte_byte 1).evaluates)
  | cmp | cpx | cpy | bit =>
    exact confined_withValue hn ha fun x hx =>
      confined_settingFlags hn _
        (yieldsByte_binary rfl (yieldsByte_contents hn _) hx.evaluates).evaluates
  | pha | php => exact confined_pushed hn (hself _) _
  | pla =>
    exact (confined_pulled hn regA).append
      (confined_settingFlags hn _ (yieldsByte_contents hn regA).evaluates)
  | plp => exact confined_pulled hn regP
  | rti => exact (confined_pulled hn regP).append (confined_of_idle fun _ _ => rfl)
  | clc | sec | cli | sei | cld | sed | clv => exact confined_settingFlag hn _ _
  | _ => exact confined_of_idle fun _ _ => rfl

end Confinement

section Knowing
variable {n : Names} (hn : n.Faithful) {k : Knowledge} {s t : Machine} {i : Instruction}

include hn in
theorem executeAll_settingWithFlags (o : Nat → Surroundings) {x : Expression} {v : BitVec 8}
    (hx : x.value? (s.interpretation (o 0)) = some (.byte v)) (r : Register) (flags : List Flag) :
    executeAll o (settingWithFlags n.register n.flags r flags x) s =
      some ((s.put r.number v).putFlags regP.number (flagMask flags) ((o 1).flags (.byte v))) := by
  have hv := value?_contents hn (s.put r.number v) (o 1) r
  rw [show (s.put r.number v).registers r.number = v from Function.update_self _ _ _] at hv
  simp only [settingWithFlags, executeAll, execute_setting hn hx, execute_settingFlags hn hv,
    Option.bind_some]

theorem emitted_of_loads? {r : Register} (h : i.mnemonic.loads? = some r) (host : Host) :
    emitted n host i =
      withValue n.register i (settingWithFlags n.register n.flags r resultFlags) := by
  obtain ⟨a, mnemonic, m, value⟩ := i
  cases mnemonic <;> cases h <;> rfl

theorem emitted_of_steps? {r : Register} {op : Operator} (h : i.mnemonic.steps? = some (r, op))
    (host : Host) : emitted n host i =
      settingWithFlags n.register n.flags r resultFlags (moveByOne op (contents n.register r)) := by
  obtain ⟨a, mnemonic, m, value⟩ := i
  cases mnemonic <;> cases h <;> rfl

theorem number_of_loads? {mnemonic : Mnemonic} {r : Register} (h : mnemonic.loads? = some r) :
    r.number ≠ regP.number := by
  cases mnemonic <;> cases h <;> decide

theorem of_steps? {mnemonic : Mnemonic} {r : Register} {op : Operator}
    (h : mnemonic.steps? = some (r, op)) : op.isComparison = false ∧ r.number ≠ regP.number := by
  cases mnemonic <;> cases h <;> exact ⟨rfl, by decide⟩

theorem computed?_cases {r : Register} {c : Constant} (h : i.computed? k = some (r, c)) :
    (i.mnemonic.loads? = some r ∧ i.mode = .immediate ∧ c = .byte (i.value.setWidth 8)) ∨
      ∃ op d, i.mnemonic.steps? = some (r, op) ∧ k.contents? r = some d ∧
        c = op.fold d (.byte 1) := by
  unfold Instruction.computed? at h
  cases hl : i.mnemonic.loads? with
  | some q =>
    rw [hl] at h
    simp only at h
    split at h
    · rename_i hm
      cases h
      exact .inl ⟨rfl, hm, rfl⟩
    · cases h
  | none =>
    rw [hl] at h
    obtain ⟨⟨q, op⟩, hq, h⟩ := Option.bind_eq_some_iff.mp h
    obtain ⟨d, hd, he⟩ := Option.map_eq_some_iff.mp h
    cases he
    exact .inr ⟨op, d, hq, hd, rfl⟩

theorem number_of_computed? {r : Register} {c : Constant} (h : i.computed? k = some (r, c)) :
    r.number ≠ regP.number := by
  obtain ⟨hl, -, -⟩ | ⟨op, d, hs, -, -⟩ := computed?_cases h
  · exact number_of_loads? hl
  · exact (of_steps? hs).2

include hn in
theorem emitted_of_computed? (hs : s.Confirms k) {r : Register} {c : Constant}
    (h : i.computed? k = some (r, c)) (host : Host) (e : Surroundings) : ∃ x v,
      emitted n host i = settingWithFlags n.register n.flags r resultFlags x ∧
        x.value? (s.interpretation e) = some (.byte v) ∧ c = .byte v := by
  obtain ⟨hl, hm, rfl⟩ | ⟨op, d, hq, hd, rfl⟩ := computed?_cases h
  · have hv : value? n.register i = some (byte (i.value.setWidth 8)) := by
      rw [value?, hm]
    refine ⟨byte (i.value.setWidth 8), _, ?_, rfl, rfl⟩
    rw [emitted_of_loads? hl, withValue, hv]
    rfl
  · obtain rfl : d = .byte (s.registers r.number) := hs.byte _ _ hd
    have hop := (of_steps? hq).1
    have hfold := fold_byte hop (s.registers r.number) 1
    have hvalue := value?_binary hop (value?_contents hn s e r) (y := byte 1) rfl
    exact ⟨_, _, emitted_of_steps? hq host, hvalue, hfold⟩

include hn in
theorem emitted_confirms (o : Nat → Surroundings) (host : Host) (ha : i.mnemonic.admits i.mode)
    (hs : s.Confirms k) :
    ∃ t, executeAll o (emitted n host i) s = some t ∧ t.Confirms (i.learned k) := by
  obtain ⟨t, ht, hst⟩ := emitted_confined hn host ha o s
  have hforget := hs.forgetAll hst
  refine ⟨t, ht, ?_⟩
  unfold Instruction.learned
  cases hc : i.computed? k with
  | none => exact hforget
  | some found =>
    obtain ⟨r, c⟩ := found
    have hr := number_of_computed? hc
    obtain ⟨x, v, he, hx, rfl⟩ := emitted_of_computed? hn hs hc host (o 0)
    rw [he, executeAll_settingWithFlags hn o hx] at ht
    cases ht
    apply hforget.record hr
    -- The flags that follow the assignment leave the register as it is.
    have hflags := (s.put r.number v).sameData_putFlags (flagMask resultFlags)
      ((o 1).flags (.byte v))
    rw [hflags.registers _ hr]
    exact congrArg Constant.byte (Function.update_self r.number v s.registers).symm

end Knowing

section Counting
variable {k : Knowledge} {i : Instruction} {r : Register} {op : Operator}

def Mnemonic.displacement : Mnemonic → Int
  | .inx | .iny => 1
  | .dex | .dey => -1
  | _ => 0

def displacement : List Instruction → Int
  | [] => 0
  | i :: is => i.mnemonic.displacement + displacement is

theorem fold_of_steps? {mnemonic : Mnemonic} (h : mnemonic.steps? = some (r, op)) (v : BitVec 8) :
    op.fold (.byte v) (.byte 1) = .byte (v + .ofInt 8 mnemonic.displacement) := by
  rw [fold_byte (of_steps? h).1]
  cases mnemonic with
  | inx | iny =>
    cases h
    rfl
  | dex | dey =>
    cases h
    exact congrArg Constant.byte (BitVec.sub_eq_add_neg v 1)
  | _ => cases h

theorem contents?_learned_of_steps? (h : i.mnemonic.steps? = some (r, op)) {v : BitVec 8}
    (hk : k.contents? r = some (.byte v)) :
    (i.learned k).contents? r = some (.byte (v + .ofInt 8 i.mnemonic.displacement)) := by
  rw [learned_of_steps? h, hk, Option.map_some, Option.elim_some, fold_of_steps? h]
  exact Knowledge.contents?_record _ r _

theorem contents?_learned_of_loads? (h : i.mnemonic.loads? = some r) (hm : i.mode = .immediate) :
    (i.learned k).contents? r = some (.byte (i.value.setWidth 8)) := by
  rw [learned_of_loads? h, if_pos hm]
  exact Knowledge.contents?_record k r _

theorem contents?_after_steps {js : List Instruction}
    (hjs : ∀ j ∈ js, ∃ op, j.mnemonic.steps? = some (r, op)) {w : Workspace} {v : BitVec 8}
    (hk : w.knowledge.contents? r = some (.byte v)) :
    (w.after (js.map fun j => .ok (.mos6502 j))).knowledge.contents? r =
      some (.byte (v + .ofInt 8 (displacement js))) := by
  induction js generalizing w v with
  | nil =>
    have hzero : v + .ofInt 8 0 = v := BitVec.add_zero v
    rw [List.map_nil, displacement, hzero]
    exact hk
  | cons j js ih =>
    obtain ⟨⟨op, hj⟩, hrest⟩ := List.forall_mem_cons.mp hjs
    have hnext := ih hrest (contents?_learned_of_steps? hj hk)
      (w := ⟨_, (RegisterTransfer.Instruction.mos6502 j).framed w.frame, w.questions ++ j.asked⟩)
    rw [BitVec.add_assoc, ← BitVec.ofInt_add] at hnext
    rw [List.map_cons, displacement]
    exact hnext

end Counting

end Mos6502

namespace Session

open Mos6502

theorem admits_of_decode? {c : Cursor} {i : Instruction}
    (h : Architecture.mos6502.decode? c = some i) :
    ∃ j, i = .mos6502 j ∧ j.mnemonic.admits j.mode := by
  obtain ⟨j, hj, rfl⟩ := Architecture.decode?_mos6502.mp h
  obtain ⟨opcode, -, hm, -, -⟩ := decode_eq_some_iff.mp hj
  exact ⟨j, rfl, admits_of_decodeOpcode opcode _ hm⟩

def Admitted (items : List (Except DecodeError Instruction)) : Prop :=
  ∀ i, .ok i ∈ items → ∃ j, i = .mos6502 j ∧ j.mnemonic.admits j.mode

theorem admitted_take (c : Cursor) (n : Nat) : Admitted ((Decoding.start .mos6502 c).take n).1 := by
  intro i hi
  obtain ⟨d, hd⟩ := Decoding.decode?_of_take hi
  exact admits_of_decode? hd

theorem clusters_confirm (o : Nat → Surroundings) (host : Host)
    {items : List (Except DecodeError Instruction)} (hi : Admitted items) {w : Workspace}
    {s : Machine} (hs : s.Confirms w.knowledge) :
    ∃ t, executeAll o (transfers (clusters host w.frame items)) s = some t ∧
      t.Confirms (w.after items).knowledge := by
  -- What is known and the machine move together, and the surroundings count on.
  induction items generalizing w s o with
  | nil => exact ⟨s, rfl, hs⟩
  | cons item items ih =>
    have hrest := fun i hmem => hi i (List.mem_cons_of_mem item hmem)
    cases item with
    | error e => exact ih o hrest hs
    | ok i =>
      obtain ⟨j, rfl, ha⟩ := hi i List.mem_cons_self
      obtain ⟨t, ht, hk⟩ := emitted_confirms (faithful_names w.frame) o host ha hs
      let w' : Workspace :=
        ⟨j.learned w.knowledge, (Instruction.mos6502 j).framed w.frame, w.questions ++ j.asked⟩
      obtain ⟨u, hu, hku⟩ :=
        ih (fun n => o (n + (emitted w.frame.names host j).length)) hrest (w := w') hk
      refine ⟨u, ?_, hku⟩
      have hts : transfers (clusters host w.frame (.ok (.mos6502 j) :: items)) =
          emitted w.frame.names host j ++ transfers (clusters host w'.frame items) := rfl
      rw [hts, executeAll_append, ht, Option.bind_some]
      exact hu

theorem run_confirms_knowledge (o : Nat → Surroundings) (host : Host) (c : Cursor) (k : Knowledge)
    (f : Frame) (s : Machine) (hs : s.Confirms k) :
    let decoded := fun n => ((Decoding.start .mos6502 c).take n).1
    let lifted := fun n => (start .mos6502 c k f).take host n
    let known := fun n => (lifted n).2.workspace.knowledge
    (∀ n, ∃ t, executeAll o (transfers (lifted n).1) s = some t ∧ t.Confirms (known n)) ∧
    (∀ n i r op v, (decoded (n + 1))[n]? = some (.ok (.mos6502 i)) →
      i.mnemonic.steps? = some (r, op) → (known n).contents? r = some (.byte v) →
        (known (n + 1)).contents? r = some (.byte (v + .ofInt 8 i.mnemonic.displacement))) ∧
    ∀ n items i js r, decoded n = items ++ (i :: js).map (fun j => .ok (.mos6502 j)) →
      i.mnemonic.loads? = some r → i.mode = .immediate →
      (∀ j ∈ js, ∃ op, j.mnemonic.steps? = some (r, op)) →
        (known n).contents? r =
          some (.byte (i.value.setWidth 8 + .ofInt 8 (displacement js))) := by
  intro decoded lifted known
  have hitems : ∀ n, (lifted n).1 = clusters host f (decoded n) := fun n =>
    clusters_take host .mos6502 c k f n
  have hknown : ∀ n, known n = (Workspace.after ⟨k, f, []⟩ (decoded n)).knowledge := fun n =>
    congrArg Workspace.knowledge (workspace_take host .mos6502 c k f n)
  refine ⟨?_, ?_, ?_⟩
  · intro n
    rw [hitems, hknown]
    exact clusters_confirm o host (admitted_take c n) (w := ⟨k, f, []⟩) hs
  · intro n i r op v hi hr hv
    have hsplit : decoded (n + 1) = decoded n ++ [.ok (.mos6502 i)] :=
      Decoding.take_succ_of_getElem? hi
    rw [hknown] at hv
    rw [hknown, hsplit, Workspace.after_append]
    exact contents?_learned_of_steps? hr hv
  · intro n items i js r hn hr hm hjs
    rw [hknown, hn, Workspace.after_append, List.map_cons, Workspace.after]
    exact contents?_after_steps hjs (contents?_learned_of_loads? hr hm)

theorem run_confirms_index_past_top :
    let c : Cursor := ⟨⟨.ptr16 0x0600, [0x68, 0xA2, 0xFE, 0xE8, 0xE8, 0xE8, 0xCA]⟩, 0, .little⟩
    let host : Host := ⟨fun _ _ => none, fun _ => none⟩
    let k : Knowledge := (Table.empty.insert 0 (.byte 0x10)).insert 2 (.byte 0x33)
    let s : Machine :=
      ⟨fun n => if n = 0 then 0x10 else if n = 2 then 0x33 else 0, fun _ => 0, fun _ => 0xAA⟩
    let run := (start .mos6502 c k (.empty 16)).take host 6
    s.Confirms k ∧ run.2.workspace.knowledge.contents? regA = none ∧
      ∃ t, executeAll (fun _ => rotating) (transfers run.1) s = some t ∧ t.x = 0 ∧ t.y = 0x33 := by
  let pla : Mos6502.Instruction := ⟨.ptr16 0x0600, .pla, .implied, 0⟩
  let ldx : Mos6502.Instruction := ⟨.ptr16 0x0601, .ldx, .immediate, 0xFE⟩
  let counted : List Mos6502.Instruction :=
    [⟨.ptr16 0x0603, .inx, .implied, 0⟩, ⟨.ptr16 0x0604, .inx, .implied, 0⟩,
      ⟨.ptr16 0x0605, .inx, .implied, 0⟩, ⟨.ptr16 0x0606, .dex, .implied, 0⟩]
  have hdecoded : ((Decoding.start .mos6502
      ⟨⟨.ptr16 0x0600, [0x68, 0xA2, 0xFE, 0xE8, 0xE8, 0xE8, 0xCA]⟩, 0, .little⟩).take 6).1 =
        [.ok (.mos6502 pla)] ++ (ldx :: counted).map (fun j => .ok (.mos6502 j)) := rfl
  intro c host k s run
  have hknown : run.2.workspace.knowledge.contents? regA = none ∧
      run.2.workspace.knowledge.contents? regY = some (.byte 0x33) := by
    unfold run k host c
    decide +kernel
  have hs : s.Confirms k := by
    refine ⟨?_, rfl⟩
    intro n d hd
    rw [Table.get?_insert, Table.get?_insert] at hd
    split at hd
    · rename_i hn
      subst hn
      cases hd
      rfl
    · split at hd
      · rename_i hn
        subst hn
        cases hd
        rfl
      · cases hd
  obtain ⟨hrun, -, hload⟩ :=
    run_confirms_knowledge (fun _ => rotating) host c k (.empty 16) s hs
  have hsteps : ∀ j ∈ counted, ∃ op, j.mnemonic.steps? = some (regX, op) := by
    simp [counted, Mnemonic.steps?]
  have hx := hload 6 [.ok (.mos6502 pla)] ldx counted regX hdecoded rfl rfl hsteps
  obtain ⟨t, ht, hk⟩ := hrun 6
  have hzero : ldx.value.setWidth 8 + .ofInt 8 (displacement counted) = (0 : BitVec 8) := by
    unfold ldx counted
    decide +kernel
  have htx : 0 = t.x := hzero.symm.trans (byte_injective (hk.byte regX.number _ hx))
  have hty : 0x33 = t.y := byte_injective (hk.byte regY.number (.byte 0x33) hknown.2)
  exact ⟨hs, hknown.1, t, ht, htx.symm, hty.symm⟩

end Session

end RegisterTransfer
