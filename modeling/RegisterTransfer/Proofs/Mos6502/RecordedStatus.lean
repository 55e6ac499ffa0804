import RegisterTransfer.Proofs.Mos6502.KnownRegisters

/-!
What lifting has recorded of the status register of the MOS 6502. An assignment to a group of flags
changes bits of the register and leaves the record as it is; only the instructions that pull the
whole register make it unknown. So the record is right as long as every bit was last written with
the value recorded for it.
-/

namespace RegisterTransfer

namespace Mos6502

def Mnemonic.flags : Mnemonic → List Flag
  | .lda | .ldx | .ldy | .tax | .tay | .txa | .tya | .tsx | .and | .ora | .eor | .inc | .dec
  | .inx | .iny | .dex | .dey | .pla => [.negative, .zero]
  | .asl | .lsr | .rol | .ror | .cmp | .cpx | .cpy => [.negative, .zero, .carry]
  | .adc | .sbc => [.negative, .overflow, .zero, .carry]
  | .bit => [.negative, .overflow, .zero]
  | .clc | .sec => [.carry]
  | .cli | .sei => [.interrupt]
  | .cld | .sed => [.decimal]
  | .clv => [.overflow]
  | _ => []

def Mnemonic.sets? : Mnemonic → Option Bool
  | .clc | .cli | .cld | .clv => some false
  | .sec | .sei | .sed => some true
  | _ => none

def Mnemonic.pullsStatus (m : Mnemonic) : Bool := m = .plp || m = .rti

def Mnemonic.writesBit (m : Mnemonic) (j : Fin 8) : Bool := (flagMask m.flags).testBit j

def Machine.status (s : Machine) : BitVec 8 := s.registers regP.number

def lastWriter (j : Fin 8) : List (Except DecodeError RegisterTransfer.Instruction) →
    Option Mnemonic
  | [] => none
  | .ok (.mos6502 i) :: items =>
    (lastWriter j items).or (if i.mnemonic.writesBit j then some i.mnemonic else none)
  | _ :: items => lastWriter j items

def statusPulled : List (Except DecodeError RegisterTransfer.Instruction) → Bool
  | [] => false
  | .ok (.mos6502 i) :: items => i.mnemonic.pullsStatus || statusPulled items
  | _ :: items => statusPulled items

section Record

theorem written_status (i : Instruction) :
    i.written.any (·.number == regP.number) = i.mnemonic.pullsStatus := by
  obtain ⟨a, mnemonic, mode, value⟩ := i
  unfold Instruction.written
  cases mnemonic <;> simp only <;> (try split) <;> rfl

theorem contents?_status_record (k : Knowledge) {r : Register} (hr : r.number ≠ regP.number)
    (c : Constant) : (k.record r c).contents? regP = k.contents? regP := by
  rw [Knowledge.record, Knowledge.contents?, Table.get?_insert, if_neg hr]
  rfl

theorem contents?_status_learned (k : Knowledge) (i : Instruction) :
    (i.learned k).contents? regP =
      if i.mnemonic.pullsStatus then none else k.contents? regP := by
  have hforget : (k.forgetAll i.written).contents? regP =
      if i.mnemonic.pullsStatus then none else k.contents? regP := by
    rw [Knowledge.contents?, get?_forgetAll, written_status]
    rfl
  unfold Instruction.learned
  cases hc : i.computed? k with
  | none => exact hforget
  | some found => exact (contents?_status_record _ (number_of_computed? hc) found.2).trans hforget

end Record

def SparesStatus : Transfer → Prop
  | .assignment (.identifier id) _ =>
    match id.storage with
    | .register r => r.number ≠ regP.number
    | .flagGroup .. => False
    | .temporary _ => True
  | _ => True

inductive WritesLast (n : Names) (m : Mnemonic) : List Transfer → Prop
  | nothing (h : m.flags = []) : WritesLast n m []
  | single {flag : Flag} {value : Bool} (h : m.flags = [flag]) (hv : m.sets? = some value) :
      WritesLast n m [settingFlag n.flags flag value]
  | computed {x : Expression} (h : m.sets? = none) :
      WritesLast n m [settingFlags n.flags m.flags x]
  | after {x : Transfer} {ts : List Transfer} (hx : SparesStatus x) (h : WritesLast n m ts) :
      WritesLast n m (x :: ts)

section Emission
variable {n : Names} (hn : n.Faithful) {m : Mnemonic} {i : Instruction}

include hn in
theorem sparesStatus_setting {r : Register} (hr : r.number ≠ regP.number) (x : Expression) :
    SparesStatus (setting n.register r x) := by
  simp only [setting, contents, SparesStatus, hn.register]
  exact hr

include hn in
theorem sparesStatus_slot (x : Expression) :
    SparesStatus (.assignment (.identifier n.slot) x) := by
  obtain ⟨k, hk⟩ := hn.slot
  simp only [SparesStatus, hk]

include hn in
theorem writesLast_settingWithFlags (hm : m.sets? = none) {r : Register}
    (hr : r.number ≠ regP.number) (x : Expression) :
    WritesLast n m (settingWithFlags n.register n.flags r m.flags x) :=
  .after (sparesStatus_setting hn hr x) (.computed hm)

theorem writesLast_withValue (ho : i.mode.hasOperand) {f : Expression → List Transfer}
    (h : ∀ x, WritesLast n m (f x)) : WritesLast n m (withValue n.register i f) := by
  obtain ⟨x, hx, -⟩ | ⟨-, hno, -⟩ := value?_cases n.register i
  · rw [withValue, hx]
    exact h x
  · rw [hno] at ho
    cases ho

theorem writesLast_withPlace (hmem : i.mode.isMemory) {f : Expression → List Transfer}
    (h : ∀ x, WritesLast n m (f x)) :
    WritesLast n m ((place? n.register i).elim [.invalid] f) := by
  obtain ⟨x, hx, -⟩ | ⟨-, hno, -⟩ := place?_cases n.register i
  · rw [hx]
    exact h x
  · rw [hno] at hmem
    cases hmem

include hn in
theorem writesLast_moved (hm : m.sets? = none) (hf : m.flags = resultFlags)
    {destination : Register} (hs : destination ≠ regS) (hp : destination.number ≠ regP.number)
    (source : Register) :
    WritesLast n m (moved n.register n.flags source destination) := by
  rw [moved, if_neg hs, ← hf]
  exact writesLast_settingWithFlags hn hm hp _

include hn in
theorem writesLast_modified (hm : m.sets? = none)
    (hmode : i.mode = .accumulator ∨ i.mode.isMemory) (change : Expression → Expression) :
    WritesLast n m (modified n.register n.flags i n.slot m.flags change) := by
  unfold modified
  by_cases ha : i.mode = .accumulator
  · rw [if_pos ha]
    exact writesLast_settingWithFlags hn hm (by decide) _
  · rw [if_neg ha]
    apply writesLast_withPlace (hmode.resolve_left ha)
    intro place
    have hslot := sparesStatus_slot hn
    exact .after (hslot _) (.after (hslot _) (.after trivial (.computed hm)))

include hn in
theorem emitted_writesLast (host : Host) (ha : i.mnemonic.admits i.mode)
    (hp : i.mnemonic.pullsStatus = false) : WritesLast n i.mnemonic (emitted n host i) := by
  have hstack := sparesStatus_setting hn (r := regS) (by decide)
  obtain ⟨a, mnemonic, mode, value⟩ := i
  cases mnemonic with
  | lda | ldx | ldy | and | ora | eor | adc | sbc =>
    exact writesLast_withValue ha fun x => writesLast_settingWithFlags hn rfl (by decide) _
  | cmp | cpx | cpy | bit => exact writesLast_withValue ha fun x => .computed rfl
  | sta | stx | sty => exact writesLast_withPlace ha fun x => .after trivial (.nothing rfl)
  | tax | tay | txa | tya | tsx =>
    exact writesLast_moved hn rfl rfl (by decide) (by decide) _
  | txs => exact .after (hstack _) (.nothing rfl)
  | asl | lsr | rol | ror | inc | dec =>
    have hm : mode = .accumulator ∨ mode.isMemory := by simpa [Mnemonic.admits] using ha
    exact writesLast_modified hn rfl hm _
  | inx | iny | dex | dey => exact writesLast_settingWithFlags hn rfl (by decide) _
  | pha | php => exact .after trivial (.after (hstack _) (.nothing rfl))
  | pla =>
    have haccumulator := sparesStatus_setting hn (r := regA) (by decide)
    exact .after (hstack _) (.after (haccumulator _) (.computed rfl))
  | clc | sec | cli | sei | cld | sed | clv => exact .single rfl rfl
  | plp | rti => cases hp
  | _ => exact .after trivial (.nothing rfl)

end Emission

def Mnemonic.Writes (m : Mnemonic) (o : Nat → Surroundings) (j : Fin 8) (after : Bool) : Prop :=
  m.sets? = some after ∨ m.sets? = none ∧ ∃ k c, after = ((o k).flags c).getLsbD j

def Leaves (o : Nat → Surroundings) (j : Fin 8) (before : Bool) : Option Mnemonic → Bool → Prop
  | none, after => after = before
  | some m, after => m.Writes o j after

section Execution
variable {o : Nat → Surroundings} {j : Fin 8} {before between after : Bool} {s t : Machine}

theorem Leaves.of_later {writer : Option Mnemonic} {d : Nat}
    (h : Leaves (fun n => o (n + d)) j before writer after) : Leaves o j before writer after := by
  cases writer with
  | none => exact h
  | some m =>
    rcases h with hs | ⟨hs, k, c, hc⟩
    · exact .inl hs
    · exact .inr ⟨hs, k + d, c, hc⟩

theorem Leaves.trans {earlier later : Option Mnemonic} (h : Leaves o j before earlier between)
    (h' : Leaves o j between later after) : Leaves o j before (later.or earlier) after := by
  cases later with
  | none =>
    obtain rfl : after = between := h'
    exact h
  | some m => exact h'

theorem getLsbD_status_putFlags (s : Machine) (mask : Nat) (v : BitVec 8) (j : Fin 8) :
    (s.putFlags regP.number mask v).status.getLsbD j =
      if mask.testBit j then v.getLsbD j else s.status.getLsbD j := by
  have hstatus : (s.putFlags regP.number mask v).status =
      (s.status &&& ~~~.ofNat 8 mask) ||| (v &&& .ofNat 8 mask) :=
    Function.update_self regP.number _ s.registers
  rw [hstatus]
  simp only [BitVec.getLsbD_or, BitVec.getLsbD_and, BitVec.getLsbD_not, BitVec.getLsbD_ofNat,
    j.isLt]
  cases mask.testBit j <;> simp

theorem SparesStatus.status_eq {e : Surroundings} {x : Transfer} (h : SparesStatus x)
    (hx : execute e x s = some t) : t.status = s.status := by
  unfold execute at hx
  split at hx
  · rename_i id source
    cases hid : id.storage with
    | register r =>
      simp only [SparesStatus, hid] at h
      simp only [hid] at hx
      obtain ⟨v, -, rfl⟩ := Option.map_eq_some_iff.mp hx
      exact Function.update_of_ne h.symm v s.registers
    | temporary k =>
      simp only [hid] at hx
      obtain ⟨v, -, rfl⟩ := Option.map_eq_some_iff.mp hx
      rfl
    | flagGroup r mask =>
      simp only [SparesStatus, hid] at h
  · obtain ⟨place, -, hx⟩ := Option.bind_eq_some_iff.mp hx
    obtain ⟨v, -, rfl⟩ := Option.map_eq_some_iff.mp hx
    rfl
  all_goals cases hx
  all_goals rfl

theorem leaves_putFlags {m : Mnemonic} {v : BitVec 8} {j : Fin 8}
    (hv : m.Writes o j (v.getLsbD j)) (s : Machine) :
    Leaves o j (s.status.getLsbD j) (if m.writesBit j then some m else none)
      ((s.putFlags regP.number (flagMask m.flags) v).status.getLsbD j) := by
  rw [getLsbD_status_putFlags, Mnemonic.writesBit]
  split
  · exact hv
  · rfl

theorem getLsbD_filled : ∀ (value : Bool) (j : Fin 8),
    (if value then BitVec.allOnes 8 else 0).getLsbD j = value := by
  decide

variable {n : Names} (hn : n.Faithful) {m : Mnemonic} {ts : List Transfer}

include hn in
theorem of_execute_settingFlags {e : Surroundings} {flags : List Flag} {x : Expression}
    (h : execute e (settingFlags n.flags flags x) s = some t) :
    ∃ c, t = s.putFlags regP.number (flagMask flags) (e.flags c) := by
  simp only [settingFlags, execute, hn.flags, Machine.flagBits?, Option.map_map] at h
  obtain ⟨c, -, rfl⟩ := Option.map_eq_some_iff.mp h
  exact ⟨c, rfl⟩

include hn in
theorem WritesLast.leaves (h : WritesLast n m ts) (ht : executeAll o ts s = some t) (j : Fin 8) :
    Leaves o j (s.status.getLsbD j) (if m.writesBit j then some m else none)
      (t.status.getLsbD j) := by
  -- What stands before the flags leaves the register as it is.
  induction h generalizing o s with
  | nothing hf =>
    cases ht
    have hw : m.writesBit j = false := by
      rw [Mnemonic.writesBit, hf]
      exact Nat.zero_testBit _
    rw [hw]
    rfl
  | @single flag value hf hv =>
    rw [executeAll, execute_settingFlag hn] at ht
    cases ht
    rw [← hf]
    apply leaves_putFlags
    rw [getLsbD_filled]
    exact .inl hv
  | computed hm =>
    obtain ⟨u, hu, hut⟩ := Option.bind_eq_some_iff.mp ht
    cases hut
    obtain ⟨c, rfl⟩ := of_execute_settingFlags hn hu
    exact leaves_putFlags (.inr ⟨hm, 0, c, rfl⟩) s
  | after hx h ih =>
    obtain ⟨u, hu, hut⟩ := Option.bind_eq_some_iff.mp ht
    have hlast := ih hut
    rw [hx.status_eq hu] at hlast
    exact hlast.of_later

theorem eq_of_leaves {writer : Fin 8 → Option Mnemonic} {v u : BitVec 8}
    (hw : ∀ j m, writer j = some m → m.sets? = some (v.getLsbD j))
    (h : ∀ j : Fin 8, Leaves o j (v.getLsbD j) (writer j) (u.getLsbD j)) : u = v := by
  apply BitVec.eq_of_getLsbD_eq
  intro b hb
  have hj := h ⟨b, hb⟩
  cases hm : writer ⟨b, hb⟩ with
  | none =>
    rw [hm] at hj
    exact hj
  | some m =>
    have hs := hw _ m hm
    rw [hm] at hj
    obtain hs' | ⟨hs', -⟩ := hj
    · exact Option.some.inj (hs'.symm.trans hs)
    · rw [hs'] at hs
      cases hs

def turning (v : BitVec 8) : Surroundings := ⟨fun _ _ _ => 0, fun _ => ~~~v⟩

theorem sets?_of_turning {v : BitVec 8}
    (h : Leaves (fun _ => turning v) j before (some m) (v.getLsbD j)) :
    m.sets? = some (v.getLsbD j) := by
  obtain hs | ⟨_, _, _, hbit⟩ := h
  · exact hs
  · simp [turning] at hbit

end Execution

end Mos6502

namespace Session

open Mos6502

theorem contents?_status_after {items : List (Except DecodeError Instruction)}
    (hi : Admitted items) (w : Workspace) :
    (w.after items).knowledge.contents? regP =
      if statusPulled items then none else w.knowledge.contents? regP := by
  -- Pulling the status drops what is known of it, and nothing records it again.
  induction items generalizing w with
  | nil => rfl
  | cons item items ih =>
    have hrest := fun i hmem => hi i (List.mem_cons_of_mem item hmem)
    cases item with
    | error e => exact ih hrest w
    | ok i =>
      obtain ⟨j, rfl, -⟩ := hi i List.mem_cons_self
      have hj := contents?_status_learned w.knowledge j
      rw [Workspace.after, ih hrest, statusPulled]
      simp only [Instruction.learned, hj]
      cases j.mnemonic.pullsStatus <;> simp

theorem clusters_leave (o : Nat → Surroundings) (host : Host) (f : Frame)
    {items : List (Except DecodeError Instruction)} (hi : Admitted items) (s : Machine) :
    ∃ t, executeAll o (transfers (clusters host f items)) s = some t ∧
      (statusPulled items = false → ∀ j : Fin 8,
        Leaves o j (s.status.getLsbD j) (lastWriter j items) (t.status.getLsbD j)) := by
  -- The state of one instruction is where the next one starts, with the surroundings moved on.
  induction items generalizing f s o with
  | nil => exact ⟨s, rfl, fun _ _ => rfl⟩
  | cons item items ih =>
    have hrest := fun i hmem => hi i (List.mem_cons_of_mem item hmem)
    cases item with
    | error e => exact ih o f hrest s
    | ok i =>
      obtain ⟨j, rfl, ha⟩ := hi i List.mem_cons_self
      obtain ⟨t, ht, -⟩ := emitted_confined (faithful_names f) host ha o s
      let o' := fun n => o (n + (emitted f.names host j).length)
      obtain ⟨u, hu, hleft⟩ := ih o' ((Instruction.mos6502 j).framed f) hrest t
      refine ⟨u, ?_, ?_⟩
      · have hts : transfers (clusters host f (.ok (.mos6502 j) :: items)) = emitted f.names host j ++
            transfers (clusters host ((Instruction.mos6502 j).framed f) items) := rfl
        rw [hts, executeAll_append, ht, Option.bind_some]
        exact hu
      · intro hp b
        obtain ⟨hj, hitems⟩ : j.mnemonic.pullsStatus = false ∧ statusPulled items = false := by
          simpa [statusPulled] using hp
        have hfirst := (emitted_writesLast (faithful_names f) host ha hj).leaves
          (faithful_names f) ht b
        exact hfirst.trans (hleft hitems b).of_later

theorem clusters_keep_status_iff (host : Host) (f : Frame)
    {items : List (Except DecodeError Instruction)} (hi : Admitted items)
    (hp : statusPulled items = false) (v : BitVec 8) :
    (∀ o s, s.status = v → ∃ t, executeAll o (transfers (clusters host f items)) s = some t ∧
        t.status = v) ↔
      ∀ j m, lastWriter j items = some m → m.sets? = some (v.getLsbD j) := by
  constructor
  · intro h j m hm
    -- Flags that depend on the data can be turned against the register that is recorded.
    let s : Machine := ⟨fun _ => v, fun _ => 0, fun _ => 0⟩
    obtain ⟨t, ht, hv⟩ := h (fun _ => turning v) s rfl
    obtain ⟨u, hu, hleft⟩ := clusters_leave (fun _ => turning v) host f hi s
    obtain rfl : u = t := Option.some.inj (hu.symm.trans ht)
    have hj := hleft hp j
    rw [hm, hv] at hj
    exact sets?_of_turning hj
  · rintro h o s rfl
    obtain ⟨t, ht, hleft⟩ := clusters_leave o host f hi s
    exact ⟨t, ht, eq_of_leaves h (hleft hp)⟩

/-- Once it is pulled the register is not recorded. Before, the record is right in every run exactly
if each bit was last written to be as recorded, whatever the data are. -/
theorem recorded_status_right_iff (host : Host) (c : Cursor) (k : Knowledge) (f : Frame)
    (v : BitVec 8) (hk : k.contents? regP = some (.byte v)) :
    let decoded := fun n => ((Decoding.start .mos6502 c).take n).1
    let lifted := fun n => (start .mos6502 c k f).take host n
    let recorded := fun n => (lifted n).2.workspace.knowledge.contents? regP
    ∀ n, recorded n = (if statusPulled (decoded n) then none else some (.byte v)) ∧
      ((∀ o s, s.status = v → ∃ t, executeAll o (transfers (lifted n).1) s = some t ∧
          ∀ x, recorded n = some x → x = .byte t.status) ↔
        statusPulled (decoded n) ∨
          ∀ j m, lastWriter j (decoded n) = some m → m.sets? = some (v.getLsbD j)) := by
  intro decoded lifted recorded n
  have hadmits : Admitted (decoded n) := admitted_take c n
  have hitems : (lifted n).1 = clusters host f (decoded n) := clusters_take host _ c k f n
  have hrecorded : recorded n = if statusPulled (decoded n) then none else some (.byte v) := by
    have hknown := workspace_take host .mos6502 c k f n
    rw [← hk]
    simp only [recorded, lifted, hknown]
    exact contents?_status_after hadmits ⟨k, f, []⟩
  refine ⟨hrecorded, ?_⟩
  rw [hrecorded, hitems]
  cases hp : statusPulled (decoded n) with
  | true =>
    refine iff_of_true ?_ (.inl rfl)
    intro o s _
    obtain ⟨t, ht, -⟩ := clusters_leave o host f hadmits s
    exact ⟨t, ht, fun x hx => by cases hx⟩
  | false =>
    have hbyte : ∀ t : Machine, Constant.byte v = .byte t.status ↔ t.status = v := fun t =>
      ⟨fun h => (byte_injective h).symm, fun h => congrArg Constant.byte h.symm⟩
    simpa [hbyte] using clusters_keep_status_iff host f hadmits hp v

theorem recorded_status_right_after_carry :
    let c : Cursor := ⟨⟨.ptr16 0x0800, [0x18, 0x38, 0xA9, 0x00]⟩, 0, .little⟩
    let host : Host := ⟨fun _ _ => none, fun _ => none⟩
    let k : Knowledge := Table.empty.insert regP.number (.byte 0x21)
    let lifted := fun n => (start .mos6502 c k (.empty 16)).take host n
    let Right := fun n => ∀ o s, s.status = 0x21 →
      ∃ t, executeAll o (transfers (lifted n).1) s = some t ∧
        ∀ x, (lifted n).2.workspace.knowledge.contents? regP = some x → x = .byte t.status
    k.contents? regP = some (.byte 0x21) ∧ ¬Right 1 ∧ Right 2 ∧ ¬Right 3 := by
  let clc : Mos6502.Instruction := ⟨.ptr16 0x0800, .clc, .implied, 0⟩
  let sec : Mos6502.Instruction := ⟨.ptr16 0x0801, .sec, .implied, 0⟩
  let lda : Mos6502.Instruction := ⟨.ptr16 0x0802, .lda, .immediate, 0⟩
  let items : List (Except DecodeError Instruction) :=
    [.ok (.mos6502 clc), .ok (.mos6502 sec), .ok (.mos6502 lda)]
  have hdecoded : ∀ n ∈ [1, 2, 3], ((Decoding.start .mos6502
      ⟨⟨.ptr16 0x0800, [0x18, 0x38, 0xA9, 0x00]⟩, 0, .little⟩).take n).1 = items.take n := by
    simp only [List.forall_mem_cons]
    exact ⟨rfl, rfl, rfl, fun _ h => absurd h List.not_mem_nil⟩
  intro c host k lifted Right
  have hk : k.contents? regP = some (.byte 0x21) := rfl
  have hright : ∀ n ∈ [1, 2, 3], Right n ↔ statusPulled (items.take n) ∨
      ∀ j m, lastWriter j (items.take n) = some m →
        m.sets? = some (BitVec.getLsbD (0x21 : BitVec 8) j) := by
    intro n hn
    rw [← hdecoded n hn]
    exact (recorded_status_right_iff host c k (.empty 16) 0x21 hk n).2
  rw [hright 1 (by decide), hright 2 (by decide), hright 3 (by decide)]
  refine ⟨hk, ?_, ?_, ?_⟩
  · rintro (h | h)
    · cases h
    · exact absurd (h 0 .clc (by decide)) (by decide)
  · right
    have h : ∀ j, ∀ m ∈ lastWriter j (items.take 2),
        m.sets? = some (BitVec.getLsbD (0x21 : BitVec 8) j) := by
      decide
    exact h
  · rintro (h | h)
    · cases h
    · exact absurd (h 1 .lda (by decide)) (by decide)

theorem recorded_status_stale_after_sec :
    let c : Cursor := ⟨⟨.ptr16 0x0800, [0x38]⟩, 0, .little⟩
    let host : Host := ⟨fun _ _ => none, fun _ => none⟩
    let k : Knowledge := Table.empty.insert regP.number (.byte 0)
    let s : Machine := ⟨fun _ => 0, fun _ => 0, fun _ => 0⟩
    let lifted := (start .mos6502 c k (.empty 16)).take host 1
    k.contents? regP = some (.byte s.status) ∧
      lifted.2.workspace.knowledge.contents? regP = some (.byte 0) ∧
      ∃ t, executeAll (fun _ => rotating) (transfers lifted.1) s = some t ∧ t.status = 1 :=
  ⟨rfl, rfl, _, rfl, rfl⟩

end Session

end RegisterTransfer
