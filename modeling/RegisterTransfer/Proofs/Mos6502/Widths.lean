import RegisterTransfer.Proofs.Balance

namespace RegisterTransfer.Mos6502

open Expression Transfer

def carry : Expression := .identifier ⟨"C", .bool, .flagGroup regP (flagMask [.carry])⟩

def TakesCarry : Expression → Prop
  | .binary op t left right => t = .byte ∧ left.width? = some 8 ∧
      (op = .iadd ∧ right = carry ∨ op = .isub ∧ right = .unary .not .bool carry)
  | _ => False

theorem TakesCarry.not_balanced {e : Expression} (h : TakesCarry e) : ¬e.Balanced 16 := by
  cases e with
  | binary op t left right =>
    obtain ⟨rfl, -, ⟨rfl, rfl⟩ | ⟨rfl, rfl⟩⟩ := h
    · rintro ⟨-, hr⟩
      cases hr
    · rintro ⟨-, hr⟩
      cases hr
  | _ => cases h

def Mnemonic.sums : List Mnemonic := [.adc, .sbc]

def gauge (mnemonic : Mnemonic) : Gauge := ⟨16, fun e => mnemonic ∈ Mnemonic.sums ∧ TakesCarry e⟩

structure Names.Fresh (n : Names) : Prop where
  register : n.register = Identifier.ofRegister
  flags : n.flags = (Frame.empty 16).flagsOf
  slot : n.slot.dataType = .byte

theorem byte_fits {m : Mnemonic} (x : BitVec 8) : Fits (gauge m) 8 (byte x) := .constant rfl

theorem moveByOne_fits {m : Mnemonic} {op : Operator} (hop : op.isComparison = false)
    {e : Expression} (he : Fits (gauge m) 8 e) : Fits (gauge m) 8 (moveByOne op e) :=
  .binary rfl hop he (byte_fits 1)

theorem settingFlags_sized {m : Mnemonic} (group : List Flag → Identifier) (flags : List Flag)
    {e : Expression} (he : e.Throughout (gauge m)) :
    Sized (gauge m) (settingFlags group flags e) :=
  .flags (Fits.identifier rfl).throughout he

section
variable {n : Names} (hn : n.Fresh) {m : Mnemonic} {i : Instruction}
include hn

theorem contents_fits {r : Register} (hr : r.bits = 8) :
    Fits (gauge m) 8 (contents n.register r) := by
  unfold contents
  rw [hn.register]
  refine .identifier ?_
  simp [Identifier.ofRegister, hr, DataType.ofWidth]

theorem flag_fits (f : Flag) : Fits (gauge m) 1 (.identifier (n.flags [f])) := by
  rw [hn.flags]
  cases f <;> exact .identifier rfl

theorem carry_eq : .identifier (n.flags [.carry]) = carry := by
  rw [hn.flags]
  rfl

theorem slot_fits : Fits (gauge m) 8 (.identifier n.slot) := by
  refine .identifier ?_
  rw [hn.slot]

theorem offsetBy_fits {base : Expression} (hb : Fits (gauge m) 16 base) {r : Register}
    (hr : r.bits = 8) : Fits (gauge m) 16 (offsetBy n.register base r) :=
  .binary rfl rfl hb (.cast rfl (contents_fits hn hr).throughout)

theorem place_fits {place : Expression} (h : place? n.register i = some place) :
    Fits (gauge m) 16 place := by
  have hbase : Fits (gauge m) 16 (absolute i.value) := .address rfl
  unfold place? at h
  split at h
  all_goals cases h
  · exact hbase
  · exact hbase
  · exact offsetBy_fits hn hbase rfl
  · exact offsetBy_fits hn hbase rfl
  · exact offsetBy_fits hn hbase rfl
  · exact offsetBy_fits hn hbase rfl
  · exact .memory rfl (offsetBy_fits hn hbase rfl)
  · exact offsetBy_fits hn (.memory rfl hbase) rfl

theorem value_fits {e : Expression} (h : value? n.register i = some e) : Fits (gauge m) 8 e := by
  unfold value? at h
  split at h
  · cases h
    exact byte_fits _
  · cases h
    exact contents_fits hn rfl
  · obtain ⟨place, hp, rfl⟩ := Option.map_eq_some_iff.mp h
    exact .memory rfl (place_fits hn hp)

theorem stackPlace_fits : Fits (gauge m) 8 (stackPlace n.register) :=
  .memory rfl (offsetBy_fits hn (.address rfl) rfl)

theorem settingWithFlags_sized {r : Register} (hr : r.bits = 8) (flags : List Flag)
    {source : Expression} (hs : Fits (gauge m) 8 source) :
    ∀ t ∈ settingWithFlags n.register n.flags r flags source, Sized (gauge m) t :=
  List.forall_mem_cons.mpr ⟨.assignment (contents_fits hn hr) hs,
    List.forall_mem_singleton.mpr (settingFlags_sized n.flags flags (contents_fits hn hr).throughout)⟩

theorem withValue_sized {f : Expression → List Transfer}
    (hf : ∀ e, Fits (gauge m) 8 e → ∀ t ∈ f e, Sized (gauge m) t) :
    ∀ t ∈ withValue n.register i f, Sized (gauge m) t := by
  unfold withValue
  cases hv : value? n.register i with
  | none => exact List.forall_mem_singleton.mpr .invalid
  | some e => exact hf e (value_fits hn hv)

theorem stored_sized {r : Register} (hr : r.bits = 8) :
    ∀ t ∈ (place? n.register i).elim [.invalid] fun place =>
      [.assignment (.memory place .byte) (contents n.register r)], Sized (gauge m) t := by
  cases hp : place? n.register i with
  | none => exact List.forall_mem_singleton.mpr .invalid
  | some place =>
    have hplace : Fits (gauge m) 16 place := place_fits hn hp
    exact List.forall_mem_singleton.mpr (.assignment (.memory rfl hplace) (contents_fits hn hr))

theorem modified_sized (flags : List Flag) {change : Expression → Expression}
    (hc : ∀ e, Fits (gauge m) 8 e → Fits (gauge m) 8 (change e)) :
    ∀ t ∈ modified n.register n.flags i n.slot flags change, Sized (gauge m) t := by
  unfold modified
  by_cases ha : i.mode = .accumulator
  · rw [if_pos ha]
    exact settingWithFlags_sized hn rfl flags (hc _ (contents_fits hn rfl))
  · rw [if_neg ha]
    cases hp : place? n.register i with
    | none => exact List.forall_mem_singleton.mpr .invalid
    | some place =>
      have hplace : Fits (gauge m) 8 (.memory place .byte) := .memory rfl (place_fits hn hp)
      have hslot : Fits (gauge m) 8 (.identifier n.slot) := slot_fits hn
      simp only [Option.elim_some, List.forall_mem_cons]
      exact ⟨.assignment hslot hplace, .assignment hslot (hc _ hslot), .assignment hplace hslot,
        settingFlags_sized n.flags flags hslot.throughout, List.forall_mem_nil _⟩

theorem moved_sized {source destination : Register} (hs : source.bits = 8)
    (hd : destination.bits = 8) :
    ∀ t ∈ moved n.register n.flags source destination, Sized (gauge m) t := by
  unfold moved
  split
  · exact List.forall_mem_singleton.mpr (.assignment (contents_fits hn hd) (contents_fits hn hs))
  · exact settingWithFlags_sized hn hd resultFlags (contents_fits hn hs)

theorem stackMove_sized {op : Operator} (hop : op.isComparison = false) :
    Sized (gauge m) (stackMove n.register op) :=
  .assignment (contents_fits hn rfl) (moveByOne_fits hop (contents_fits hn rfl))

theorem pushed_sized {r : Register} (hr : r.bits = 8) :
    ∀ t ∈ pushed n.register (contents n.register r), Sized (gauge m) t :=
  List.forall_mem_cons.mpr ⟨.assignment (stackPlace_fits hn) (contents_fits hn hr),
    List.forall_mem_singleton.mpr (stackMove_sized hn rfl)⟩

theorem pulled_sized {r : Register} (hr : r.bits = 8) :
    ∀ t ∈ pulled n.register r, Sized (gauge m) t :=
  List.forall_mem_cons.mpr ⟨stackMove_sized hn rfl,
    List.forall_mem_singleton.mpr (.assignment (contents_fits hn hr) (stackPlace_fits hn))⟩

theorem rotated_fits (function : String) {e : Expression} (he : Fits (gauge m) 8 e) :
    Fits (gauge m) 8 (rotated n.flags function e) := by
  have hone : Fits (gauge m) 8 (byte 1) := byte_fits 1
  have hcarry : Fits (gauge m) 1 (.identifier (n.flags [.carry])) := flag_fits hn .carry
  refine .application rfl ?_
  simp only [List.forall_mem_cons]
  exact ⟨he.throughout, hone.throughout, hcarry.throughout, List.forall_mem_nil _⟩

theorem combined_sized {op : Operator} (hop : op.isComparison = false) :
    ∀ t ∈ combined n.register n.flags i op, Sized (gauge m) t := by
  apply withValue_sized hn
  intro e he
  exact settingWithFlags_sized hn rfl resultFlags (.binary rfl hop (contents_fits hn rfl) he)

theorem compared_sized {op : Operator} (hop : op.isComparison = false) {r : Register}
    (hr : r.bits = 8) (flags : List Flag) :
    ∀ t ∈ compared n.register n.flags i op r flags, Sized (gauge m) t := by
  apply withValue_sized hn
  intro e he
  have hvalue : Fits (gauge m) 8 (.binary op .byte (contents n.register r) e) :=
    .binary rfl hop (contents_fits hn hr) he
  exact List.forall_mem_singleton.mpr (settingFlags_sized n.flags flags hvalue.throughout)

theorem branching_sized (code : ConditionCode) (flag : Flag) :
    ∀ t ∈ branching n.flags i code flag, Sized (gauge m) t := by
  have hflag : Fits (gauge m) 1 (.identifier (n.flags [flag])) := flag_fits hn flag
  have htarget : Fits (gauge m) 16 (absolute i.value) := .address rfl
  exact List.forall_mem_singleton.mpr
    (.branch rfl (throughout_test hflag.throughout) htarget.throughout branchKind)

theorem summed_sized (hm : m ∈ Mnemonic.sums) {op : Operator} (hop : op.isComparison = false)
    {carryOf : Expression → Expression} (hc : (carryOf carry).Throughout (gauge m))
    (htakes : op = .iadd ∧ carryOf carry = carry ∨
      op = .isub ∧ carryOf carry = .unary .not .bool carry) :
    ∀ t ∈ summed n.register n.flags i op carryOf, Sized (gauge m) t := by
  unfold summed
  rw [carry_eq hn]
  apply withValue_sized hn
  intro e he
  have hinner : Fits (gauge m) 8 (.binary op .byte (contents n.register regA) e) :=
    .binary rfl hop (contents_fits hn rfl) he
  exact settingWithFlags_sized hn rfl _
    (.exempt rfl ⟨hm, rfl, hinner.width, htakes⟩ hinner.throughout hc)

theorem emitted_sized (host : Host) (i : Instruction) :
    ∀ t ∈ emitted n host i, Sized (gauge i.mnemonic) t := by
  obtain ⟨a, mnemonic, mode, value⟩ := i
  have hcarry : Fits (gauge mnemonic) 1 carry := .identifier rfl
  have htarget : Fits (gauge mnemonic) 16 (absolute value) := .address rfl
  cases mnemonic with
  | lda | ldx | ldy =>
    exact withValue_sized hn fun e he => settingWithFlags_sized hn rfl resultFlags he
  | sta | stx | sty => exact stored_sized hn rfl
  | tax | tay | txa | tya | tsx | txs => exact moved_sized hn rfl rfl
  | and | ora | eor => exact combined_sized hn rfl
  | adc =>
    have hm : .adc ∈ Mnemonic.sums := List.mem_cons_self
    exact summed_sized hn hm rfl hcarry.throughout (.inl ⟨rfl, rfl⟩)
  | sbc =>
    have hm : .sbc ∈ Mnemonic.sums := List.mem_cons_of_mem _ List.mem_cons_self
    exact summed_sized hn hm rfl (Fits.unary rfl hcarry).throughout (.inr ⟨rfl, rfl⟩)
  | asl | lsr | inc | dec => exact modified_sized hn _ fun e he => moveByOne_fits rfl he
  | rol | ror => exact modified_sized hn carryFlags fun e he => rotated_fits hn _ he
  | inx | iny | dex | dey =>
    exact settingWithFlags_sized hn rfl resultFlags (moveByOne_fits rfl (contents_fits hn rfl))
  | cmp | cpx | cpy | bit => exact compared_sized hn rfl rfl _
  | bpl | bmi | bvc | bvs | bcc | bcs | bne | beq => exact branching_sized hn _ _
  | jmp =>
    refine List.forall_mem_singleton.mpr (.goto ?_ .ofTransfer)
    unfold jumpTarget
    split
    · exact (Fits.memory rfl htarget).throughout
    · exact htarget.throughout
  | jsr => exact List.forall_mem_singleton.mpr (.call (throughout_callee host _ _) 2 callKind)
  | rts => exact List.forall_mem_singleton.mpr (.returning 2 .ofTransfer)
  | rti =>
    exact List.forall_mem_append.mpr ⟨pulled_sized hn rfl,
      List.forall_mem_singleton.mpr (.returning 2 .ofTransfer)⟩
  | brk =>
    exact List.forall_mem_singleton.mpr
      (.sideEffect (Fits.application rfl (List.forall_mem_nil _)).throughout)
  | pha | php => exact pushed_sized hn rfl
  | pla =>
    exact List.forall_mem_append.mpr ⟨pulled_sized hn rfl, List.forall_mem_singleton.mpr
      (settingFlags_sized n.flags resultFlags (contents_fits hn rfl).throughout)⟩
  | plp => exact pulled_sized hn rfl
  | clc | sec | cli | sei | cld | sed | clv =>
    exact List.forall_mem_singleton.mpr (.assignment (flag_fits hn _) (.constant rfl))
  | nop => exact List.forall_mem_singleton.mpr .nop

end

end RegisterTransfer.Mos6502
