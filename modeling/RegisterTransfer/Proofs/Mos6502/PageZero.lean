import RegisterTransfer.Proofs.Identifiers
import RegisterTransfer.Proofs.Mos6502.DataInstructions

/-!
Addresses that are built from places in page zero. The instruction set counts these places modulo
256; what is emitted counts them in the 16 bits of an address, and so leaves page zero at its end.
-/

namespace RegisterTransfer

namespace Expression

mutual

@[simp] def bytePlaces : Expression → List Expression
  | .identifier _ | .constant _ | .address _ | .externalProcedure _ => []
  | .binary _ _ left right => left.bytePlaces ++ right.bytePlaces
  | .unary _ _ operand | .cast _ _ operand | .conditionOf operand => operand.bytePlaces
  | .memory location t => (if t = .byte then [location] else []) ++ location.bytePlaces
  | .test _ flags => flags.bytePlaces
  | .application _ arguments _ => bytePlacesOf arguments

@[simp] def bytePlacesOf : List Expression → List Expression
  | [] => []
  | e :: rest => e.bytePlaces ++ bytePlacesOf rest

end

end Expression

@[simp] def Transfer.bytePlaces (t : Transfer) : List Expression :=
  t.expressions.flatMap Expression.bytePlaces

namespace Mos6502

namespace Mode

def isPageZero : Mode → Bool
  | .zeroPageX | .zeroPageY | .indexedIndirect | .indirectIndexed => true
  | _ => false

theorem isMemory_of_isPageZero {m : Mode} (h : m.isPageZero) : m.isMemory := by
  cases m <;> first | rfl | cases h

end Mode

def Mnemonic.hasOperand : Mnemonic → Bool
  | .lda | .ldx | .ldy | .sta | .stx | .sty | .and | .ora | .eor | .adc | .sbc
  | .asl | .lsr | .rol | .ror | .inc | .dec | .cmp | .cpx | .cpy | .bit => true
  | _ => false

theorem hasOperand_of_decodeOpcode : ∀ opcode : BitVec 8, ∀ found ∈ decodeOpcode opcode,
    found.2.isPageZero → found.1.hasOperand := by
  decide +kernel

section Places
variable {n : Names} {i : Instruction} {place : Expression}

theorem bytePlaces_place (h : place? n.register i = some place) : place.bytePlaces = [] := by
  unfold place? at h
  split at h <;> cases h <;> rfl

theorem bytePlaces_contents (r : Register) : (contents n.register r).bytePlaces = [] := rfl

theorem mem_bytePlaces_settingFlags {flags : List Flag} {x p : Expression} :
    p ∈ [settingFlags n.flags flags x].flatMap Transfer.bytePlaces ↔ p ∈ x.bytePlaces := by
  simp [settingFlags]

theorem mem_bytePlaces_settingWithFlags {r : Register} {flags : List Flag} {x p : Expression} :
    p ∈ (settingWithFlags n.register n.flags r flags x).flatMap Transfer.bytePlaces ↔
      p ∈ x.bytePlaces := by
  simp [settingWithFlags, setting, settingFlags, bytePlaces_contents]

theorem mem_bytePlaces_modified (h : place? n.register i = some place)
    (ha : i.mode ≠ .accumulator) {flags : List Flag} {change : Expression → Expression}
    (hc : (change (.identifier n.slot)).bytePlaces = []) {p : Expression} :
    p ∈ (modified n.register n.flags i n.slot flags change).flatMap Transfer.bytePlaces ↔
      p = place := by
  have hplace := bytePlaces_place h
  simp [modified, ha, h, hc, hplace, settingFlags]

theorem mem_bytePlaces_emitted (h : place? n.register i = some place) (hm : i.mode.isMemory)
    (ho : i.mnemonic.hasOperand) (host : Host) (p : Expression) :
    p ∈ (emitted n host i).flatMap Transfer.bytePlaces ↔ p = place := by
  have hplace := bytePlaces_place h
  have hvalue : value? n.register i = some (.memory place .byte) := by
    rw [value?_of_isMemory hm, h]
    rfl
  have hwith (f : Expression → List Transfer) :
      withValue n.register i f = f (.memory place .byte) := by
    rw [withValue, hvalue, Option.elim_some]
  have ha : i.mode ≠ .accumulator := by
    intro he
    rw [he] at hm
    cases hm
  obtain ⟨a, mnemonic, m, value⟩ := i
  cases mnemonic with
  | lda | ldx | ldy =>
    simp only [emitted, hwith, mem_bytePlaces_settingWithFlags]
    simp [hplace]
  | sta | stx | sty => simp [emitted, h, hplace, bytePlaces_contents]
  | and | ora | eor =>
    simp only [emitted, combined, hwith, mem_bytePlaces_settingWithFlags]
    simp [hplace, bytePlaces_contents]
  | adc | sbc =>
    simp only [emitted, summed, hwith, mem_bytePlaces_settingWithFlags]
    simp [hplace, bytePlaces_contents]
  | asl | lsr | inc | dec | rol | ror => exact mem_bytePlaces_modified h ha rfl
  | cmp | cpx | cpy | bit =>
    simp only [emitted, compared, hwith, mem_bytePlaces_settingFlags]
    simp [hplace, bytePlaces_contents]
  | _ => cases ho

end Places

namespace Machine

def holding (s : Machine) (memory : BitVec 16 → BitVec 8) : Machine := { s with memory := memory }

@[simp] theorem x_holding (s : Machine) (memory : BitVec 16 → BitVec 8) :
    (s.holding memory).x = s.x := rfl

@[simp] theorem y_holding (s : Machine) (memory : BitVec 16 → BitVec 8) :
    (s.holding memory).y = s.y := rfl

def word (s : Machine) (p : BitVec 16) : BitVec 16 := s.memory (p + 1) ++ s.memory p

theorem load_word (s : Machine) (p : BitVec 16) : s.load p 16 = s.word p := by
  have hlow := (s.memory p).isLt
  have hhigh := (s.memory (p + 1)).isLt
  apply BitVec.eq_of_toNat_eq
  rw [word, BitVec.toNat_append, ← Nat.shiftLeft_add_eq_or_of_lt hlow, Nat.shiftLeft_eq]
  simp [load, List.range_succ]
  omega

theorem word_eq_pointer {p : BitVec 16} {z : BitVec 8} (hz : z.toNat = p.toNat % 256)
    (hp : p.toNat + 1 < 256) (s : Machine) : s.word p = s.pointer z := by
  have hlow : p = z.setWidth 16 := by bv_omega
  have hhigh : p + 1 = (z + 1).setWidth 16 := by bv_omega
  rw [word, pointer, ← hlow, ← hhigh]

theorem word_eq_pointer_iff {p : BitVec 16} {z : BitVec 8} (hz : z.toNat = p.toNat % 256)
    (hp : p.toNat < 0xFFFF) (s : Machine) :
    (∀ memory, (s.holding memory).word p = (s.holding memory).pointer z) ↔
      p.toNat + 1 < 256 := by
  constructor
  · intro h
    -- Only the byte after the place is one, so the pointer takes its high byte from there.
    let memory : BitVec 16 → BitVec 8 := fun q => if q = p + 1 then 1 else 0
    have hhigh : memory (p + 1) = memory ((z + 1).setWidth 16) := by
      have he := congrArg (·.extractLsb' 8 8) (h memory)
      simpa only [word, pointer, holding, BitVec.extractLsb'_append_eq_left] using he
    by_cases hq : (z + 1).setWidth 16 = p + 1
    · bv_omega
    · simp only [memory, if_true, if_neg hq] at hhigh
      cases hhigh
  · intro hlt m
    exact word_eq_pointer hz hlt _

end Machine

namespace Mode

def unwrapped (m : Mode) (operand : BitVec 16) (s : Machine) : BitVec 16 :=
  match m with
  | .zeroPageX => operand + s.x.setWidth 16
  | .zeroPageY => operand + s.y.setWidth 16
  | .indexedIndirect => s.word (operand + s.x.setWidth 16)
  | .indirectIndexed => s.word operand + s.y.setWidth 16
  | _ => m.location operand s

def lastPlace (m : Mode) (z : BitVec 8) (s : Machine) : Nat :=
  match m with
  | .zeroPageX => z.toNat + s.x.toNat
  | .zeroPageY => z.toNat + s.y.toNat
  | .indexedIndirect => z.toNat + s.x.toNat + 1
  | .indirectIndexed => z.toNat + 1
  | _ => z.toNat

theorem add_eq_wrapped_iff (z v : BitVec 8) :
    z.setWidth 16 + v.setWidth 16 = (z + v).setWidth 16 ↔ z.toNat + v.toNat < 256 := by
  bv_omega

theorem unwrapped_eq_location_iff {m : Mode} (hm : m.isPageZero) (z : BitVec 8) (s : Machine) :
    (∀ memory, m.unwrapped (z.setWidth 16) (s.holding memory) =
        m.location (z.setWidth 16) (s.holding memory)) ↔ m.lastPlace z s < 256 := by
  have hz : (z.setWidth 16).setWidth 8 = z := by simp
  -- Two bytes never add up to more than 16 bits hold.
  have hindexed (v : BitVec 8) : (z.setWidth 16 + v.setWidth 16).toNat = z.toNat + v.toNat := by
    bv_omega
  have hplace : (z.setWidth 16).toNat = z.toNat := by bv_omega
  have hz256 := z.isLt
  cases m with
  | zeroPageX =>
    simp only [unwrapped, location, lastPlace, hz, Machine.x_holding, forall_const]
    exact add_eq_wrapped_iff z s.x
  | zeroPageY =>
    simp only [unwrapped, location, lastPlace, hz, Machine.y_holding, forall_const]
    exact add_eq_wrapped_iff z s.y
  | indexedIndirect =>
    have hx256 := s.x.isLt
    simp only [unwrapped, location, lastPlace, hz, Machine.x_holding]
    rw [← hindexed s.x]
    apply Machine.word_eq_pointer_iff
    · rw [hindexed, BitVec.toNat_add]
    · rw [hindexed]
      omega
  | indirectIndexed =>
    simp only [unwrapped, location, lastPlace, hz, Machine.y_holding, BitVec.add_left_inj]
    rw [← hplace]
    apply Machine.word_eq_pointer_iff
    · rw [hplace, Nat.mod_eq_of_lt hz256]
    · omega
  | _ => cases hm

end Mode

section Values
variable {n : Names} (hn : n.Faithful) {s : Machine} {e : Surroundings}

theorem value?_word {place : Expression} {p : BitVec 16}
    (h : place.value? (s.interpretation e) = some ⟨.ptr16, p⟩) :
    (Expression.memory place .ptr16).value? (s.interpretation e) = some ⟨.ptr16, s.word p⟩ := by
  rw [Expression.value?, h, ← Machine.load_word]
  rfl

include hn in
theorem value?_pageZero {i : Instruction} (hm : i.mode.isPageZero) :
    ∃ place, place? n.register i = some place ∧ ∀ s e,
      place.value? (s.interpretation e) = some ⟨.ptr16, i.mode.unwrapped i.value s⟩ := by
  have hbase (s e) := value?_absolute s e i.value
  unfold place?
  cases h : i.mode with
  | zeroPageX => exact ⟨_, rfl, fun s e => value?_offsetBy hn (hbase s e) regX⟩
  | zeroPageY => exact ⟨_, rfl, fun s e => value?_offsetBy hn (hbase s e) regY⟩
  | indexedIndirect =>
    exact ⟨_, rfl, fun s e => value?_word (value?_offsetBy hn (hbase s e) regX)⟩
  | indirectIndexed =>
    exact ⟨_, rfl, fun s e => value?_offsetBy hn (value?_word (hbase s e)) regY⟩
  | _ => rw [h] at hm; cases hm

end Values

theorem operandValue_pageZero {c : Cursor} {m : Mode} (hm : m.isPageZero) {value : BitVec 16}
    (h : operandValue c m = .ok value) : ∃ z, c.peek8 1 = .ok z ∧ value = z.setWidth 16 := by
  have hlength : m.length = 2 := by
    cases m <;> first | rfl | cases hm
  have hrelative : m ≠ .relative := by
    rintro rfl
    cases hm
  rw [operandValue, hlength] at h
  cases hz : c.peek8 1 with
  | error e =>
    rw [hz] at h
    cases h
  | ok z =>
    rw [hz, Except.map, if_neg hrelative] at h
    cases h
    exact ⟨z, rfl, rfl⟩

theorem lift_stays_in_page_iff (host : Host) (c : Cursor) (i : Instruction)
    (hi : decode c = some i) (hm : i.mode.isPageZero) (w : Workspace) :
    ∃ opcode z place, c.peek8 0 = .ok opcode ∧ c.peek8 1 = .ok z ∧
      documented? opcode.toNat = some (i.mnemonic, i.mode) ∧
      (∀ p, p ∈ (lift host i w).1.flatMap Transfer.bytePlaces ↔ p = place) ∧
      ∀ s e,
        place.value? (s.interpretation e) = some ⟨.ptr16, i.mode.unwrapped (z.setWidth 16) s⟩ ∧
        ((∀ memory, place.value? ((s.holding memory).interpretation e) =
            some ⟨.ptr16, i.mode.location (z.setWidth 16) (s.holding memory)⟩) ↔
          i.mode.lastPlace z s < 256) := by
  obtain ⟨opcode, hopcode, hentry, hv, -⟩ := decode_eq_some_iff.mp hi
  obtain ⟨z, hz, hvalue⟩ := operandValue_pageZero hm hv
  obtain ⟨place, hplace, hp⟩ := value?_pageZero (faithful_names w.frame) hm
  have ho := hasOperand_of_decodeOpcode opcode (i.mnemonic, i.mode) hentry hm
  rw [hvalue] at hp
  refine ⟨opcode, z, place, hopcode, hz, (documented?_eq opcode).trans hentry, ?_, ?_⟩
  · rw [lift_eq]
    exact mem_bytePlaces_emitted hplace (Mode.isMemory_of_isPageZero hm) ho host
  · intro s e
    refine ⟨hp s e, ?_⟩
    rw [← Mode.unwrapped_eq_location_iff hm z s]
    apply forall_congr'
    intro memory
    rw [hp]
    simp

theorem lift_stays_in_page_at_end :
    let c : Cursor := ⟨⟨.ptr16 0x0800, [0x91, 0xFE]⟩, 0, .little⟩
    let i : Instruction := ⟨.ptr16 0x0800, .sta, .indirectIndexed, 0xFE⟩
    let s : Machine := ⟨fun _ => 1, fun _ => 0, fun p => if p = 0xFE then 0xFF else 0x12⟩
    decode c = some i ∧ i.mode.isPageZero ∧ ∃ place,
      (∀ p, p ∈ (lift ⟨fun _ _ => none, fun _ => none⟩ i ⟨.empty, .empty 16, []⟩).1.flatMap
        Transfer.bytePlaces ↔ p = place) ∧
      place.value? (s.interpretation rotating) = some ⟨.ptr16, 0x1300⟩ ∧
      i.mode.location 0xFE s = 0x1300 := by
  have hi : decode ⟨⟨.ptr16 0x0800, [0x91, 0xFE]⟩, 0, .little⟩ =
      some ⟨.ptr16 0x0800, .sta, .indirectIndexed, 0xFE⟩ := rfl
  have hoperand : (⟨⟨.ptr16 0x0800, [0x91, 0xFE]⟩, 0, .little⟩ : Cursor).peek8 1 = .ok 0xFE := rfl
  intro c i s
  obtain ⟨opcode, z, place, -, hz, -, hplace, hvalues⟩ :=
    lift_stays_in_page_iff ⟨fun _ _ => none, fun _ => none⟩ c i hi rfl ⟨.empty, .empty 16, []⟩
  cases hoperand.symm.trans hz
  obtain ⟨-, hwraps⟩ := hvalues s rotating
  have hlocation : i.mode.location 0xFE s = 0x1300 := by decide
  refine ⟨hi, rfl, place, hplace, ?_, hlocation⟩
  rw [← hlocation]
  exact hwraps.mpr (by decide) s.memory

theorem indexed_load_leaves_page :
    let c : Cursor := ⟨⟨.ptr16 0x0800, [0xB5, 0x80]⟩, 0, .little⟩
    let i : Instruction := ⟨.ptr16 0x0800, .lda, .zeroPageX, 0x80⟩
    let s : Machine := ⟨fun _ => 0x80, fun _ => 0, fun _ => 0⟩
    decode c = some i ∧ ∃ place,
      (lift ⟨fun _ _ => none, fun _ => none⟩ i ⟨.empty, .empty 16, []⟩).1.flatMap
        Transfer.bytePlaces = [place] ∧
      place.value? (s.interpretation rotating) = some ⟨.ptr16, 0x0100⟩ ∧
      i.mode.location 0x80 s = 0 :=
  ⟨rfl, _, rfl, rfl, rfl⟩

end Mos6502

end RegisterTransfer
