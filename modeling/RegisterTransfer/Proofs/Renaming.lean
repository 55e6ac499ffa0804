import RegisterTransfer.Proofs.Identifiers

namespace RegisterTransfer

namespace Expression

mutual

@[simp] def mapIdentifiers (φ : Identifier → Identifier) : Expression → Expression
  | .identifier id => .identifier (φ id)
  | .constant c => .constant c
  | .address a => .address a
  | .binary op t left right => .binary op t (left.mapIdentifiers φ) (right.mapIdentifiers φ)
  | .unary op t operand => .unary op t (operand.mapIdentifiers φ)
  | .cast t signed operand => .cast t signed (operand.mapIdentifiers φ)
  | .memory location t => .memory (location.mapIdentifiers φ) t
  | .conditionOf operand => .conditionOf (operand.mapIdentifiers φ)
  | .test code flags => .test code (flags.mapIdentifiers φ)
  | .application function arguments t => .application function (mapIdentifiersOf φ arguments) t
  | .externalProcedure name => .externalProcedure name

@[simp] def mapIdentifiersOf (φ : Identifier → Identifier) : List Expression → List Expression
  | [] => []
  | e :: rest => e.mapIdentifiers φ :: mapIdentifiersOf φ rest

end

end Expression

namespace Transfer

@[simp] def mapIdentifiers (φ : Identifier → Identifier) : Transfer → Transfer
  | .assignment destination source =>
    .assignment (destination.mapIdentifiers φ) (source.mapIdentifiers φ)
  | .goto target kind => .goto (target.mapIdentifiers φ) kind
  | .branch condition target kind =>
    .branch (condition.mapIdentifiers φ) (target.mapIdentifiers φ) kind
  | .call target size kind => .call (target.mapIdentifiers φ) size kind
  | .returning size kind => .returning size kind
  | .sideEffect e => .sideEffect (e.mapIdentifiers φ)
  | .nop => .nop
  | .invalid => .invalid

end Transfer

def Cluster.mapIdentifiers (φ : Identifier → Identifier) (x : Cluster) : Cluster :=
  { x with transfers := x.transfers.map (Transfer.mapIdentifiers φ) }

def Identifier.renumber (ρ : Nat → Nat) (id : Identifier) : Identifier :=
  match id.storage with
  | .temporary n => ⟨s!"v{ρ n}", id.dataType, .temporary (ρ n)⟩
  | _ => id

theorem Identifier.renumber_of_storage {id : Identifier} (h : ∀ n, id.storage ≠ .temporary n)
    (ρ : Nat → Nat) : id.renumber ρ = id := by
  unfold renumber
  split
  · exact absurd ‹_› (h _)
  · rfl

def Cluster.renumber (ρ : Nat → Nat) : Cluster → Cluster := mapIdentifiers (Identifier.renumber ρ)

theorem mapIdentifiers_callee (φ : Identifier → Identifier) (host : Host)
    (target continuation : Address) :
    (host.callee target continuation).mapIdentifiers φ = host.callee target continuation := by
  unfold Host.callee
  cases host.imported target continuation <;> rfl

namespace Mos6502

def Names.map (φ : Identifier → Identifier) (n : Names) : Names :=
  ⟨fun r => φ (n.register r), fun flags => φ (n.flags flags), φ n.slot⟩

section
variable (φ : Identifier → Identifier) (n : Names) (i : Instruction)

theorem place?_map : place? (n.map φ).register i =
    (place? n.register i).map (Expression.mapIdentifiers φ) := by
  unfold place?
  cases i.mode <;> rfl

theorem value?_map : value? (n.map φ).register i =
    (value? n.register i).map (Expression.mapIdentifiers φ) := by
  unfold value?
  cases h : i.mode <;> simp only [place?_map] <;> simp [place?, h, contents, Names.map, byte]

variable {φ n i}

theorem withValue_map {f g : Expression → List Transfer}
    (h : ∀ e, g (e.mapIdentifiers φ) = (f e).map (Transfer.mapIdentifiers φ)) :
    withValue (n.map φ).register i g =
      (withValue n.register i f).map (Transfer.mapIdentifiers φ) := by
  unfold withValue
  rw [value?_map]
  cases value? n.register i with
  | none => rfl
  | some e => exact h e

theorem stored_map (r : Register) :
    ((place? (n.map φ).register i).elim [.invalid] fun place =>
        [.assignment (.memory place .byte) (contents (n.map φ).register r)]) =
      ((place? n.register i).elim [.invalid] fun place =>
        [.assignment (.memory place .byte) (contents n.register r)]).map
          (Transfer.mapIdentifiers φ) := by
  rw [place?_map]
  cases place? n.register i <;> rfl

theorem modified_map {flags : List Flag} {change change' : Expression → Expression}
    (h : ∀ e, change' (e.mapIdentifiers φ) = (change e).mapIdentifiers φ) :
    modified (n.map φ).register (n.map φ).flags i (n.map φ).slot flags change' =
      (modified n.register n.flags i n.slot flags change).map (Transfer.mapIdentifiers φ) := by
  have hregister := h (contents n.register regA)
  have hslot := h (.identifier n.slot)
  unfold modified
  by_cases ha : i.mode = .accumulator
  · rw [if_pos ha, if_pos ha]
    simp only [settingWithFlags, setting, settingFlags, List.map_cons, List.map_nil,
      Transfer.mapIdentifiers, Expression.mapIdentifiers, ← hregister]
    rfl
  · rw [if_neg ha, if_neg ha, place?_map]
    cases place? n.register i with
    | none => rfl
    | some place =>
      simp only [Option.map_some, Option.elim_some, settingFlags, List.map_cons, List.map_nil,
        Transfer.mapIdentifiers, Expression.mapIdentifiers, ← hslot]
      rfl

theorem moved_map (source destination : Register) :
    moved (n.map φ).register (n.map φ).flags source destination =
      (moved n.register n.flags source destination).map (Transfer.mapIdentifiers φ) := by
  unfold moved
  split <;> rfl

theorem emitted_map (φ : Identifier → Identifier) (n : Names) (host : Host) (i : Instruction) :
    emitted (n.map φ) host i = (emitted n host i).map (Transfer.mapIdentifiers φ) := by
  obtain ⟨a, mnemonic, mode, value⟩ := i
  cases mnemonic with
  | lda | ldx | ldy => exact withValue_map fun e => rfl
  | sta | stx | sty => exact stored_map _
  | tax | tay | txa | tya | tsx | txs => exact moved_map _ _
  | and | ora | eor | adc | sbc | cmp | cpx | cpy | bit => exact withValue_map fun e => rfl
  | asl | lsr | rol | ror | inc | dec => exact modified_map fun e => rfl
  | jsr => simp [emitted, mapIdentifiers_callee]
  | jmp => cases mode <;> rfl
  | _ => rfl

end

end Mos6502

end RegisterTransfer
