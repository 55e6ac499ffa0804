import RegisterTransfer.Mips.Lift

namespace RegisterTransfer.Mips

inductive Operand.Kind
  | register | signed | unsigned | memory | address
deriving DecidableEq

def Operand.kind : Operand → Operand.Kind
  | .register _ => .register
  | .signed _ => .signed
  | .unsigned _ => .unsigned
  | .memory .. => .memory
  | .address _ => .address

def Opcode.kinds : Opcode → List Operand.Kind
  | .nop | .syscall | .breakpoint => []
  | .shift _ | .logical _ => [.register, .register, .unsigned]
  | .shiftVariable _ | .alu _ => [.register, .register, .register]
  | .arithmetic _ => [.register, .register, .signed]
  | .lui => [.register, .unsigned]
  | .load _ | .store _ => [.register, .memory]
  | .product _ | .jumpAndLinkRegister => [.register, .register]
  | .moveFrom _ | .moveTo _ | .jumpRegister => [.register]
  | .compareBranch _ => [.register, .register, .address]
  | .signBranch _ => [.register, .address]
  | .jump | .jumpAndLink => [.address]

theorem Operation.kinds_operands (op : Operation) :
    op.operands.map Operand.kind = op.opcode.kinds := by
  cases op <;> rfl

theorem any_const {α : Type} (x : Option α) (b : Bool) :
    x.any (fun _ => b) = (x.isSome && b) := by
  cases x <;> rfl

theorem forall_getElem?_cons {α : Type} {x : α} {xs : List α} {P : Nat → α → Prop} :
    (∀ n y, (x :: xs)[n]? = some y → P n y) ↔ P 0 x ∧ ∀ n y, xs[n]? = some y → P (n + 1) y := by
  constructor
  · intro h
    exact ⟨h 0 x rfl, fun n y hy => h (n + 1) y hy⟩
  · rintro ⟨hx, hxs⟩ n y hy
    cases n with
    | zero => exact Option.some.inj hy ▸ hx
    | succ n => exact hxs n y hy

namespace Listed

def kind? (i : Listed) (n : Nat) : Option Operand.Kind := i.operands[n]?.map Operand.kind

def Fits (i : Listed) : Prop := ∀ n k, i.opcode.kinds[n]? = some k → i.kind? n = some k

variable (i : Listed) (n : Nat)

theorem isSome_bind_iff {α : Type} {read : Operand → Option α} {k : Operand.Kind}
    (h : ∀ x, (read x).isSome ↔ x.kind = k) :
    (i.operands[n]?.bind read).isSome ↔ i.kind? n = some k := by
  unfold kind?
  cases i.operands[n]? with
  | none => simp
  | some x => simp [h]

theorem isSome_register? : (i.register? n).isSome ↔ i.kind? n = some .register :=
  i.isSome_bind_iff n fun x => by cases x <;> simp [Operand.register?, Operand.kind]

theorem isSome_signed? : (i.signed? n).isSome ↔ i.kind? n = some .signed :=
  i.isSome_bind_iff n fun x => by cases x <;> simp [Operand.signed?, Operand.kind]

theorem isSome_unsigned? : (i.unsigned? n).isSome ↔ i.kind? n = some .unsigned :=
  i.isSome_bind_iff n fun x => by cases x <;> simp [Operand.unsigned?, Operand.kind]

theorem isSome_memory? : (i.memory? n).isSome ↔ i.kind? n = some .memory :=
  i.isSome_bind_iff n fun x => by cases x <;> simp [Operand.memory?, Operand.kind]

theorem isSome_address? : (i.address? n).isSome ↔ i.kind? n = some .address :=
  i.isSome_bind_iff n fun x => by cases x <;> simp [Operand.address?, Operand.kind]

theorem isSome_lift? (host : Host) : (i.lift? host).isSome ↔ i.Fits := by
  unfold lift? Fits
  cases i.opcode <;>
    simp [Opcode.kinds, forall_getElem?_cons, ← isSome_register?, ← isSome_signed?,
      ← isSome_unsigned?, ← isSome_memory?, ← isSome_address?, Option.isSome_bind, any_const]

theorem lift_of_not_fits {i : Listed} (h : ¬i.Fits) (host : Host) (w : Workspace) :
    i.lift host w = ([.invalid], w) := by
  rw [← i.isSome_lift? host, Option.not_isSome_iff_eq_none] at h
  unfold lift
  rw [h]
  rfl

end Listed

theorem Instruction.listed_fits (i : Instruction) : i.listed.Fits := by
  intro n k hk
  unfold Listed.kind? Instruction.listed
  rw [← List.getElem?_map, i.operation.kinds_operands]
  exact hk

end RegisterTransfer.Mips
