import RegisterTransfer.Expression

namespace RegisterTransfer

namespace Constant

def pattern? (c : Constant) (width : Nat) : Option (BitVec width) :=
  if h : c.dataType.bits = width then some (c.value.cast h) else none

def cast (c : Constant) (t : DataType) (signed : Bool) : Constant :=
  ⟨t, if signed then c.value.signExtend t.bits else c.value.setWidth t.bits⟩

@[simp] theorem pattern?_word32 (x : BitVec 32) : (word32 x).pattern? 32 = some x := rfl

end Constant

def UnaryOperator.fold (op : UnaryOperator) (t : DataType) (c : Constant) : Constant :=
  match op with
  | .not => ⟨t, ~~~(c.resize t.bits)⟩
  | .neg => ⟨t, -(c.resize t.bits)⟩

structure Interpretation where
  pointer : DataType
  contents : Storage → Option Constant
  load : Constant → (t : DataType) → Option (BitVec t.bits)
  intrinsic : String → List Constant → (t : DataType) → BitVec t.bits

namespace Expression

mutual

def value? (I : Interpretation) : Expression → Option Constant
  | .identifier id => I.contents id.storage
  | .constant c => some c
  | .address a => some (.ofNat I.pointer a.value)
  | .binary op _ left right =>
    (left.value? I).bind fun a => (right.value? I).map fun b => op.fold a b
  | .unary op t operand => (operand.value? I).map (op.fold t)
  | .cast t signed operand => (operand.value? I).map (·.cast t signed)
  | .memory location t =>
    (location.value? I).bind fun a => (I.load a t).map fun x => ⟨t, x⟩
  | .application function arguments t =>
    (values? I arguments).map fun cs => ⟨t, I.intrinsic function cs t⟩
  | .conditionOf _ | .test .. | .externalProcedure _ => none

def values? (I : Interpretation) : List Expression → Option (List Constant)
  | [] => some []
  | e :: rest => (e.value? I).bind fun c => (values? I rest).map (c :: ·)

end

def pattern? (I : Interpretation) (e : Expression) (width : Nat) : Option (BitVec width) :=
  (e.value? I).bind (·.pattern? width)

theorem value?_identifier (I : Interpretation) (id : Identifier) :
    (identifier id).value? I = I.contents id.storage := by
  rw [value?]

theorem pattern?_of_value? {I : Interpretation} {e : Expression} {x : BitVec 32}
    (h : e.value? I = some (.word32 x)) : e.pattern? I 32 = some x := by
  rw [pattern?, h, Option.bind_some, Constant.pattern?_word32]

end Expression

end RegisterTransfer
