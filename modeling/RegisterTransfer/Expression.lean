import RegisterTransfer.Address
import RegisterTransfer.Operator
import RegisterTransfer.Register

/-!
Expression trees over the registers, flags, temporaries and memory of a procedure. Equality is
decided by walking both trees (`Expression.same_iff`).
-/
namespace RegisterTransfer

inductive Storage
  | register (register : Register)
  | flagGroup (register : Register) (mask : Nat)
  | temporary (number : Nat)
deriving DecidableEq, Repr

structure Identifier where
  name : String
  dataType : DataType
  storage : Storage
deriving DecidableEq, Repr

def Identifier.ofRegister (r : Register) : Identifier :=
  ⟨r.name, .ofWidth r.bits, .register r⟩

inductive UnaryOperator
  | not | neg
deriving DecidableEq, Repr

def UnaryOperator.symbol : UnaryOperator → String
  | .not => "~"
  | .neg => "-"

inductive ConditionCode
  | eq | ne
  | sg | ns
  | ov | no
  | ult | uge
deriving DecidableEq, Repr

def ConditionCode.text : ConditionCode → String
  | .eq => "EQ"
  | .ne => "NE"
  | .sg => "SG"
  | .ns => "NS"
  | .ov => "OV"
  | .no => "NO"
  | .ult => "ULT"
  | .uge => "UGE"

inductive Expression
  | identifier (id : Identifier)
  | constant (c : Constant)
  | address (a : Address)
  | binary (op : Operator) (dataType : DataType) (left right : Expression)
  | unary (op : UnaryOperator) (dataType : DataType) (operand : Expression)
  /-- A change of width; `signed` says which bits a wider value is filled with. -/
  | cast (dataType : DataType) (signed : Bool) (operand : Expression)
  | memory (location : Expression) (dataType : DataType)
  | conditionOf (operand : Expression)
  | test (code : ConditionCode) (flags : Expression)
  | application (function : String) (arguments : List Expression) (dataType : DataType)
  | externalProcedure (name : String)
deriving Repr

namespace Expression

def constant? : Expression → Option Constant
  | .constant c => some c
  | _ => none

def identifier? : Expression → Option Identifier
  | .identifier id => some id
  | _ => none

mutual

def text : Expression → String
  | .identifier id => id.name
  | .constant c => c.text
  | .address a => a.text
  | .binary op _ left right => left.text ++ " " ++ op.symbol ++ " " ++ right.text
  | .unary op _ operand => op.symbol ++ operand.text
  | .cast dataType _ operand => "(" ++ dataType.text ++ ") " ++ operand.text
  | .memory location dataType => "Mem[" ++ location.text ++ ":" ++ dataType.text ++ "]"
  | .conditionOf operand => "cond(" ++ operand.text ++ ")"
  | .test code flags => "Test(" ++ code.text ++ "," ++ flags.text ++ ")"
  | .application function arguments _ =>
    function ++ "(" ++ ", ".intercalate (texts arguments) ++ ")"
  | .externalProcedure name => name

def texts : List Expression → List String
  | [] => []
  | e :: rest => e.text :: texts rest

end

mutual

def same : Expression → Expression → Bool
  | .identifier a, .identifier b => a == b
  | .constant a, .constant b => a == b
  | .address a, .address b => a == b
  | .binary op t l r, .binary op' t' l' r' => op == op' && t == t' && same l l' && same r r'
  | .unary op t e, .unary op' t' e' => op == op' && t == t' && same e e'
  | .cast t s e, .cast t' s' e' => t == t' && s == s' && same e e'
  | .memory e t, .memory e' t' => t == t' && same e e'
  | .conditionOf e, .conditionOf e' => same e e'
  | .test c e, .test c' e' => c == c' && same e e'
  | .application f es t, .application f' es' t' => f == f' && t == t' && sameAll es es'
  | .externalProcedure a, .externalProcedure b => a == b
  | _, _ => false

def sameAll : List Expression → List Expression → Bool
  | [], [] => true
  | a :: as, b :: bs => same a b && sameAll as bs
  | _, _ => false

end

mutual

theorem same_iff (a b : Expression) : same a b = true ↔ a = b := by
  cases a with
  | binary op t l r => cases b <;> simp [same, same_iff l, same_iff r, and_assoc]
  | unary op t e => cases b <;> simp [same, same_iff e, and_assoc]
  | cast t s e => cases b <;> simp [same, same_iff e, and_assoc]
  | memory e t => cases b <;> simp [same, same_iff e, and_comm]
  | conditionOf e => cases b <;> simp [same, same_iff e]
  | test c e => cases b <;> simp [same, same_iff e]
  | application f es t => cases b <;> simp [same, sameAll_iff es, and_assoc, and_comm]
  | _ => cases b <;> simp [same]

theorem sameAll_iff (as bs : List Expression) : sameAll as bs = true ↔ as = bs := by
  cases as with
  | nil => cases bs <;> simp [sameAll]
  | cons a as => cases bs <;> simp [sameAll, same_iff a, sameAll_iff as]

end

instance : DecidableEq Expression := fun a b => decidable_of_iff (same a b = true) (same_iff a b)

end Expression

end RegisterTransfer
