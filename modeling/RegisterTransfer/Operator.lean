import RegisterTransfer.Constant

/-!
Binary operators and their evaluation on literals. Evaluation takes the type of the left operand,
brings the right one to its width and wraps; a comparison yields a Bool.
-/
namespace RegisterTransfer

inductive Operator
  | iadd | isub | imul | umul | sdiv | udiv | smod | umod
  | and | or | xor
  | shl | shr | sar
  | eq | ne | lt | le | gt | ge | ult | uge
deriving DecidableEq, Repr

namespace Operator

def symbol : Operator → String
  | .iadd => "+"
  | .isub => "-"
  | .imul => "*"
  | .umul => "*u"
  | .sdiv => "/"
  | .udiv => "/u"
  | .smod => "%"
  | .umod => "%u"
  | .and => "&"
  | .or => "|"
  | .xor => "^"
  | .shl => "<<"
  | .shr => ">>u"
  | .sar => ">>"
  | .eq => "=="
  | .ne => "!="
  | .lt => "<"
  | .le => "<="
  | .gt => ">"
  | .ge => ">="
  | .ult => "<u"
  | .uge => ">=u"

def isComparison : Operator → Bool
  | .eq | .ne | .lt | .le | .gt | .ge | .ult | .uge => true
  | _ => false

/-- The low 32 bits of the amount count, and no shift goes past 63 places. -/
def shiftAmount (b : Constant) : Nat := min (b.resize 32).toNat 63

def compareWords {w : Nat} (x y : BitVec w) : Operator → Bool
  | .eq => x == y
  | .ne => x != y
  | .lt => x.slt y
  | .le => x.sle y
  | .gt => y.slt x
  | .ge => y.sle x
  | .ult => x.ult y
  | .uge => y.ule x
  | _ => false

/-- A quotient or a remainder by zero is zero. -/
def combineWords {w : Nat} (x y : BitVec w) (amount : Nat) : Operator → BitVec w
  | .iadd => x + y
  | .isub => x - y
  | .imul | .umul => x * y
  | .sdiv => x.sdiv y
  | .udiv => x / y
  | .smod => if y = 0 then 0 else x.srem y
  | .umod => if y = 0 then 0 else x % y
  | .and => x &&& y
  | .or => x ||| y
  | .xor => x ^^^ y
  | .shl => x <<< amount
  | .shr => x >>> amount
  | .sar => x.sshiftRight amount
  | _ => 0

def fold (op : Operator) (a b : Constant) : Constant :=
  let y := b.resize a.dataType.bits
  if op.isComparison then .bool (compareWords a.value y op)
  else ⟨a.dataType, combineWords a.value y (shiftAmount b) op⟩

end Operator

end RegisterTransfer
