import RegisterTransfer.Table
import RegisterTransfer.Transfer

/-!
Templates for expressions and transfers. A match binds the names of a template to what stands in
their places; a name that occurs twice stands for equal expressions.
-/
namespace RegisterTransfer

abbrev Captures := Table String Expression

namespace Captures

def identifier? (c : Captures) (name : String) : Option Identifier :=
  (c.get? name).bind Expression.identifier?

def constant? (c : Captures) (name : String) : Option Constant :=
  (c.get? name).bind Expression.constant?

def bind (c : Captures) (name : String) (e : Expression) : Option Captures :=
  match c.get? name with
  | some bound => if bound = e then some c else none
  | none => some (c.insert name e)

end Captures

inductive Pattern
  | anyIdentifier (name : String)
  | anyConstant (name : String)
  | anyExpression (name : String)
  | exactly (e : Expression)
  | binary (op : Operator) (dataType : Option DataType) (left right : Pattern)
  | memory (location : Pattern) (dataType : Option DataType)
deriving DecidableEq, Repr

namespace Pattern

def allows (wanted : Option DataType) (t : DataType) : Bool := wanted.all (· == t)

def extend : Pattern → Expression → Captures → Option Captures
  | .anyIdentifier name, .identifier id, c => c.bind name (.identifier id)
  | .anyConstant name, .constant k, c => c.bind name (.constant k)
  | .anyExpression name, e, c => c.bind name e
  | .exactly x, e, c => if x = e then some c else none
  | .binary op t left right, .binary op' t' left' right', c =>
    if op = op' ∧ allows t t' then (left.extend left' c).bind (right.extend right') else none
  | .memory location t, .memory location' t', c =>
    if allows t t' then location.extend location' c else none
  | _, _, _ => none

def match? (p : Pattern) (e : Expression) : Option Captures := p.extend e .empty

end Pattern

inductive TransferPattern
  | assignment (destination source : Pattern)
  | goto (target : Pattern) (kind : TransferClass)
  | call (target : Pattern) (kind : TransferClass)
deriving DecidableEq, Repr

namespace TransferPattern

def extend : TransferPattern → Transfer → Captures → Option Captures
  | .assignment destination source, .assignment destination' source', c =>
    (destination.extend destination' c).bind (source.extend source')
  | .goto target kind, .goto target' kind', c =>
    if kind = kind' then target.extend target' c else none
  | .call target kind, .call target' _ kind', c =>
    if kind = kind' then target.extend target' c else none
  | _, _, _ => none

def match? (p : TransferPattern) (t : Transfer) : Option Captures := p.extend t .empty

def extendAll : List TransferPattern → List Transfer → Captures → Option Captures
  | [], _, c => some c
  | _ :: _, [], _ => none
  | p :: ps, t :: ts, c => (p.extend t c).bind (extendAll ps ts)

def matchSequence? (patterns : List TransferPattern) (transfers : List Transfer) :
    Option Captures :=
  extendAll patterns transfers .empty

end TransferPattern

end RegisterTransfer
