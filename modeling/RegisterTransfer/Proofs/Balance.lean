import Mathlib.Algebra.Group.Nat.Defs
import RegisterTransfer.Proofs.Identifiers

namespace RegisterTransfer

namespace Expression

def dataType? : Expression → Option DataType
  | .identifier id => some id.dataType
  | .constant c => some c.dataType
  | .binary _ t _ _ | .unary _ t _ | .cast t _ _ | .memory _ t | .application _ _ t => some t
  | .test _ _ => some .bool
  | .address _ | .conditionOf _ | .externalProcedure _ => none

def width? : Expression → Option Nat
  | .address a => some a.bits
  | e => e.dataType?.map DataType.bits

mutual

@[simp] def nodes : Expression → List Expression
  | .identifier id => [.identifier id]
  | .constant c => [.constant c]
  | .address a => [.address a]
  | .externalProcedure name => [.externalProcedure name]
  | .binary op t left right => .binary op t left right :: (left.nodes ++ right.nodes)
  | .unary op t operand => .unary op t operand :: operand.nodes
  | .cast t signed operand => .cast t signed operand :: operand.nodes
  | .memory location t => .memory location t :: location.nodes
  | .conditionOf operand => .conditionOf operand :: operand.nodes
  | .test code flags => .test code flags :: flags.nodes
  | .application function arguments t => .application function arguments t :: nodesOf arguments

@[simp] def nodesOf : List Expression → List Expression
  | [] => []
  | e :: rest => e.nodes ++ nodesOf rest

end

theorem mem_nodesOf {x : Expression} {es : List Expression} :
    x ∈ nodesOf es ↔ ∃ e ∈ es, x ∈ e.nodes := by
  induction es with
  | nil => simp
  | cons e es ih => simp [ih]

def Balanced (pointer : Nat) : Expression → Prop
  | .constant c => c.toNat < 2 ^ c.dataType.bits
  | .binary op t left right =>
    if op.isComparison then t = .bool ∧ ∃ w, left.width? = some w ∧ right.width? = some w
    else left.width? = some t.bits ∧ right.width? = some t.bits
  | .unary _ t operand => operand.width? = some t.bits
  | .memory location _ => location.width? = some pointer
  | _ => True

structure Gauge where
  pointer : Nat
  Exempt : Expression → Prop

variable {G : Gauge}

def Throughout (G : Gauge) (e : Expression) : Prop :=
  ∀ x ∈ e.nodes, x.Balanced G.pointer ∨ G.Exempt x

structure Fits (G : Gauge) (w : Nat) (e : Expression) : Prop where
  width : e.width? = some w
  throughout : e.Throughout G

theorem throughout_leaf {e : Expression} (he : e.nodes = [e]) (h : e.Balanced G.pointer) :
    e.Throughout G := by
  intro x hx
  rw [he, List.mem_singleton] at hx
  exact .inl (hx ▸ h)

theorem throughout_node {e : Expression} (parts : List Expression)
    (he : e.nodes = e :: nodesOf parts) (h : e.Balanced G.pointer ∨ G.Exempt e)
    (hparts : ∀ p ∈ parts, p.Throughout G) : e.Throughout G := by
  intro x hx
  rw [he, List.mem_cons, mem_nodesOf] at hx
  rcases hx with rfl | ⟨p, hp, hx⟩
  · exact h
  · exact hparts p hp x hx

theorem throughout_binary {op : Operator} {t : DataType} {left right : Expression}
    (h : (Expression.binary op t left right).Balanced G.pointer ∨
      G.Exempt (.binary op t left right))
    (hl : left.Throughout G) (hr : right.Throughout G) :
    (Expression.binary op t left right).Throughout G := by
  apply throughout_node [left, right] _ h
  · simp [hl, hr]
  · simp

namespace Fits
variable {w v : Nat} {t : DataType} {op : Operator} {e left right : Expression}

theorem identifier {id : Identifier} (ht : id.dataType.bits = w) : Fits G w (.identifier id) :=
  ⟨congrArg some ht, throughout_leaf rfl trivial⟩

theorem constant {c : Constant} (ht : c.dataType.bits = w) : Fits G w (.constant c) :=
  ⟨congrArg some ht, throughout_leaf rfl c.value.isLt⟩

theorem address {a : Address} (ha : a.bits = w) : Fits G w (.address a) :=
  ⟨congrArg some ha, throughout_leaf rfl trivial⟩

theorem binary (ht : t.bits = w) (hop : op.isComparison = false) (hl : Fits G w left)
    (hr : Fits G w right) : Fits G w (.binary op t left right) := by
  subst ht
  refine ⟨rfl, throughout_binary (.inl ?_) hl.throughout hr.throughout⟩
  rw [Balanced, hop]
  exact ⟨hl.width, hr.width⟩

theorem comparison (hop : op.isComparison) (hl : Fits G w left) (hr : Fits G w right) :
    Fits G 1 (.binary op .bool left right) := by
  refine ⟨rfl, throughout_binary (.inl ?_) hl.throughout hr.throughout⟩
  rw [Balanced, if_pos hop]
  exact ⟨rfl, w, hl.width, hr.width⟩

theorem exempt (ht : t.bits = w) (h : G.Exempt (.binary op t left right))
    (hl : left.Throughout G) (hr : right.Throughout G) : Fits G w (.binary op t left right) :=
  ⟨congrArg some ht, throughout_binary (.inr h) hl hr⟩

theorem unary {op : UnaryOperator} (ht : t.bits = w) (h : Fits G w e) :
    Fits G w (.unary op t e) := by
  subst ht
  refine ⟨rfl, throughout_node [e] (by simp) (.inl h.width) ?_⟩
  simp [h.throughout]

theorem cast {signed : Bool} (ht : t.bits = w) (h : e.Throughout G) :
    Fits G w (.cast t signed e) := by
  refine ⟨congrArg some ht, throughout_node [e] (by simp) (.inl trivial) ?_⟩
  simp [h]

theorem memory (ht : t.bits = w) (h : Fits G G.pointer e) : Fits G w (.memory e t) := by
  refine ⟨congrArg some ht, throughout_node [e] (by simp) (.inl h.width) ?_⟩
  simp [h.throughout]

theorem application {function : String} {es : List Expression} (ht : t.bits = w)
    (h : ∀ e ∈ es, e.Throughout G) : Fits G w (.application function es t) :=
  ⟨congrArg some ht, throughout_node es rfl (.inl trivial) h⟩

end Fits

theorem throughout_test {code : ConditionCode} {e : Expression} (h : e.Throughout G) :
    (test code e).Throughout G := by
  refine throughout_node [e] (by simp) (.inl ?_) (by simp [h])
  trivial

theorem throughout_conditionOf {e : Expression} (h : e.Throughout G) :
    (conditionOf e).Throughout G := by
  refine throughout_node [e] (by simp) (.inl ?_) (by simp [h])
  trivial

theorem throughout_callee (host : Host) (target continuation : Address) :
    (host.callee target continuation).Throughout G := by
  unfold Host.callee
  cases host.imported target continuation with
  | none => exact (Fits.address rfl).throughout
  | some p => exact throughout_leaf (e := .externalProcedure p.name) rfl (by trivial)

end Expression

namespace Transfer

open Expression

variable {G : Gauge} {w v : Nat}

def Matched : Transfer → Prop
  | .assignment _ (.conditionOf _) => True
  | .assignment destination source =>
    ∃ w, destination.width? = some w ∧ source.width? = some w
  | .branch condition _ _ => condition.dataType? = some .bool
  | _ => True

structure Sized (G : Gauge) (t : Transfer) : Prop where
  matched : t.Matched
  throughout : ∀ e ∈ t.expressions, e.Throughout G

namespace Sized

theorem assignment {destination source : Expression} (hd : Fits G w destination)
    (hs : Fits G w source) : Sized G (.assignment destination source) := by
  refine ⟨?_, by simp [hd.throughout, hs.throughout]⟩
  unfold Matched
  split
  · trivial
  · rename_i h
    cases h
    exact ⟨w, hd.width, hs.width⟩
  all_goals trivial

theorem flags {destination e : Expression} (hd : destination.Throughout G) (he : e.Throughout G) :
    Sized G (.assignment destination (.conditionOf e)) :=
  ⟨trivial, by simp [hd, throughout_conditionOf he]⟩

theorem goto {target : Expression} (h : target.Throughout G) (kind : TransferClass) :
    Sized G (.goto target kind) :=
  ⟨trivial, by simp [h]⟩

theorem branch {condition target : Expression} (hb : condition.dataType? = some .bool)
    (hc : condition.Throughout G) (ht : target.Throughout G) (kind : TransferClass) :
    Sized G (.branch condition target kind) :=
  ⟨hb, by simp [hc, ht]⟩

theorem call {target : Expression} (h : target.Throughout G) (size : Nat) (kind : TransferClass) :
    Sized G (.call target size kind) :=
  ⟨trivial, by simp [h]⟩

theorem sideEffect {e : Expression} (h : e.Throughout G) : Sized G (.sideEffect e) :=
  ⟨trivial, by simp [h]⟩

theorem returning (size : Nat) (kind : TransferClass) : Sized G (.returning size kind) :=
  ⟨trivial, by simp⟩

theorem nop : Sized G .nop := ⟨trivial, by simp⟩

theorem invalid : Sized G .invalid := ⟨trivial, by simp⟩

end Sized

end Transfer

end RegisterTransfer
