import Mathlib.Logic.Function.Basic
import RegisterTransfer.Mips.Decode
import RegisterTransfer.Mips.Lift
import RegisterTransfer.Proofs.Evaluation

namespace RegisterTransfer

def Address.word (a : Address) : BitVec 32 := .ofNat 32 a.value

namespace Mips

structure Machine (M : Type) where
  registers : Nat → BitVec 32
  memory : M

/-- Memory as loads and stores of a width show it, the intrinsic functions, and what a call leaves
in the link register. -/
structure Surroundings (M : Type) where
  load : M → BitVec 32 → (width : Nat) → BitVec width
  store : M → BitVec 32 → (width : Nat) → BitVec width → M
  intrinsic : String → List Constant → (t : DataType) → BitVec t.bits
  link : BitVec 32

variable {M : Type}

namespace Machine

def put (s : Machine M) (n : Nat) (x : BitVec 32) : Machine M :=
  { s with registers := Function.update s.registers n x }

def set (s : Machine M) (r : Gpr) (x : BitVec 32) : Machine M :=
  if r = zeroRegister then s else s.put r x

theorem put_self (s : Machine M) (n : Nat) (x : BitVec 32) : (s.put n x).registers n = x := by
  simp [put]

theorem put_of_ne {s : Machine M} {n m : Nat} (h : m ≠ n) (x : BitVec 32) :
    (s.put n x).registers m = s.registers m := by
  simp [put, h]

theorem set_self {s : Machine M} {r : Gpr} (hr : r ≠ zeroRegister) (x : BitVec 32) :
    (s.set r x).registers r = x := by
  rw [set, if_neg hr, put_self]

theorem set_zero {s : Machine M} (h0 : s.registers 0 = 0) (r : Gpr) (x : BitVec 32) :
    (s.set r x).registers 0 = 0 := by
  unfold set
  by_cases hr : r = zeroRegister
  · rw [if_pos hr, h0]
  · have hz : 0 ≠ (r : Nat) := fun h => hr (Fin.ext h.symm)
    rw [if_neg hr, put_of_ne hz, h0]

def interpretation (s : Machine M) (e : Surroundings M) : Interpretation where
  pointer := .ptr32
  contents storage :=
    match storage with
    | .register r => some (.word32 (s.registers r.number))
    | .flagGroup .. | .temporary _ => none
  load a t := (a.pattern? 32).map fun x => e.load s.memory x t.bits
  intrinsic := e.intrinsic

end Machine

def execute (e : Surroundings M) (t : Transfer) (s : Machine M) : Option (Machine M) :=
  match t with
  | .assignment (.identifier ⟨_, _, .register r⟩) source =>
    (source.pattern? (s.interpretation e) 32).map (s.put r.number)
  | .assignment (.memory location t) source =>
    (location.pattern? (s.interpretation e) 32).bind fun a =>
      (source.pattern? (s.interpretation e) t.bits).map fun x =>
        { s with memory := e.store s.memory a t.bits x }
  | .call .. => some (s.put returnAddress e.link)
  | .goto .. | .branch .. | .returning .. | .sideEffect _ | .nop => some s
  | .assignment .. | .invalid => none

def executeAll (e : Nat → Surroundings M) : List Transfer → Machine M → Option (Machine M)
  | [], s => some s
  | t :: ts, s => (execute (e 0) t s).bind (executeAll (fun n => e (n + 1)) ts)

end Mips

end RegisterTransfer
