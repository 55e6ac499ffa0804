import Mathlib.Logic.Function.Basic
import RegisterTransfer.Mos6502.Lift
import RegisterTransfer.Proofs.Evaluation

namespace RegisterTransfer.Mos6502

structure Machine where
  registers : Nat → BitVec 8
  temporaries : Nat → BitVec 8
  memory : BitVec 16 → BitVec 8

structure Surroundings where
  intrinsic : String → List Constant → (t : DataType) → BitVec t.bits
  flags : Constant → BitVec 8

namespace Machine

def a (s : Machine) : BitVec 8 := s.registers regA.number

def x (s : Machine) : BitVec 8 := s.registers regX.number

def y (s : Machine) : BitVec 8 := s.registers regY.number

def stack (s : Machine) : BitVec 8 := s.registers regS.number

def carry (s : Machine) : Bool := (s.registers regP.number).getLsbD Flag.carry.mask.log2

def put (s : Machine) (n : Nat) (v : BitVec 8) : Machine :=
  { s with registers := Function.update s.registers n v }

def keep (s : Machine) (n : Nat) (v : BitVec 8) : Machine :=
  { s with temporaries := Function.update s.temporaries n v }

def store (s : Machine) (place : BitVec 16) (v : BitVec 8) : Machine :=
  { s with memory := Function.update s.memory place v }

def putFlags (s : Machine) (n mask : Nat) (v : BitVec 8) : Machine :=
  s.put n ((s.registers n &&& ~~~.ofNat 8 mask) ||| (v &&& .ofNat 8 mask))

theorem keep_self (s : Machine) (n : Nat) (v : BitVec 8) : (s.keep n v).temporaries n = v := by
  simp [keep]

def load (s : Machine) (place : BitVec 16) (width : Nat) : BitVec width :=
  .ofNat width ((List.range (width / 8)).foldr
    (fun i n => (s.memory (place + .ofNat 16 i)).toNat + 256 * n) 0)

def contents (s : Machine) : Storage → Constant
  | .register r => .byte (s.registers r.number)
  | .flagGroup r mask =>
    if Frame.population mask = 1 then .bool ((s.registers r.number).getLsbD mask.log2)
    else .byte (s.registers r.number &&& .ofNat 8 mask)
  | .temporary n => .byte (s.temporaries n)

def interpretation (s : Machine) (e : Surroundings) : Interpretation where
  pointer := .ptr16
  contents storage := some (s.contents storage)
  load place t := (place.pattern? 16).map fun p => s.load p t.bits
  intrinsic := e.intrinsic

def flagBits? (s : Machine) (e : Surroundings) : Expression → Option (BitVec 8)
  | .conditionOf operand => (operand.value? (s.interpretation e)).map e.flags
  | source => (source.value? (s.interpretation e)).bind fun c =>
    if c.dataType = .bool then some (if c.isZero then 0 else .allOnes 8) else c.pattern? 8

end Machine

def execute (e : Surroundings) (t : Transfer) (s : Machine) : Option Machine :=
  match t with
  | .assignment (.identifier id) source =>
    match id.storage with
    | .register r => (source.pattern? (s.interpretation e) 8).map (s.put r.number)
    | .temporary n => (source.pattern? (s.interpretation e) 8).map (s.keep n)
    | .flagGroup r mask => (s.flagBits? e source).map (s.putFlags r.number mask)
  | .assignment (.memory location .byte) source =>
    (location.pattern? (s.interpretation e) 16).bind fun place =>
      (source.pattern? (s.interpretation e) 8).map (s.store place)
  | .goto .. | .branch .. | .call .. | .returning .. | .sideEffect _ | .nop => some s
  | .assignment .. | .invalid => none

def executeAll (o : Nat → Surroundings) : List Transfer → Machine → Option Machine
  | [], s => some s
  | t :: ts, s => (execute (o 0) t s).bind (executeAll (fun n => o (n + 1)) ts)

end RegisterTransfer.Mos6502
