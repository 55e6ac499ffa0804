import RegisterTransfer.Frame
import RegisterTransfer.Procedure
import RegisterTransfer.Table
import RegisterTransfer.Transfer

namespace RegisterTransfer

abbrev Knowledge := Table Nat Constant

namespace Knowledge

def contents? (k : Knowledge) (r : Register) : Option Constant := k.get? r.number

def record (k : Knowledge) (r : Register) (c : Constant) : Knowledge := k.insert r.number c

def forget (k : Knowledge) (r : Register) : Knowledge := k.erase r.number

end Knowledge

structure Host where
  /-- The import whose stub or slot is at the target of a transfer; execution resumes at the
  continuation. -/
  imported : Address → Address → Option Procedure
  intercepted : Address → Option Procedure

inductive Question
  | imported (target continuation : Address)
  | intercepted (target : Address)
deriving DecidableEq, Repr

structure Workspace where
  knowledge : Knowledge
  frame : Frame
  questions : List Question
deriving DecidableEq

abbrev Lifting := StateM Workspace

namespace Lifting

def read (r : Register) : Lifting Expression := fun w =>
  let (id, frame) := w.frame.ensureRegister r
  (.identifier id, { w with frame })

def flagGroup (r : Register) (mask : Nat) (name : String) : Lifting Expression := fun w =>
  let (id, frame) := w.frame.ensureFlagGroup r mask name
  (.identifier id, { w with frame })

def temporary (t : DataType) : Lifting Expression := fun w =>
  let (id, frame) := w.frame.createTemporary t
  (.identifier id, { w with frame })

def contents? (r : Register) : Lifting (Option Constant) := fun w =>
  (w.knowledge.contents? r, w)

def record (r : Register) (c : Constant) : Lifting Unit := fun w =>
  ((), { w with knowledge := w.knowledge.record r c })

def forget (r : Register) : Lifting Unit := fun w =>
  ((), { w with knowledge := w.knowledge.forget r })

def assign (r : Register) (source : Expression) : Lifting Transfer := do
  match source.constant? with
  | some c => record r c
  | none => forget r
  let destination ← read r
  return .assignment destination source

def askImported (host : Host) (target continuation : Address) : Lifting (Option Procedure) :=
  fun w => (host.imported target continuation,
    { w with questions := w.questions ++ [.imported target continuation] })

def askIntercepted (host : Host) (target : Address) : Lifting (Option Procedure) :=
  fun w => (host.intercepted target,
    { w with questions := w.questions ++ [.intercepted target] })

def callee (host : Host) (target continuation : Address) : Lifting Expression := do
  match ← askImported host target continuation with
  | some procedure => return .externalProcedure procedure.name
  | none => return .address target

end Lifting

end RegisterTransfer
