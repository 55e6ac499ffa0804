import RegisterTransfer.Expression

/-!
The identifiers of one procedure, in the order of their creation. Each storage has at most one, and
those that exist stay as they are (`Frame.identifiers_ensure`).
-/
namespace RegisterTransfer

structure Frame where
  wordBits : Nat
  identifiers : List Identifier
  nextTemporary : Nat
deriving DecidableEq, Repr

namespace Frame

def empty (wordBits : Nat) : Frame := ⟨wordBits, [], 0⟩

def find? (f : Frame) (s : Storage) : Option Identifier :=
  f.identifiers.find? (·.storage == s)

def push (f : Frame) (id : Identifier) : Frame := { f with identifiers := f.identifiers ++ [id] }

def ensure (f : Frame) (id : Identifier) : Identifier × Frame :=
  match f.find? id.storage with
  | some held => (held, f)
  | none => (id, f.push id)

def ensureRegister (f : Frame) (r : Register) : Identifier × Frame := f.ensure (.ofRegister r)

def population (mask : Nat) : Nat := (List.range 32).countP mask.testBit

def ensureFlagGroup (f : Frame) (r : Register) (mask : Nat) (name : String) :
    Identifier × Frame :=
  f.ensure ⟨name, if population mask = 1 then .bool else .byte, .flagGroup r mask⟩

def createTemporary (f : Frame) (t : DataType) : Identifier × Frame :=
  let id : Identifier := ⟨s!"v{f.nextTemporary}", t, .temporary f.nextTemporary⟩
  (id, { f.push id with nextTemporary := f.nextTemporary + 1 })

theorem identifiers_ensure (f : Frame) (id : Identifier) :
    f.identifiers <+: (f.ensure id).2.identifiers := by
  unfold ensure
  split
  · exact List.prefix_refl _
  · exact List.prefix_append _ _

theorem storage_ensure (f : Frame) (id : Identifier) : (f.ensure id).1.storage = id.storage := by
  unfold ensure
  split
  · rename_i held h
    simpa [find?] using List.find?_some h
  · rfl

end Frame

end RegisterTransfer
