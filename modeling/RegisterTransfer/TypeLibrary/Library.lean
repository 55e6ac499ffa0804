import RegisterTransfer.Procedure
import RegisterTransfer.Table
import RegisterTransfer.Text.Case

namespace RegisterTransfer.TypeLibrary

structure Service where
  name : String
  ordinal : Option Int
  signature : Option Signature
deriving DecidableEq, Repr

structure Library where
  moduleName : String
  byOrdinal : Table Int Service
  byName : Table String Service
deriving DecidableEq

namespace Library

def empty (moduleName : String) : Library := ⟨moduleName, .empty, .empty⟩

/-- In each index a later service takes the place of an earlier one. -/
def add (l : Library) (s : Service) : Library :=
  { l with
    byOrdinal :=
      match s.ordinal with
      | some n => l.byOrdinal.insert n s
      | none => l.byOrdinal
    byName := l.byName.insert s.name s }

def ofServices (moduleName : String) (services : List Service) : Library :=
  services.foldl add (empty moduleName)

def ordinal? (l : Library) (n : Int) : Option Service := l.byOrdinal.get? n

def name? (l : Library) (name : String) : Option Service := l.byName.get? name

def isModule (l : Library) (name : String) : Bool :=
  Text.sameIgnoringCase l.moduleName.toList name.toList

def size (l : Library) : Nat := l.byName.size

def isEmpty (l : Library) : Bool := l.byName.isEmpty

end Library

def findOrdinal? (libraries : List Library) (moduleName : String) (n : Int) : Option Service :=
  (libraries.filter (·.isModule moduleName)).findSome? (·.ordinal? n)

def findName? (libraries : List Library) (moduleName name : String) : Option Service :=
  (libraries.filter (·.isModule moduleName)).findSome? (·.name? name)

end RegisterTransfer.TypeLibrary
