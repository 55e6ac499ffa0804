import RegisterTransfer.ImportStub
import RegisterTransfer.TypeLibrary.Loading

namespace RegisterTransfer

open TypeLibrary

inductive Platform
  | winMips (order : ByteOrder)
  | plain (architecture : Architecture) (identifier callingConvention : String)
deriving DecidableEq, Repr

inductive Lookup
  | found (procedure : Procedure)
  | notFound
  | notSupported
deriving DecidableEq, Repr

def Lookup.procedure? : Lookup → Option Procedure
  | .found procedure => some procedure
  | .notFound | .notSupported => none

def Lookup.ofOption : Option Procedure → Lookup
  | some procedure => .found procedure
  | none => .notFound

namespace Platform

def identifier : Platform → String
  | .winMips _ => "winMips"
  | .plain _ identifier _ => identifier

def architecture : Platform → Architecture
  | .winMips order => .mips order
  | .plain architecture _ _ => architecture

def callingConvention : Platform → String
  | .winMips _ => ""
  | .plain _ _ callingConvention => callingConvention

def implicitRegisters : Platform → List Register
  | .winMips _ => [Mips.globalPointer.register, Mips.stackPointer.register]
  | .plain architecture _ _ => [architecture.stackRegister]

def implicitRegisterSet (p : Platform) : RegisterSet :=
  p.implicitRegisters.foldl (fun s r => s.insert r.number) p.architecture.emptyRegisterSet

def adjustProcedureAddress (_ : Platform) (a : Address) : Address := a

def stubDestination (p : Platform) (host : Host) (c : Cursor) :
    Option Procedure × List Question :=
  match p with
  | .winMips order => ImportStub.destination host (.mips order) c
  | .plain .. => (none, [])

/-- Windows CE on MIPS passes no return address on the stack, whatever a library declares. -/
def correct (p : Platform) (s : Signature) : Signature :=
  match p with
  | .winMips _ => { s with returnAddressOnStack := 0 }
  | .plain .. => s

def procedure (p : Platform) (s : Service) : Procedure := ⟨s.name, s.signature.map p.correct⟩

end Platform

abbrev LibraryCache := Option (List Library)

/-- Resolves procedures for one platform. The libraries are loaded by the first look-up that needs
them and kept; a load that fails is not remembered. -/
structure Resolver where
  platform : Platform
  configuration : Configuration
  loaders : Loaders
  cache : LibraryCache

structure Reading (α : Type) where
  result : Except TypeLibrary.Error α
  paths : List String
  cache : LibraryCache

namespace Resolver

def ensure (r : Resolver) (files : FileStore) (environment : String) :
    Reading (List Library) :=
  match r.cache with
  | some libraries => ⟨.ok libraries, [], r.cache⟩
  | none =>
    let (result, paths) :=
      loadLibraries r.configuration files r.loaders r.platform.callingConvention environment
    ⟨result, paths, result.toOption⟩

def search (r : Resolver) (files : FileStore) (find : List Library → Option Service) :
    Reading Lookup :=
  let reading := r.ensure files r.platform.identifier
  { reading with
    result := reading.result.map fun libraries =>
      .ofOption ((find libraries).map r.platform.procedure) }

def byOrdinal (r : Resolver) (files : FileStore) (moduleName : String) (n : Int) :
    Reading Lookup :=
  r.search files (findOrdinal? · moduleName n)

def byName (r : Resolver) (files : FileStore) (moduleName name : String) : Reading Lookup :=
  match r.platform with
  | .winMips _ => ⟨.ok .notSupported, [], r.cache⟩
  | .plain .. => r.search files (findName? · moduleName name)

def after {α : Type} (r : Resolver) (reading : Reading α) : Resolver :=
  { r with cache := reading.cache }

end Resolver

end RegisterTransfer
