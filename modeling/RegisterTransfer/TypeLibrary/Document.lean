import RegisterTransfer.TypeLibrary.Library

namespace RegisterTransfer.TypeLibrary

structure Document where
  moduleName : Option String
  services : List Service
deriving DecidableEq, Repr

/-- A declared library. The label says which loaders read it; an empty one, that none does. -/
structure LibraryEntry where
  name : String
  loader : String
deriving DecidableEq, Repr

structure Environment where
  name : String
  libraries : List LibraryEntry
deriving DecidableEq, Repr

structure LoaderEntry where
  label : String
  typeName : String
deriving DecidableEq, Repr

structure Declarations where
  environments : List Environment
  loaders : List LoaderEntry
deriving DecidableEq, Repr

/-- Reads documents in whatever syntax they are written, as far as they are well-formed. Nothing
else is assumed of a reader. -/
class DocumentReader where
  library? (bytes : List UInt8) : Option Document
  declarations? (text : List Char) : Option Declarations

def Service.withConvention (convention : String) (s : Service) : Service :=
  { s with
    signature := s.signature.map fun signature =>
      { signature with
        callingConvention := some (signature.callingConvention.getD convention) } }

def Document.library (d : Document) (stem convention : String) : Library :=
  .ofServices (d.moduleName.getD stem) (d.services.map (·.withConvention convention))

end RegisterTransfer.TypeLibrary
