import RegisterTransfer.Text.Path
import RegisterTransfer.TypeLibrary.Definition
import RegisterTransfer.TypeLibrary.Document

namespace RegisterTransfer.TypeLibrary

inductive Error
  | unreadable (path reason : String)
  | badJson
  | badDefinition (path : String) (line : Nat) (fault : Definition.Fault)
  | unknownLoaderType (typeName : String)
  | unknownEnvironment (name : String)
deriving DecidableEq, Repr

def Error.message : Error → String
  | .unreadable path reason => "I/O error reading " ++ path ++ ": " ++ reason
  | .badJson => "JSON error"
  | .badDefinition path line fault => path ++ s!":{line}: " ++ fault.message
  | .unknownLoaderType typeName => "unknown metadata loader type: " ++ typeName
  | .unknownEnvironment name => "unknown environment: " ++ name

/-- Reads the bytes of a file at a path. The calling convention is for signatures that name none:
it is assumed that a loader looks at nothing else of the platform that it loads for, nor at the
services around it. -/
structure Loader where
  load (convention path : String) (bytes : List UInt8) : Except Error Library

namespace Loader

def json [DocumentReader] : Loader where
  load convention path bytes :=
    match DocumentReader.library? bytes with
    | some document => .ok (document.library (Text.Path.stem path) convention)
    | none => .error .badJson

def definition : Loader where
  load _ path bytes :=
    match Definition.read (Text.Path.stem path) bytes with
    | .ok library => .ok library
    | .error (line, fault) => .error (.badDefinition path line fault)

end Loader

abbrev Loaders := Table String Loader

namespace Loaders

def builtin [DocumentReader] : Loaders := (Table.empty.insert "json" .json).insert "def" .definition

def find (loaders : Loaders) (typeName : String) : Except Error Loader :=
  match loaders.get? typeName with
  | some loader => .ok loader
  | none => .error (.unknownLoaderType typeName)

end Loaders

end RegisterTransfer.TypeLibrary
