import RegisterTransfer.TypeLibrary.Loader

namespace RegisterTransfer.TypeLibrary

structure Configuration where
  environments : Table String Environment
  loaders : List LoaderEntry
  directory : String
deriving DecidableEq

abbrev FileStore := String → Except String (List UInt8)

namespace Configuration

/-- The last environment of a name counts. -/
def make (environments : List Environment) (loaders : List LoaderEntry) (directory : String) :
    Configuration :=
  ⟨.ofList (environments.map fun e => (e.name, e)), loaders, directory⟩

def read [DocumentReader] (text : List Char) (directory : String) : Except Error Configuration :=
  match DocumentReader.declarations? text with
  | some d => .ok (make d.environments d.loaders directory)
  | none => .error .badJson

def ofFile [DocumentReader] (files : FileStore) (path : String) : Except Error Configuration :=
  match files path with
  | .error reason => .error (.unreadable path reason)
  | .ok bytes =>
    match Text.Utf8.decode bytes with
    | .error _ => .error (.unreadable path "stream did not contain valid UTF-8")
    | .ok text => read text (Text.Path.parent path)

def environment? (c : Configuration) (name : String) : Option Environment :=
  c.environments.get? name

def path (c : Configuration) (name : String) : String := Text.Path.join c.directory name

end Configuration

end RegisterTransfer.TypeLibrary
