import RegisterTransfer.Architecture
import RegisterTransfer.Json.Records
import RegisterTransfer.TypeLibrary.Loader

namespace RegisterTransfer

inductive Failure
  | address (e : AddressError)
  | image (e : ImageError)
  | decode (e : DecodeError)
  | typeLibrary (e : TypeLibrary.Error)
deriving DecidableEq, Repr

def Failure.message : Failure → String
  | .address e => "Address error: " ++ e.message
  | .image e => "Image error: " ++ e.message
  | .decode e => "Disassembly error: " ++ e.message
  | .typeLibrary e => "Type library error: " ++ e.message

end RegisterTransfer
