import RegisterTransfer.Json.Reader
import RegisterTransfer.TypeLibrary.Document

namespace RegisterTransfer

open Json (required defaulted optional)

def Parameter.ofJson? (j : Json) : Option Parameter := do
  match ← j.fields? ["name", "type"] with
  | [name, typeName] =>
    return ⟨← required Json.text? name, ← required Json.text? typeName⟩
  | _ => none

def Signature.ofJson? (j : Json) : Option Signature := do
  let names := ["return_type", "parameters", "return_address_on_stack", "stack_delta",
    "calling_convention"]
  match ← j.fields? names with
  | [returnType, parameters, returnAddressOnStack, stackDelta, callingConvention] =>
    return {
      returnType := ← optional Json.text? returnType
      parameters := ← defaulted (Json.listOf? Parameter.ofJson?) [] parameters
      returnAddressOnStack := ← defaulted Json.word32? 0 returnAddressOnStack
      stackDelta := ← defaulted Json.int32? 0 stackDelta
      callingConvention := ← optional Json.text? callingConvention }
  | _ => none

namespace TypeLibrary

def Service.ofJson? (j : Json) : Option Service := do
  match ← j.fields? ["name", "ordinal", "signature"] with
  | [name, ordinal, signature] =>
    return ⟨← required Json.text? name, ← optional Json.int32? ordinal,
      ← optional Signature.ofJson? signature⟩
  | _ => none

def Document.ofJson? (j : Json) : Option Document := do
  match ← j.fields? ["module", "services"] with
  | [moduleName, services] =>
    return ⟨← optional Json.text? moduleName,
      ← defaulted (Json.listOf? Service.ofJson?) [] services⟩
  | _ => none

def LibraryEntry.ofJson? (j : Json) : Option LibraryEntry := do
  match ← j.fields? ["name", "loader"] with
  | [name, loader] => return ⟨← required Json.text? name, ← defaulted Json.text? "" loader⟩
  | _ => none

def Environment.ofJson? (j : Json) : Option Environment := do
  match ← j.fields? ["name", "type_libraries"] with
  | [name, libraries] =>
    return ⟨← required Json.text? name,
      ← defaulted (Json.listOf? LibraryEntry.ofJson?) [] libraries⟩
  | _ => none

def LoaderEntry.ofJson? (j : Json) : Option LoaderEntry := do
  match ← j.fields? ["label", "type_name"] with
  | [label, typeName] => return ⟨← required Json.text? label, ← required Json.text? typeName⟩
  | _ => none

def Declarations.ofJson? (j : Json) : Option Declarations := do
  match ← j.fields? ["environments", "loaders"] with
  | [environments, loaders] =>
    return ⟨← defaulted (Json.listOf? Environment.ofJson?) [] environments,
      ← defaulted (Json.listOf? LoaderEntry.ofJson?) [] loaders⟩
  | _ => none

instance : DocumentReader where
  library? bytes := (Json.ofBytes? bytes).bind Document.ofJson?
  declarations? text := (Json.ofText? text).bind Declarations.ofJson?

end TypeLibrary

end RegisterTransfer
