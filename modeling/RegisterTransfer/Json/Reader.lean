import RegisterTransfer.Json.Token
import RegisterTransfer.Text.Utf8

namespace RegisterTransfer.Json

inductive Level
  | array (before : List Json)
  | object (before : List (Option String × Json)) (name : Option String)

mutual

def value? (levels : List Level) : List Token → Option Json
  | .scalar j :: rest => closed? j levels rest
  | .text s :: rest => closed? (.text s) levels rest
  | .openArray :: .closeArray :: rest => closed? (.array []) levels rest
  | .openArray :: rest => value? (.array [] :: levels) rest
  | .openObject :: .closeObject :: rest => closed? (.object []) levels rest
  | .openObject :: .text name :: .colon :: rest => value? (.object [] name :: levels) rest
  | _ => none

def closed? (j : Json) (levels : List Level) : List Token → Option Json
  | [] =>
    match levels with
    | [] => some j
    | _ :: _ => none
  | .comma :: .text name :: .colon :: rest =>
    match levels with
    | .object before last :: levels => value? (.object ((last, j) :: before) name :: levels) rest
    | _ => none
  | .comma :: rest =>
    match levels with
    | .array before :: levels => value? (.array (j :: before) :: levels) rest
    | _ => none
  | .closeArray :: rest =>
    match levels with
    | .array before :: levels => closed? (.array (j :: before).reverse) levels rest
    | _ => none
  | .closeObject :: rest =>
    match levels with
    | .object before name :: levels => closed? (.object ((name, j) :: before).reverse) levels rest
    | _ => none
  | _ => none

end

def ofSource? (s : Source) : Option Json := (tokens? s).bind (value? [])

def ofText? (s : List Char) : Option Json := ofSource? (s.map some)

def ofBytes? (bytes : List UInt8) : Option Json := ofSource? (Text.Utf8.symbols bytes)

end RegisterTransfer.Json
