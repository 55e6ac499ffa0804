/-!
JSON values. The members of an object keep their order, and names may repeat. A string literal may
denote no text, by half of a surrogate pair or by bytes that are no characters: such a string is
`none`. No reader takes it for a value or for the name of a record's member, so it does harm only
where it counts.
-/
namespace RegisterTransfer

inductive Json
  | null
  | bool (value : Bool)
  | integer (value : Int)
  | decimal (literal : String)
  | text (value : Option String)
  | array (items : List Json)
  | object (members : List (Option String × Json))
deriving Repr, Inhabited

namespace Json

def text? : Json → Option String
  | .text value => value
  | _ => none

def items? : Json → Option (List Json)
  | .array items => some items
  | _ => none

def integerIn? (low high : Int) : Json → Option Int
  | .integer n => if low ≤ n ∧ n < high then some n else none
  | _ => none

def int32? : Json → Option Int := integerIn? (-0x80000000) 0x80000000

def word32? (j : Json) : Option Nat := (integerIn? 0 0x100000000 j).map Int.toNat

def listOf? {α : Type} (read : Json → Option α) (j : Json) : Option (List α) :=
  j.items?.bind (·.mapM read)

def nullable? {α : Type} (read : Json → Option α) : Json → Option (Option α)
  | .null => some none
  | j => (read j).map some

def required {α : Type} (read : Json → Option α) (field : Option Json) : Option α :=
  field.bind read

def defaulted {α : Type} (read : Json → Option α) (default : α) : Option Json → Option α
  | none => some default
  | some j => read j

def optional {α : Type} (read : Json → Option α) : Option Json → Option (Option α) :=
  defaulted (nullable? read) none

def member (members : List (String × Json)) (name : String) : Option (Option Json) :=
  match members.filter (·.1 == name) with
  | [] => some none
  | [(_, j)] => some (some j)
  | _ => none

def named? (members : List (Option String × Json)) : Option (List (String × Json)) :=
  members.mapM fun (name, j) => name.map (·, j)

/-- The fields of a record, in the order of `names`. A record is an object, where the values of
other members do not count, or an array of the fields in order, without some of the last ones
perhaps. -/
def fields? (names : List String) : Json → Option (List (Option Json))
  | .object members => (named? members).bind fun members => names.mapM (member members)
  | .array items =>
    if items.length ≤ names.length then
      some (items.map some ++ List.replicate (names.length - items.length) none)
    else none
  | _ => none

end Json

end RegisterTransfer
