import RegisterTransfer.Expression

namespace RegisterTransfer

structure TransferClass where
  linear : Bool
  transfer : Bool
  conditional : Bool
  delay : Bool
  call : Bool
  invalid : Bool
deriving DecidableEq, Repr

namespace TransferClass

def empty : TransferClass := ⟨false, false, false, false, false, false⟩

def ofLinear : TransferClass := { empty with linear := true }

def ofTransfer : TransferClass := { empty with transfer := true }

def ofInvalid : TransferClass := { empty with invalid := true }

def delayed : TransferClass := { ofTransfer with delay := true }

def union (a b : TransferClass) : TransferClass :=
  ⟨a.linear || b.linear, a.transfer || b.transfer, a.conditional || b.conditional,
    a.delay || b.delay, a.call || b.call, a.invalid || b.invalid⟩

def flags (c : TransferClass) : List (Bool × String) :=
  [(c.linear, "LINEAR"), (c.transfer, "TRANSFER"), (c.conditional, "CONDITIONAL"),
    (c.delay, "DELAY"), (c.call, "CALL"), (c.invalid, "INVALID")]

def text (c : TransferClass) : String :=
  " | ".intercalate ((c.flags.filter (·.1)).map (·.2))

def ofNames (names : List String) : TransferClass :=
  ⟨names.contains "LINEAR", names.contains "TRANSFER", names.contains "CONDITIONAL",
    names.contains "DELAY", names.contains "CALL", names.contains "INVALID"⟩

end TransferClass

inductive Transfer
  | assignment (destination source : Expression)
  | goto (target : Expression) (kind : TransferClass)
  | branch (condition target : Expression) (kind : TransferClass)
  | call (target : Expression) (returnAddressSize : Nat) (kind : TransferClass)
  | returning (returnAddressSize : Nat) (kind : TransferClass)
  | sideEffect (e : Expression)
  | nop
  | invalid
deriving DecidableEq, Repr

namespace Transfer

def kind : Transfer → TransferClass
  | .goto _ kind | .branch _ _ kind | .call _ _ kind | .returning _ kind => kind
  | .invalid => .ofInvalid
  | .assignment .. | .sideEffect _ | .nop => .ofLinear

def isDelayed (t : Transfer) : Bool := t.kind.delay

def isTransfer (t : Transfer) : Bool := t.kind.transfer

def delayMark (kind : TransferClass) : String := if kind.delay then " (delay)" else ""

def text : Transfer → String
  | .assignment destination source => destination.text ++ " = " ++ source.text
  | .goto target kind => "goto " ++ target.text ++ delayMark kind
  | .branch condition target kind =>
    "if (" ++ condition.text ++ ") branch " ++ target.text ++ delayMark kind
  | .call target _ kind => "call " ++ target.text ++ delayMark kind
  | .returning _ kind => "return" ++ delayMark kind
  | .sideEffect e => e.text
  | .nop => "nop"
  | .invalid => "<invalid>"

end Transfer

structure Cluster where
  address : Address
  length : Nat
  transfers : List Transfer
deriving DecidableEq, Repr

namespace Cluster

def kind (c : Cluster) : TransferClass :=
  c.transfers.foldl (fun kind t => kind.union t.kind) .empty

def nextAddress (c : Cluster) : Address := c.address.addOffset c.length

def text (c : Cluster) : String :=
  c.address.text ++ s!"({c.length})\n" ++
    String.join (c.transfers.map fun t => "  " ++ t.text ++ "\n")

end Cluster

end RegisterTransfer
