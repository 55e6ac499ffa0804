import RegisterTransfer.Pattern
import RegisterTransfer.Session

namespace RegisterTransfer.ImportStub

def length : Nat := 3

def patterns : List TransferPattern :=
  [.assignment (.anyIdentifier "r0d") (.anyConstant "hi"),
    .assignment (.anyIdentifier "r1d")
      (.memory (.binary .iadd none (.anyIdentifier "r1s") (.anyConstant "lo")) (some .word32)),
    .goto (.anyIdentifier "r2s") .delayed]

def chains (c : Captures) : Bool :=
  c.get? "r0d" == c.get? "r1s" && c.get? "r1d" == c.get? "r2s"

def slot? (a : Architecture) (transfers : List Transfer) : Option Address := do
  let captures ← TransferPattern.matchSequence? patterns transfers
  guard (chains captures)
  let hi ← captures.constant? "hi"
  let lo ← captures.constant? "lo"
  return a.addressOfConstant (Operator.iadd.fold hi lo)

def resolve (host : Host) (slot continuation : Address) : Lifting (Option Procedure) := do
  match ← Lifting.askImported host slot continuation with
  | some procedure => return some procedure
  | none => Lifting.askIntercepted host slot

def clusters? : List (Except DecodeError Cluster) → Option (List Cluster)
  | [] => some []
  | .ok cluster :: rest => (clusters? rest).map (cluster :: ·)
  | .error _ :: _ => none

def destination (host : Host) (a : Architecture) (c : Cursor) :
    Option Procedure × List Question :=
  let (items, session) := (Session.fresh a c).take host length
  match clusters? items with
  | some [first, second, third] =>
    match slot? a (first.transfers ++ second.transfers ++ third.transfers) with
    | some slot =>
      let (procedure, workspace) := resolve host slot third.address session.workspace
      (procedure, workspace.questions)
    | none => (none, session.workspace.questions)
  | _ => (none, session.workspace.questions)

end RegisterTransfer.ImportStub
