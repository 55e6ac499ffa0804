namespace RegisterTransfer

inductive RegisterKind
  | general | special | flags | stack | programCounter
deriving DecidableEq, Repr

def RegisterKind.text : RegisterKind → String
  | .general => "General"
  | .special => "Special"
  | .flags => "Flags"
  | .stack => "Stack"
  | .programCounter => "ProgramCounter"

structure Register where
  name : String
  number : Nat
  bits : Nat
  kind : RegisterKind
deriving DecidableEq, Repr

end RegisterTransfer
