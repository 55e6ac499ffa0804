namespace RegisterTransfer

structure Parameter where
  name : String
  typeName : String
deriving DecidableEq, Repr

structure Signature where
  returnType : Option String
  parameters : List Parameter
  returnAddressOnStack : Nat
  stackDelta : Int
  callingConvention : Option String
deriving DecidableEq, Repr

structure Procedure where
  name : String
  signature : Option Signature
deriving DecidableEq, Repr

def Parameter.text (p : Parameter) : String := p.typeName ++ " " ++ p.name

def Signature.text (s : Signature) : String :=
  "(" ++ ", ".intercalate (s.parameters.map Parameter.text) ++ ")"

def Procedure.text (p : Procedure) : String := p.name ++ (p.signature.map Signature.text).getD ""

end RegisterTransfer
