namespace RegisterTransfer.Text

def digit? (c : Char) : Option Nat :=
  if '0' ≤ c && c ≤ '9' then some (c.toNat - '0'.toNat) else none

def digitsOnto (n : Nat) : List Char → Option Nat
  | [] => some n
  | c :: rest => (digit? c).bind fun d => digitsOnto (10 * n + d) rest

def natural? (s : List Char) : Option Nat := if s.isEmpty then none else digitsOnto 0 s

def signed? : List Char → Option Int
  | '+' :: s => (natural? s).map Int.ofNat
  | '-' :: s => (natural? s).map fun n => -Int.ofNat n
  | s => (natural? s).map Int.ofNat

def isInt32 (n : Int) : Bool := -0x80000000 ≤ n && n < 0x80000000

def int32? (s : List Char) : Option Int := (signed? s).filter isInt32

end RegisterTransfer.Text
