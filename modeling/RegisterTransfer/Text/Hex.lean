namespace RegisterTransfer.Text

def hexDigits (n : Nat) : List Char := (Nat.toDigits 16 n).map Char.toUpper

def upperHex (width n : Nat) : String := String.ofList ((hexDigits n).leftpad width '0')

def lowerHex (n : Nat) : String := String.ofList (Nat.toDigits 16 n)

def hexValue? (c : Char) : Option Nat :=
  if '0' ≤ c && c ≤ '9' then some (c.toNat - '0'.toNat)
  else if 'a' ≤ c && c ≤ 'f' then some (c.toNat - 'a'.toNat + 10)
  else if 'A' ≤ c && c ≤ 'F' then some (c.toNat - 'A'.toNat + 10)
  else none

theorem length_upperHex (width n : Nat) :
    (upperHex width n).length = max width (Nat.toDigits 16 n).length := by
  simp [upperHex, hexDigits, List.leftpad]
  omega

end RegisterTransfer.Text
