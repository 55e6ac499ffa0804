import RegisterTransfer.Text.Hex

namespace RegisterTransfer.Json

abbrev Source := List (Option Char)

namespace Literal

inductive Piece
  | char (c : Char)
  | half (unit : Nat)
  | stray
deriving DecidableEq, Repr

def hexUnit? (a b c d : Char) : Option Nat := do
  let a ← Text.hexValue? a
  let b ← Text.hexValue? b
  let c ← Text.hexValue? c
  let d ← Text.hexValue? d
  return ((a * 16 + b) * 16 + c) * 16 + d

def isHighSurrogate (u : Nat) : Bool := 0xD800 ≤ u && u < 0xDC00

def isLowSurrogate (u : Nat) : Bool := 0xDC00 ≤ u && u < 0xE000

def ofSurrogates (high low : Nat) : Char :=
  Char.ofNat (0x10000 + (high - 0xD800) * 0x400 + (low - 0xDC00))

def Piece.ofUnit (u : Nat) : Piece :=
  if isHighSurrogate u || isLowSurrogate u then .half u else .char (Char.ofNat u)

def escaped? : Char → Option Char
  | '"' => some '"'
  | '\\' => some '\\'
  | '/' => some '/'
  | 'b' => some '\x08'
  | 'f' => some '\x0c'
  | 'n' => some '\n'
  | 'r' => some '\r'
  | 't' => some '\t'
  | _ => none

def consTo (p : Piece) (read : List Piece × Source) : List Piece × Source := (p :: read.1, read.2)

def pieces? : Source → Option (List Piece × Source)
  | some '\\' :: some 'u' :: some a :: some b :: some c :: some d :: rest =>
    (hexUnit? a b c d).bind fun u => (pieces? rest).map (consTo (.ofUnit u))
  | some '\\' :: some c :: rest =>
    (escaped? c).bind fun e => (pieces? rest).map (consTo (.char e))
  | some '\\' :: _ => none
  | some '"' :: rest => some ([], rest)
  | some c :: rest => if c < ' ' then none else (pieces? rest).map (consTo (.char c))
  | none :: rest => (pieces? rest).map (consTo .stray)
  | [] => none

def textOf? : List Piece → Option (List Char)
  | [] => some []
  | .char c :: rest => (textOf? rest).map (c :: ·)
  | .half high :: .half low :: rest =>
    if isHighSurrogate high && isLowSurrogate low then
      (textOf? rest).map (ofSurrogates high low :: ·)
    else none
  | _ => none

end Literal

end RegisterTransfer.Json
