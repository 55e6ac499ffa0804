namespace RegisterTransfer.Text.Utf8

inductive Fault
  | invalid (length index : Nat)
  | incomplete (index : Nat)
deriving DecidableEq, Repr

def Fault.message : Fault → String
  | .invalid length index => s!"invalid utf-8 sequence of {length} bytes from index {index}"
  | .incomplete index => s!"incomplete utf-8 byte sequence from index {index}"

/-- A sequence of which `taken` bytes are read and `owed` are not; the next lies in `low..high`. -/
structure Pending where
  taken : Nat
  owed : Nat
  value : Nat
  low : Nat
  high : Nat

/-- The bounds of the second byte keep out overlong forms, surrogates and values past U+10FFFF. -/
def Pending.start (b : Nat) : Option Pending :=
  if 0xC2 ≤ b && b ≤ 0xDF then some ⟨1, 1, b - 0xC0, 0x80, 0xBF⟩
  else if b == 0xE0 then some ⟨1, 2, 0, 0xA0, 0xBF⟩
  else if b == 0xED then some ⟨1, 2, 0xD, 0x80, 0x9F⟩
  else if 0xE1 ≤ b && b ≤ 0xEF then some ⟨1, 2, b - 0xE0, 0x80, 0xBF⟩
  else if b == 0xF0 then some ⟨1, 3, 0, 0x90, 0xBF⟩
  else if b == 0xF4 then some ⟨1, 3, 4, 0x80, 0x8F⟩
  else if 0xF1 ≤ b && b ≤ 0xF3 then some ⟨1, 3, b - 0xF0, 0x80, 0xBF⟩
  else none

def Pending.accept (p : Pending) (b : Nat) : Pending :=
  ⟨p.taken + 1, p.owed - 1, p.value * 64 + (b - 0x80), 0x80, 0xBF⟩

def decodeFrom (index : Nat) (pending : Option Pending) : List UInt8 → Except Fault (List Char)
  | [] =>
    match pending with
    | none => .ok []
    | some p => .error (.incomplete (index - p.taken))
  | byte :: rest =>
    let b := byte.toNat
    match pending with
    | none =>
      if b < 0x80 then (decodeFrom (index + 1) none rest).map (Char.ofNat b :: ·)
      else
        match Pending.start b with
        | none => .error (.invalid 1 index)
        | some p => decodeFrom (index + 1) (some p) rest
    | some p =>
      if p.low ≤ b && b ≤ p.high then
        let q := p.accept b
        if q.owed = 0 then (decodeFrom (index + 1) none rest).map (Char.ofNat q.value :: ·)
        else decodeFrom (index + 1) (some q) rest
      else .error (.invalid p.taken (index - p.taken))

def decode (bytes : List UInt8) : Except Fault (List Char) := decodeFrom 0 none bytes

def begin (b : Nat) : List (Option Char) × Option Pending :=
  if b < 0x80 then ([some (Char.ofNat b)], none)
  else
    match Pending.start b with
    | none => ([none], none)
    | some p => ([], some p)

def resume (pending : Option Pending) (b : Nat) : List (Option Char) × Option Pending :=
  match pending with
  | none => begin b
  | some p =>
    if p.low ≤ b && b ≤ p.high then
      let q := p.accept b
      if q.owed = 0 then ([some (Char.ofNat q.value)], none) else ([], some q)
    else (none :: (begin b).1, (begin b).2)

def symbolsFrom (pending : Option Pending) : List UInt8 → List (Option Char)
  | [] => if pending.isSome then [none] else []
  | byte :: rest =>
    let (symbols, next) := resume pending byte.toNat
    symbols ++ symbolsFrom next rest

def symbols (bytes : List UInt8) : List (Option Char) := symbolsFrom none bytes

end RegisterTransfer.Text.Utf8
