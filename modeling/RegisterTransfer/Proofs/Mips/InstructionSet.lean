import RegisterTransfer.Proofs.Mips.Machine

/-!
The MIPS32 integer instructions by their words: what a word does to the registers and to memory, and
where a transfer of control leads. Traps on overflow are left out.
-/

namespace RegisterTransfer.Mips

variable {M : Type}

def ofDecision (p : Prop) [Decidable p] : BitVec 32 := if p then 1 else 0

namespace Machine

def hi (s : Machine M) : BitVec 32 := s.registers HiLo.hi.register.number

def lo (s : Machine M) : BitVec 32 := s.registers HiLo.lo.register.number

def setProduct (s : Machine M) (low high : BitVec 32) : Machine M :=
  (s.put HiLo.lo.register.number low).put HiLo.hi.register.number high

end Machine

def specialEffect (w : BitVec 32) (s : Machine M) : Machine M :=
  let rs := s.registers (gprField w 21)
  let rt := s.registers (gprField w 16)
  let rd := gprField w 11
  let amount := (field w 6 5).toNat
  match (field w 0 6).toNat with
  | 0x00 => s.set rd (rt <<< amount)
  | 0x02 => s.set rd (rt >>> amount)
  | 0x03 => s.set rd (rt.sshiftRight amount)
  | 0x04 => s.set rd (rt <<< (rs.toNat % 32))
  | 0x06 => s.set rd (rt >>> (rs.toNat % 32))
  | 0x07 => s.set rd (rt.sshiftRight (rs.toNat % 32))
  | 0x10 => s.set rd s.hi
  | 0x11 => s.put HiLo.hi.register.number rs
  | 0x12 => s.set rd s.lo
  | 0x13 => s.put HiLo.lo.register.number rs
  | 0x18 =>
    let product := rs.signExtend 64 * rt.signExtend 64
    s.setProduct (product.extractLsb' 0 32) (product.extractLsb' 32 32)
  | 0x19 =>
    let product := rs.setWidth 64 * rt.setWidth 64
    s.setProduct (product.extractLsb' 0 32) (product.extractLsb' 32 32)
  | 0x1A =>
    s.setProduct (.ofInt 32 (rs.toInt.tdiv rt.toInt)) (.ofInt 32 (rs.toInt.tmod rt.toInt))
  | 0x1B => s.setProduct (.ofNat 32 (rs.toNat / rt.toNat)) (.ofNat 32 (rs.toNat % rt.toNat))
  | 0x20 | 0x21 => s.set rd (rs + rt)
  | 0x22 | 0x23 => s.set rd (rs - rt)
  | 0x24 => s.set rd (rs &&& rt)
  | 0x25 => s.set rd (rs ||| rt)
  | 0x26 => s.set rd (rs ^^^ rt)
  | 0x27 => s.set rd (~~~(rs ||| rt))
  | 0x2A => s.set rd (ofDecision (rs.toInt < rt.toInt))
  | 0x2B => s.set rd (ofDecision (rs.toNat < rt.toNat))
  | _ => s

/-- Transfers of control, and words without a meaning, leave the machine as it is. -/
def effect (e : Surroundings M) (w : BitVec 32) (s : Machine M) : Machine M :=
  let rs := s.registers (gprField w 21)
  let rt := gprField w 16
  let value := s.registers rt
  let signed := (field w 0 16).signExtend 32
  let unsigned := (field w 0 16).setWidth 32
  let location := rs + signed
  match (field w 26 6).toNat with
  | 0x00 => specialEffect w s
  | 0x08 | 0x09 => s.set rt (rs + signed)
  | 0x0A => s.set rt (ofDecision (rs.toInt < signed.toInt))
  | 0x0B => s.set rt (ofDecision (rs.toNat < signed.toNat))
  | 0x0C => s.set rt (rs &&& unsigned)
  | 0x0D => s.set rt (rs ||| unsigned)
  | 0x0E => s.set rt (rs ^^^ unsigned)
  | 0x0F => s.set rt (unsigned <<< 16)
  | 0x20 => s.set rt ((e.load s.memory location 8).signExtend 32)
  | 0x21 => s.set rt ((e.load s.memory location 16).signExtend 32)
  | 0x23 => s.set rt (e.load s.memory location 32)
  | 0x24 => s.set rt ((e.load s.memory location 8).setWidth 32)
  | 0x25 => s.set rt ((e.load s.memory location 16).setWidth 32)
  | 0x28 => { s with memory := e.store s.memory location 8 (value.setWidth 8) }
  | 0x29 => { s with memory := e.store s.memory location 16 (value.setWidth 16) }
  | 0x2B => { s with memory := e.store s.memory location 32 value }
  | _ => s

structure Departure where
  taken : Bool
  target : BitVec 32
deriving DecidableEq, Repr

def departure (pc w : BitVec 32) (s : Machine M) : Option Departure :=
  let rs := s.registers (gprField w 21)
  let rt := s.registers (gprField w 16)
  let relative := pc + 4 + 4 * (field w 0 16).signExtend 32
  let absolute := (pc + 4).extractLsb' 28 4 ++ field w 0 26 ++ 0#2
  match (field w 26 6).toNat with
  | 0x00 =>
    match (field w 0 6).toNat with
    | 0x08 | 0x09 => some ⟨true, rs⟩
    | _ => none
  | 0x01 =>
    match (field w 16 5).toNat with
    | 0x00 | 0x10 => some ⟨rs.toInt < 0, relative⟩
    | 0x01 | 0x11 => some ⟨0 ≤ rs.toInt, relative⟩
    | _ => none
  | 0x02 | 0x03 => some ⟨true, absolute⟩
  | 0x04 => some ⟨rs = rt, relative⟩
  | 0x05 => some ⟨rs ≠ rt, relative⟩
  | 0x06 => some ⟨rs.toInt ≤ 0, relative⟩
  | 0x07 => some ⟨0 < rs.toInt, relative⟩
  | _ => none

end RegisterTransfer.Mips
