import RegisterTransfer.Constant

/-!
Locations in an address space. The width of an address fixes the space: offsets wrap at its size.
-/
namespace RegisterTransfer

structure Address where
  value : Nat
  bits : Nat
deriving DecidableEq, Repr, Inhabited

inductive AddressError
  | invalidWidth (bits : Nat)
  | outOfRange (value bits : Nat)
deriving DecidableEq, Repr

def AddressError.message : AddressError → String
  | .invalidWidth bits => s!"bits must be 16, 32, or 64 (got {bits})"
  | .outOfRange value bits =>
    "value 0x" ++ Text.lowerHex value ++ s!" exceeds maximum for {bits}-bit address"

namespace Address

/-- The size of the space. Widths other than 16 and 32 count as 64. -/
def space : Nat → Nat
  | 16 => 0x10000
  | 32 => 0x100000000
  | _ => 0x10000000000000000

def isWidth (bits : Nat) : Bool := bits == 16 || bits == 32 || bits == 64

def Valid (a : Address) : Prop := isWidth a.bits ∧ a.value < space a.bits

instance (a : Address) : Decidable a.Valid := inferInstanceAs (Decidable (_ ∧ _))

def make (value bits : Nat) : Except AddressError Address :=
  if !isWidth bits then .error (.invalidWidth bits)
  else if space bits ≤ value then .error (.outOfRange value bits)
  else .ok ⟨value, bits⟩

def wrap (bits value : Nat) : Address := ⟨value % space bits, bits⟩

def ptr16 (value : Nat) : Address := wrap 16 value

def ptr32 (value : Nat) : Address := wrap 32 value

def ptr64 (value : Nat) : Address := wrap 64 value

def ofConstant (c : Constant) (bits : Nat) : Address := wrap bits c.toNat

def addOffset (a : Address) (offset : Int) : Address :=
  ⟨((a.value + offset) % (space a.bits : Int)).toNat, a.bits⟩

def text (a : Address) : String := Text.upperHex (a.bits / 4) a.value

instance : Ord Address where
  compare a b := (compare a.value b.value).then (compare a.bits b.bits)

def sort (addresses : List Address) : List Address :=
  addresses.mergeSort fun a b => (compare a b).isLE

theorem space_pos (bits : Nat) : 0 < space bits := by
  unfold space
  split <;> decide

theorem valid_wrap {bits : Nat} (h : isWidth bits) (n : Nat) : (wrap bits n).Valid :=
  ⟨h, Nat.mod_lt n (space_pos bits)⟩

@[simp] theorem addOffset_bits (a : Address) (offset : Int) : (a.addOffset offset).bits = a.bits :=
  rfl

theorem addOffset_value (a : Address) (offset : Int) :
    ((a.addOffset offset).value : Int) = (a.value + offset) % space a.bits :=
  Int.toNat_of_nonneg (Int.emod_nonneg _ (by have := space_pos a.bits; omega))

theorem valid_addOffset {a : Address} (h : isWidth a.bits) (n : Int) : (a.addOffset n).Valid := by
  refine ⟨h, ?_⟩
  have hspace := space_pos a.bits
  have hv := addOffset_value a n
  have hlt := Int.emod_lt_of_pos (a.value + n) (b := space a.bits) (by omega)
  rw [addOffset_bits]
  omega

theorem addOffset_addOffset (a : Address) (d e : Int) :
    (a.addOffset d).addOffset e = a.addOffset (d + e) := by
  have h := addOffset_value a d
  unfold addOffset at h ⊢
  simp only [Address.mk.injEq, and_true] at h ⊢
  rw [h, Int.emod_add_emod, Int.add_assoc]

end Address

end RegisterTransfer
