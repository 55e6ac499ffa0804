import RegisterTransfer.Address

/-!
Bytes mapped at a base address, and the cursor that reads them. A read that succeeds moves the
cursor past the bytes it delivers; one that fails leaves it in place.
-/
namespace RegisterTransfer

inductive ByteOrder
  | little | big
deriving DecidableEq, Repr

inductive ImageError
  | outsideImage (address : Address)
  | pastEnd (address : Address) (length : Nat)
deriving DecidableEq, Repr

def ImageError.message : ImageError → String
  | .outsideImage address => "address " ++ address.text ++ " is outside the image"
  | .pastEnd address length =>
    s!"read of {length} bytes at " ++ address.text ++ " runs past end of image"

structure Image where
  base : Address
  bytes : List UInt8
deriving DecidableEq, Repr

structure Cursor where
  image : Image
  offset : Nat
  byteOrder : ByteOrder
deriving DecidableEq, Repr

namespace Image

def size (image : Image) : Nat := image.bytes.length

def contains (image : Image) (a : Address) : Bool :=
  image.base.value ≤ a.value && a.value - image.base.value < image.size

/-- One past the last byte is a position as well. -/
def cursorAt (image : Image) (a : Address) (order : ByteOrder) : Except ImageError Cursor :=
  if a.value < image.base.value ∨ image.size < a.value - image.base.value then
    .error (.outsideImage a)
  else .ok ⟨image, a.value - image.base.value, order⟩

end Image

def littleEndian : List UInt8 → Nat
  | [] => 0
  | b :: rest => b.toNat + 256 * littleEndian rest

def ByteOrder.number (order : ByteOrder) (bytes : List UInt8) : Nat :=
  match order with
  | .little => littleEndian bytes
  | .big => littleEndian bytes.reverse

namespace Cursor

def address (c : Cursor) : Address := c.image.base.addOffset c.offset

def remaining (c : Cursor) : Nat := c.image.size - c.offset

def isAtEnd (c : Cursor) : Bool := c.remaining == 0

/-- Offsets past the largest 64-bit number count as that number. -/
def maxOffset : Nat := 0xFFFFFFFFFFFFFFFF

def peekBytes (c : Cursor) (delta length : Nat) : Except ImageError (List UInt8) :=
  let start := min (c.offset + delta) maxOffset
  if start + length ≤ c.image.size then .ok ((c.image.bytes.drop start).take length)
  else .error (.pastEnd (c.image.base.addOffset start) length)

def peekNumber (c : Cursor) (delta length : Nat) : Except ImageError Nat :=
  (c.peekBytes delta length).map c.byteOrder.number

def peek8 (c : Cursor) (delta : Nat) : Except ImageError (BitVec 8) :=
  (c.peekNumber delta 1).map (BitVec.ofNat 8)

def peek16 (c : Cursor) (delta : Nat) : Except ImageError (BitVec 16) :=
  (c.peekNumber delta 2).map (BitVec.ofNat 16)

def peek32 (c : Cursor) (delta : Nat) : Except ImageError (BitVec 32) :=
  (c.peekNumber delta 4).map (BitVec.ofNat 32)

def advance (c : Cursor) (length : Nat) : Cursor := { c with offset := c.offset + length }

def reading {α : Type} (c : Cursor) (length : Nat) (delivered : Except ImageError α) :
    Except ImageError α × Cursor :=
  match delivered with
  | .ok x => (.ok x, c.advance length)
  | .error e => (.error e, c)

def readBytes (c : Cursor) (length : Nat) : Except ImageError (List UInt8) × Cursor :=
  c.reading length (c.peekBytes 0 length)

def read8 (c : Cursor) : Except ImageError (BitVec 8) × Cursor := c.reading 1 (c.peek8 0)

def read16 (c : Cursor) : Except ImageError (BitVec 16) × Cursor := c.reading 2 (c.peek16 0)

def read32 (c : Cursor) : Except ImageError (BitVec 32) × Cursor := c.reading 4 (c.peek32 0)

end Cursor

end RegisterTransfer
