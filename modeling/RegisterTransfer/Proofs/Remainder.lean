import Mathlib.Algebra.Group.Nat.Defs
import RegisterTransfer.Proofs.Decoding

namespace RegisterTransfer

theorem toNat_append_eq {m n : Nat} (x : BitVec m) (y : BitVec n) :
    (x ++ y).toNat = x.toNat * 2 ^ n + y.toNat := by
  rw [BitVec.toNat_append, ← Nat.shiftLeft_add_eq_or_of_lt y.isLt, Nat.shiftLeft_eq]

theorem littleEndian_injective {xs ys : List UInt8} (hlen : xs.length = ys.length)
    (h : littleEndian xs = littleEndian ys) : xs = ys := by
  induction xs generalizing ys with
  | nil => exact (List.length_eq_zero_iff.mp hlen.symm).symm
  | cons x xs ih =>
    cases ys with
    | nil => cases hlen
    | cons y ys =>
      have hx := x.toNat_lt
      have hy := y.toNat_lt
      rw [littleEndian, littleEndian] at h
      have hfirst : x.toNat = y.toNat := by omega
      have hrest : littleEndian xs = littleEndian ys := by omega
      rw [UInt8.toNat_inj.mp hfirst, ih (Nat.succ.inj hlen) hrest]

theorem littleEndian_lt (bytes : List UInt8) : littleEndian bytes < 256 ^ bytes.length := by
  induction bytes with
  | nil => decide
  | cons b rest ih =>
    have hb := b.toNat_lt
    rw [littleEndian, List.length_cons, Nat.pow_succ]
    omega

namespace ByteOrder

theorem number_injective (order : ByteOrder) {xs ys : List UInt8} (hlen : xs.length = ys.length)
    (h : order.number xs = order.number ys) : xs = ys := by
  cases order with
  | little => exact littleEndian_injective hlen h
  | big =>
    have hreversed : xs.reverse = ys.reverse := littleEndian_injective (by simpa using hlen) h
    exact List.reverse_inj.mp hreversed

theorem number_lt (order : ByteOrder) (bytes : List UInt8) :
    order.number bytes < 256 ^ bytes.length := by
  cases order with
  | little => exact littleEndian_lt bytes
  | big =>
    have h := littleEndian_lt bytes.reverse
    rwa [List.length_reverse] at h

end ByteOrder

namespace Cursor
variable {c : Cursor} {delta length : Nat} {bytes : List UInt8}

def rest (c : Cursor) : List UInt8 := c.image.bytes.drop c.offset

theorem length_rest (c : Cursor) : c.rest.length = c.remaining := List.length_drop

theorem peekBytes_eq_ok_iff (hs : c.image.size ≤ maxOffset) (hlen : 0 < length) :
    c.peekBytes delta length = .ok bytes ↔
      bytes.length = length ∧ bytes <+: c.rest.drop delta := by
  have hrest : c.rest.drop delta = c.image.bytes.drop (c.offset + delta) := List.drop_drop
  unfold peekBytes
  simp only
  rw [hrest]
  unfold Image.size at hs ⊢
  constructor
  · intro h
    split at h
    · rename_i hfits
      have hstart : min (c.offset + delta) maxOffset = c.offset + delta := by omega
      cases h
      rw [hstart] at hfits ⊢
      refine ⟨?_, List.take_prefix _ _⟩
      rw [List.length_take, List.length_drop]
      omega
    · cases h
  · rintro ⟨rfl, hprefix⟩
    have hle := hprefix.length_le
    rw [List.length_drop] at hle
    have hstart : min (c.offset + delta) maxOffset = c.offset + delta := by omega
    rw [hstart, if_pos (by omega), ← List.prefix_iff_eq_take.mp hprefix]

theorem peekNumber_eq_ok_iff {n : Nat} (hs : c.image.size ≤ maxOffset) (hlen : 0 < length) :
    c.peekNumber delta length = .ok n ↔
      ∃ bytes : List UInt8, bytes.length = length ∧ bytes <+: c.rest.drop delta ∧
        c.byteOrder.number bytes = n := by
  unfold peekNumber
  rw [map_eq_ok_iff]
  simp only [peekBytes_eq_ok_iff hs hlen, and_assoc]

theorem peek8_zero_eq_ok_iff {b : UInt8} (hs : c.image.size ≤ maxOffset) :
    c.peek8 0 = .ok b.toBitVec ↔ c.rest.head? = some b := by
  have hnumber : ∀ x : UInt8, c.byteOrder.number [x] = x.toNat := by
    intro x
    cases c.byteOrder <;> rfl
  unfold peek8
  rw [map_eq_ok_iff]
  simp only [peekNumber_eq_ok_iff hs Nat.one_pos, List.drop_zero]
  constructor
  · rintro ⟨_, ⟨bytes, hlen, ⟨tail, htail⟩, rfl⟩, hb⟩
    obtain ⟨x, rfl⟩ := List.length_eq_one_iff.mp hlen
    rw [hnumber, ← UInt8.toNat_toBitVec, BitVec.ofNat_toNat, BitVec.setWidth_eq] at hb
    rw [← htail, UInt8.toBitVec_inj.mp hb]
    rfl
  · intro h
    obtain ⟨tail, htail⟩ := List.head?_eq_some_iff.mp h
    have hprefix : [b] <+: c.rest := by
      rw [htail]
      exact List.prefix_append [b] tail
    exact ⟨_, ⟨[b], rfl, hprefix, hnumber b⟩, BitVec.ofNat_toNat 8 b.toBitVec⟩

theorem map_peekNumber_zero_eq_ok_iff {w : Nat} {x : BitVec w} (hs : c.image.size ≤ maxOffset)
    (hlen : 0 < length) :
    (c.peekNumber 0 length).map (BitVec.ofNat w) = .ok x ↔
      ∃ bytes : List UInt8, bytes.length = length ∧ bytes <+: c.rest ∧
        .ofNat w (c.byteOrder.number bytes) = x := by
  rw [map_eq_ok_iff]
  simp only [peekNumber_eq_ok_iff hs hlen, List.drop_zero]
  constructor
  · rintro ⟨_, ⟨bytes, hbytes, hprefix, rfl⟩, hx⟩
    exact ⟨bytes, hbytes, hprefix, hx⟩
  · rintro ⟨bytes, hbytes, hprefix, hx⟩
    exact ⟨_, ⟨bytes, hbytes, hprefix, rfl⟩, hx⟩

theorem peek16_zero_eq_ok_iff {x : BitVec 16} (hs : c.image.size ≤ maxOffset) :
    c.peek16 0 = .ok x ↔
      ∃ bytes : List UInt8, bytes.length = 2 ∧ bytes <+: c.rest ∧
        .ofNat 16 (c.byteOrder.number bytes) = x :=
  map_peekNumber_zero_eq_ok_iff hs Nat.two_pos

theorem peek32_zero_eq_ok_iff {w : BitVec 32} (hs : c.image.size ≤ maxOffset) :
    c.peek32 0 = .ok w ↔
      ∃ bytes : List UInt8, bytes.length = 4 ∧ bytes <+: c.rest ∧
        .ofNat 32 (c.byteOrder.number bytes) = w :=
  map_peekNumber_zero_eq_ok_iff hs (Nat.succ_pos 3)

end Cursor

end RegisterTransfer
