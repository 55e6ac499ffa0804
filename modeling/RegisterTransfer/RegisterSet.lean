/-!
Sets of register numbers below a capacity, packed into words of 64 bits. Numbers at or above the
capacity are left out.
-/
namespace RegisterTransfer

/-- The number `n` is the bit `n % 64` of the word `n / 64`. -/
structure RegisterSet where
  capacity : Nat
  words : Vector (BitVec 64) ((capacity + 63) / 64)
deriving DecidableEq

namespace RegisterSet

def empty (capacity : Nat) : RegisterSet := ⟨capacity, .replicate _ 0⟩

def mask (n : Nat) : BitVec 64 := .twoPow 64 (n % 64)

def contains (s : RegisterSet) (n : Nat) : Bool :=
  if h : n < s.capacity then s.words[n / 64] &&& mask n != 0 else false

def insert (s : RegisterSet) (n : Nat) : RegisterSet :=
  if h : n < s.capacity then
    { s with words := s.words.set (n / 64) (s.words[n / 64] ||| mask n) }
  else s

def erase (s : RegisterSet) (n : Nat) : RegisterSet :=
  if h : n < s.capacity then
    { s with words := s.words.set (n / 64) (s.words[n / 64] &&& ~~~mask n) }
  else s

def toList (s : RegisterSet) : List Nat := (List.range s.capacity).filter s.contains

def size (s : RegisterSet) : Nat := s.words.foldl (fun n w => n + w.cpop.toNat) 0

def isEmpty (s : RegisterSet) : Bool := s.words.all (· == 0)

def bit (s : RegisterSet) (n : Nat) : Bool := (s.words[n / 64]?.getD 0).getLsbD (n % 64)

@[simp] theorem capacity_insert (s : RegisterSet) (n : Nat) :
    (s.insert n).capacity = s.capacity := by
  unfold insert
  split <;> rfl

@[simp] theorem capacity_erase (s : RegisterSet) (n : Nat) : (s.erase n).capacity = s.capacity := by
  unfold erase
  split <;> rfl

theorem getLsbD_mask {n m : Nat} (h : n / 64 = m / 64) : (mask n).getLsbD (m % 64) = (n == m) := by
  rw [mask, BitVec.getLsbD_twoPow, Bool.eq_iff_iff]
  simp only [Bool.and_eq_true, decide_eq_true_eq, beq_iff_eq]
  omega

theorem and_mask_ne_zero (w : BitVec 64) (n : Nat) : (w &&& mask n != 0) = w.getLsbD (n % 64) := by
  have hm : mask n ≠ 0 := by
    intro h
    have := getLsbD_mask (n := n) rfl
    simp [h] at this
  have hw : w &&& mask n = if w.getLsbD (n % 64) then mask n else 0 := BitVec.and_twoPow w _
  rw [hw]
  split
  next h => simpa [h] using hm
  next h => simpa using h

theorem bit_eq_getLsbD (s : RegisterSet) (n : Nat) (h : n / 64 < (s.capacity + 63) / 64) :
    s.bit n = s.words[n / 64].getLsbD (n % 64) := by
  rw [bit, Vector.getElem?_eq_getElem h, Option.getD_some]

theorem contains_eq_bit (s : RegisterSet) (n : Nat) :
    s.contains n = (decide (n < s.capacity) && s.bit n) := by
  unfold contains
  split
  next h =>
    rw [and_mask_ne_zero, bit_eq_getLsbD s n (by omega)]
    simp [h]
  next h => simp [h]

@[simp] theorem bit_empty (capacity n : Nat) : (empty capacity).bit n = false := by
  unfold bit empty
  by_cases h : n / 64 < (capacity + 63) / 64 <;> simp [h]

theorem bit_set (s : RegisterSet) (k : Nat) (hk : k < (s.capacity + 63) / 64) (w : BitVec 64)
    (m : Nat) :
    ({ s with words := s.words.set k w } : RegisterSet).bit m =
      if k = m / 64 then w.getLsbD (m % 64) else s.bit m := by
  unfold bit
  simp only [Vector.getElem?_set]
  split
  next h => rfl
  next h => rfl

theorem bit_insert (s : RegisterSet) (n m : Nat) :
    (s.insert n).bit m = (s.bit m || (decide (n < s.capacity) && n == m)) := by
  unfold insert
  split
  next h =>
    rw [bit_set s (n / 64) (by omega)]
    split
    next hw =>
      rw [BitVec.getLsbD_or, getLsbD_mask hw, bit_eq_getLsbD s m (by omega)]
      simp [hw, h]
    next hw =>
      have hn : n ≠ m := by rintro rfl; exact hw rfl
      simp [hn]
  next h => simp [h]

theorem bit_erase (s : RegisterSet) (n m : Nat) :
    (s.erase n).bit m = (s.bit m && !(decide (n < s.capacity) && n == m)) := by
  have hm : m % 64 < 64 := Nat.mod_lt m (by decide)
  unfold erase
  split
  next h =>
    rw [bit_set s (n / 64) (by omega)]
    split
    next hw =>
      rw [BitVec.getLsbD_and, BitVec.getLsbD_not, getLsbD_mask hw, bit_eq_getLsbD s m (by omega)]
      simp [hw, h, hm]
    next hw =>
      have hn : n ≠ m := by rintro rfl; exact hw rfl
      simp [hn]
  next h => simp [h]

end RegisterSet
end RegisterTransfer
