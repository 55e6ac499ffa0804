import RegisterTransfer.RegisterSet
import Mathlib.Data.List.Induction
import Mathlib.Tactic.Tauto

/-!
A set of register numbers answers some questions bit by bit and some from whole words. The answers
agree as long as no bit is set at or beyond the capacity (`Trimmed`), and edits keep it so.
-/

namespace RegisterTransfer.RegisterSet

theorem bit_of_word (s : RegisterSet) (k : Nat) {i : Nat} (hi : i < 64) :
    s.bit (64 * k + i) = (s.words[k]?.getD 0).getLsbD i := by
  have hq : (64 * k + i) / 64 = k := by omega
  have hr : (64 * k + i) % 64 = i := by omega
  rw [bit, hq, hr]

theorem ext_bit {s t : RegisterSet} (hc : s.capacity = t.capacity) (h : ∀ n, s.bit n = t.bit n) :
    s = t := by
  obtain ⟨capacity, words⟩ := s
  obtain ⟨_, others⟩ := t
  subst hc
  congr 1
  apply Vector.ext
  intro k hk
  apply BitVec.eq_of_getLsbD_eq
  intro i hi
  simpa only [bit_of_word _ k hi, Vector.getElem?_eq_getElem hk, Option.getD_some] using
    h (64 * k + i)

theorem isEmpty_iff_bit (s : RegisterSet) : s.isEmpty = true ↔ ∀ n, s.bit n = false := by
  constructor
  · intro h n
    unfold bit
    by_cases hk : n / 64 < (s.capacity + 63) / 64
    · have hw := eq_of_beq (Vector.all_eq_true.mp h (n / 64) hk)
      rw [Vector.getElem?_eq_getElem hk, Option.getD_some, hw]
      simp
    · simp [hk]
  · intro h
    have hs : s = empty s.capacity := ext_bit rfl fun n => (h n).trans (bit_empty _ n).symm
    rw [hs]
    simp [isEmpty, empty]

theorem toNat_cpop_eq_countP {width : Nat} (w : BitVec width) :
    w.cpop.toNat = (List.range width).countP w.getLsbD := by
  have h : ∀ n, w.cpopNatRec n 0 = (List.range n).countP w.getLsbD := by
    intro n
    induction n with
    | zero => rfl
    | succ n ih =>
      rw [BitVec.cpopNatRec_succ, BitVec.cpopNatRec_eq, ih, List.range_succ, List.countP_append,
        List.countP_singleton]
      cases w.getLsbD n <;> rfl
  rw [BitVec.toNat_cpop, h]

theorem countP_range_words (p : Nat → Bool) (k : Nat) :
    (List.range (64 * k)).countP p =
      (List.range k).foldl (fun n j => n + (List.range 64).countP fun i => p (64 * j + i)) 0 := by
  induction k with
  | zero => rfl
  | succ k ih =>
    rw [Nat.mul_succ, List.range_add, List.countP_append, ih, List.countP_map,
      List.range_succ (n := k), List.foldl_append]
    rfl

theorem size_eq_countP_bit (s : RegisterSet) :
    s.size = (List.range (64 * ((s.capacity + 63) / 64))).countP s.bit := by
  have hw : s.words.toList =
      (List.range ((s.capacity + 63) / 64)).map fun k => s.words[k]?.getD 0 := by
    apply List.ext_getElem
    · simp
    · intro k hk _
      have : k < (s.capacity + 63) / 64 := by simpa using hk
      simp [this]
  have hb : ∀ k, ((s.words[k]?.getD 0).cpop).toNat =
      (List.range 64).countP fun i => s.bit (64 * k + i) := by
    intro k
    rw [toNat_cpop_eq_countP]
    apply List.countP_congr
    intro i hi
    rw [bit_of_word s k (List.mem_range.mp hi)]
  rw [countP_range_words, size, ← Vector.foldl_toList, hw, List.foldl_map]
  simp only [hb]

def Trimmed (s : RegisterSet) : Prop := ∀ n, s.capacity ≤ n → s.bit n = false

namespace Trimmed

variable {s t : RegisterSet}

theorem contains_eq (hs : s.Trimmed) (n : Nat) : s.contains n = s.bit n := by
  rw [contains_eq_bit]
  by_cases h : n < s.capacity
  · simp [h]
  · simp [h, hs n (by omega)]

theorem size_eq_length (hs : s.Trimmed) : s.size = s.toList.length := by
  obtain ⟨r, hr⟩ : ∃ r, 64 * ((s.capacity + 63) / 64) = s.capacity + r :=
    Nat.exists_eq_add_of_le (by omega)
  have hbeyond : (List.range r).countP (s.bit ∘ (s.capacity + ·)) = 0 := by
    rw [List.countP_eq_zero]
    intro i _
    simp [hs (s.capacity + i) (by omega)]
  rw [size_eq_countP_bit, hr, List.range_add, List.countP_append, List.countP_map, hbeyond,
    toList, List.countP_eq_length_filter, Nat.add_zero, funext hs.contains_eq]

theorem isEmpty_iff (hs : s.Trimmed) : s.isEmpty = true ↔ s.size = 0 := by
  rw [isEmpty_iff_bit, hs.size_eq_length, List.length_eq_zero_iff, toList, List.filter_eq_nil_iff]
  constructor
  · intro h n _
    simp [hs.contains_eq, h]
  · intro h n
    by_cases hn : n < s.capacity
    · simpa [hs.contains_eq] using h n (List.mem_range.mpr hn)
    · exact hs n (by omega)

theorem eq_iff_contains (hs : s.Trimmed) (ht : t.Trimmed) (hc : s.capacity = t.capacity) :
    s = t ↔ ∀ n, s.contains n = t.contains n := by
  constructor
  · rintro rfl n
    rfl
  · intro h
    apply ext_bit hc
    intro n
    rw [← hs.contains_eq, ← ht.contains_eq, h]

end Trimmed

inductive Edit where
  | insert (n : Nat)
  | erase (n : Nat)
deriving DecidableEq, Repr

namespace Edit

def number : Edit → Nat
  | .insert n => n
  | .erase n => n

def inserts : Edit → Bool
  | .insert _ => true
  | .erase _ => false

def apply (s : RegisterSet) : Edit → RegisterSet
  | .insert n => s.insert n
  | .erase n => s.erase n

end Edit

def applyAll (s : RegisterSet) (edits : List Edit) : RegisterSet := edits.foldl Edit.apply s

def LastInserted (edits : List Edit) (n : Nat) : Prop :=
  ∃ earlier later, edits = earlier ++ .insert n :: later ∧ ∀ e ∈ later, e.number ≠ n

theorem apply_of_le (s : RegisterSet) (e : Edit) (h : s.capacity ≤ e.number) : e.apply s = s := by
  cases e with
  | insert n => exact dif_neg (Nat.not_lt.mpr h)
  | erase n => exact dif_neg (Nat.not_lt.mpr h)

@[simp] theorem capacity_apply (s : RegisterSet) (e : Edit) :
    (e.apply s).capacity = s.capacity := by
  cases e with
  | insert n => exact capacity_insert s n
  | erase n => exact capacity_erase s n

theorem bit_apply (s : RegisterSet) (e : Edit) (n : Nat) :
    (e.apply s).bit n = if n < s.capacity ∧ e.number = n then e.inserts else s.bit n := by
  cases e with
  | insert m =>
    change (s.insert m).bit n = _
    rw [bit_insert]
    by_cases h : m = n
    · subst h
      by_cases hm : m < s.capacity <;> simp [Edit.number, Edit.inserts, hm]
    · simp [Edit.number, h]
  | erase m =>
    change (s.erase m).bit n = _
    rw [bit_erase]
    by_cases h : m = n
    · subst h
      by_cases hm : m < s.capacity <;> simp [Edit.number, Edit.inserts, hm]
    · simp [Edit.number, h]

@[simp] theorem not_lastInserted_nil (n : Nat) : ¬ LastInserted [] n := by
  simp [LastInserted]

theorem lastInserted_concat (edits : List Edit) (e : Edit) (n : Nat) :
    LastInserted (edits ++ [e]) n ↔
      if e.number = n then e.inserts = true else LastInserted edits n := by
  constructor
  -- Either nothing comes after the insertion, or what comes last is another number.
  · rintro ⟨earlier, later, he, hl⟩
    obtain rfl | ⟨later, last, rfl⟩ := List.eq_nil_or_concat later
    · obtain ⟨-, rfl⟩ : edits = earlier ∧ e = .insert n := by simpa using he
      exact (if_pos rfl).mpr rfl
    · have hcut : edits ++ [e] = (earlier ++ .insert n :: later) ++ [last] := by simp [he]
      obtain ⟨rfl, rfl⟩ := List.append_singleton_inj.mp hcut
      rw [if_neg (hl e (by simp))]
      exact ⟨earlier, later, rfl, fun d hd => hl d (by simp [hd])⟩
  · intro h
    split at h
    next hn =>
      cases e with
      | insert m => exact ⟨edits, [], by rw [show m = n from hn], by simp⟩
      | erase m => cases h
    next hn =>
      obtain ⟨earlier, later, rfl, hl⟩ := h
      refine ⟨earlier, later ++ [e], by simp, ?_⟩
      intro d hd
      rcases List.mem_append.mp hd with hd | hd
      · exact hl d hd
      · rwa [List.mem_singleton.mp hd]

@[simp] theorem applyAll_concat (s : RegisterSet) (edits : List Edit) (e : Edit) :
    s.applyAll (edits ++ [e]) = e.apply (s.applyAll edits) := by
  simp [applyAll]

@[simp] theorem capacity_applyAll (s : RegisterSet) (edits : List Edit) :
    (s.applyAll edits).capacity = s.capacity := by
  induction edits using List.reverseRecOn with
  | nil => rfl
  | append_singleton edits e ih => rw [applyAll_concat, capacity_apply, ih]

theorem bit_applyAll_empty (capacity : Nat) (edits : List Edit) (n : Nat) :
    ((empty capacity).applyAll edits).bit n = true ↔ n < capacity ∧ LastInserted edits n := by
  induction edits using List.reverseRecOn with
  | nil => simp [applyAll]
  | append_singleton edits e ih =>
    have hc : ((empty capacity).applyAll edits).capacity = capacity := capacity_applyAll _ edits
    rw [applyAll_concat, bit_apply, lastInserted_concat, hc]
    by_cases he : e.number = n
    · by_cases hn : n < capacity <;> simp_all
    · simp [he, ih]

theorem trimmed_applyAll_empty (capacity : Nat) (edits : List Edit) :
    ((empty capacity).applyAll edits).Trimmed := by
  intro n hn
  have hc : ((empty capacity).applyAll edits).capacity = capacity := capacity_applyAll _ edits
  rw [Bool.eq_false_iff, Ne, bit_applyAll_empty]
  omega

/-- After any edits of an empty set, the members are the numbers below the capacity whose last edit
puts them in, and every way of asking for them agrees: one by one, as a list, by their number, and
by the words themselves. -/
theorem applyAll_empty_members (capacity : Nat) (edits : List Edit) :
    let s := (empty capacity).applyAll edits
    s.capacity = capacity ∧
    (∀ n, s.contains n = true ↔ n < capacity ∧ LastInserted edits n) ∧
    s.toList.Pairwise (· < ·) ∧
    (∀ n, n ∈ s.toList ↔ n < capacity ∧ LastInserted edits n) ∧
    s.size = s.toList.length ∧
    (s.isEmpty = true ↔ s.size = 0) ∧
    (∀ e : Edit, capacity ≤ e.number → e.apply s = s) ∧
    (∀ n, capacity ≤ n → s.bit n = false) ∧
    ∀ others : List Edit, let t := (empty capacity).applyAll others
      s = t ↔ ∀ n, s.contains n = t.contains n := by
  intro s
  have hs : s.Trimmed := trimmed_applyAll_empty capacity edits
  have hc : s.capacity = capacity := capacity_applyAll _ edits
  have hcontains : ∀ n, s.contains n = true ↔ n < capacity ∧ LastInserted edits n := by
    intro n
    rw [hs.contains_eq, bit_applyAll_empty]
  refine ⟨hc, hcontains, ?_, ?_, hs.size_eq_length, hs.isEmpty_iff, ?_, ?_, ?_⟩
  · exact List.pairwise_lt_range.filter _
  · intro n
    rw [toList, List.mem_filter, List.mem_range, hcontains, hc]
    tauto
  · intro e he
    exact apply_of_le s e (hc ▸ he)
  · intro n hn
    exact hs n (hc ▸ hn)
  · intro others t
    exact hs.eq_iff_contains (trimmed_applyAll_empty capacity others)
      (hc.trans (capacity_applyAll (empty capacity) others).symm)

theorem applyAll_empty_members_second_word :
    let s := (empty 70).applyAll [.insert 28, .insert 65, .insert 70, .erase 28]
    s.contains 65 = true ∧ s.contains 28 = false ∧ s.bit 70 = false ∧ s.toList = [65] ∧
      s ≠ (empty 70).applyAll [.insert 28] := by
  intro s
  obtain ⟨-, hcontains, -, -, -, -, -, hbeyond, heq⟩ :=
    applyAll_empty_members 70 [.insert 28, .insert 65, .insert 70, .erase 28]
  have hin : s.contains 65 = true :=
    (hcontains 65).mpr ⟨by decide, [.insert 28], [.insert 70, .erase 28], rfl, by decide⟩
  refine ⟨hin, by decide, hbeyond 70 (Nat.le_refl 70), by decide, ?_⟩
  intro hsame
  have hother := (heq [.insert 28]).mp hsame 65
  rw [hin] at hother
  revert hother
  decide

end RegisterTransfer.RegisterSet
