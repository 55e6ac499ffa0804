import Mathlib.Tactic.SplitIfs
import RegisterTransfer.Text.Utf8

namespace RegisterTransfer.Text.Utf8

theorem toNat_ofNat_mod_add {size tag : Nat} (n : Nat) (hsize : 0 < size) (h : size + tag ≤ 256) :
    (UInt8.ofNat (n % size + tag)).toNat = n % size + tag := by
  have hlt : n % size < size := Nat.mod_lt n hsize
  rw [UInt8.toNat_ofNat']
  exact Nat.mod_eq_of_lt (by omega)

theorem toNat_tail (n : Nat) : (UInt8.ofNat (n % 0x40 + 0x80)).toNat = n % 0x40 + 0x80 :=
  toNat_ofNat_mod_add n (by decide) (by decide)

namespace Pending

theorem start_two {b : Nat} (hlow : 0xC2 ≤ b) (hhigh : b ≤ 0xDF) :
    start b = some ⟨1, 1, b - 0xC0, 0x80, 0xBF⟩ := by
  simp [start, hlow, hhigh]

theorem start_three {b : Nat} (hlow : 0xE0 ≤ b) (hhigh : b ≤ 0xEF) :
    start b = some ⟨1, 2, b - 0xE0, if b = 0xE0 then 0xA0 else 0x80,
      if b = 0xED then 0x9F else 0xBF⟩ := by
  unfold start
  simp only [Bool.and_eq_true, decide_eq_true_eq, beq_iff_eq]
  split_ifs <;> first | omega | simp_all

theorem start_four {b : Nat} (hlow : 0xF0 ≤ b) (hhigh : b ≤ 0xF4) :
    start b = some ⟨1, 3, b - 0xF0, if b = 0xF0 then 0x90 else 0x80,
      if b = 0xF4 then 0x8F else 0xBF⟩ := by
  unfold start
  simp only [Bool.and_eq_true, decide_eq_true_eq, beq_iff_eq]
  split_ifs <;> first | omega | simp_all

end Pending

section
variable {index : Nat} {rest : List UInt8} {p : Pending}

theorem decodeFrom_lead {size tag n : Nat} (hsize : 0 < size) (htag : 0x80 ≤ tag)
    (h : size + tag ≤ 256) (hp : Pending.start (n % size + tag) = some p) :
    decodeFrom index none (UInt8.ofNat (n % size + tag) :: rest) =
      decodeFrom (index + 1) (some p) rest := by
  have hascii : ¬n % size + tag < 0x80 := by omega
  simp only [decodeFrom, toNat_ofNat_mod_add n hsize h, hascii, hp, if_false]

theorem decodeFrom_tail {n : Nat} (hlow : p.low ≤ n % 0x40 + 0x80)
    (hhigh : n % 0x40 + 0x80 ≤ p.high) (howed : 1 < p.owed) :
    decodeFrom index (some p) (UInt8.ofNat (n % 0x40 + 0x80) :: rest) =
      decodeFrom (index + 1)
        (some ⟨p.taken + 1, p.owed - 1, p.value * 64 + n % 0x40, 0x80, 0xBF⟩) rest := by
  have hleft : p.owed - 1 ≠ 0 := Nat.sub_ne_zero_of_lt howed
  simp only [decodeFrom, toNat_tail, Pending.accept, hlow, hhigh, hleft, decide_true,
    Bool.and_true, if_true, if_false, Nat.add_sub_cancel]

theorem decodeFrom_last {n : Nat} (hlow : p.low ≤ n % 0x40 + 0x80)
    (hhigh : n % 0x40 + 0x80 ≤ p.high) (howed : p.owed = 1) :
    decodeFrom index (some p) (UInt8.ofNat (n % 0x40 + 0x80) :: rest) =
      (decodeFrom (index + 1) none rest).map (Char.ofNat (p.value * 64 + n % 0x40) :: ·) := by
  simp only [decodeFrom, toNat_tail, Pending.accept, hlow, hhigh, howed, decide_true,
    Bool.and_true, if_true, Nat.sub_self, Nat.add_sub_cancel]

end

section
variable {c : Char} {index : Nat} {rest : List UInt8}

theorem decodeFrom_code_one (h : c.toNat ≤ 0x7F) :
    decodeFrom index none (UInt8.ofNat c.toNat :: rest) =
      (decodeFrom (index + 1) none rest).map (c :: ·) := by
  have hbyte : (UInt8.ofNat c.toNat).toNat = c.toNat := by
    rw [UInt8.toNat_ofNat']
    exact Nat.mod_eq_of_lt (by omega)
  have hascii : c.toNat < 0x80 := by omega
  simp only [decodeFrom, hbyte, hascii, if_true, Char.ofNat_toNat]

theorem decodeFrom_code_two (hlow : 0x7F < c.toNat) (hhigh : c.toNat ≤ 0x7FF) :
    decodeFrom index none (UInt8.ofNat (c.toNat / 64 % 0x20 + 0xC0) ::
        UInt8.ofNat (c.toNat % 0x40 + 0x80) :: rest) =
      (decodeFrom (index + 2) none rest).map (c :: ·) := by
  have hvalue : (c.toNat / 64 % 0x20 + 0xC0 - 0xC0) * 64 + c.toNat % 0x40 = c.toNat := by omega
  rw [decodeFrom_lead (by decide) (by decide) (by decide)
      (Pending.start_two (by omega) (by omega)),
    decodeFrom_last (by dsimp only; omega) (by dsimp only; omega) rfl, hvalue, Char.ofNat_toNat]

theorem decodeFrom_code_three (hlow : 0x7FF < c.toNat) (hhigh : c.toNat ≤ 0xFFFF) :
    decodeFrom index none (UInt8.ofNat (c.toNat / 4096 % 0x10 + 0xE0) ::
        UInt8.ofNat (c.toNat / 64 % 0x40 + 0x80) :: UInt8.ofNat (c.toNat % 0x40 + 0x80) :: rest) =
      (decodeFrom (index + 3) none rest).map (c :: ·) := by
  have hvalid : c.toNat < 0xD800 ∨ 0xDFFF < c.toNat ∧ c.toNat < 0x110000 := c.valid
  have hvalue : ((c.toNat / 4096 % 0x10 + 0xE0 - 0xE0) * 64 + c.toNat / 64 % 0x40) * 64 +
      c.toNat % 0x40 = c.toNat := by
    omega
  rw [decodeFrom_lead (by decide) (by decide) (by decide)
      (Pending.start_three (by omega) (by omega)),
    decodeFrom_tail (by dsimp only; split_ifs <;> omega) (by dsimp only; split_ifs <;> omega)
      Nat.one_lt_two,
    decodeFrom_last (by dsimp only; omega) (by dsimp only; omega) rfl, hvalue, Char.ofNat_toNat]

theorem decodeFrom_code_four (hlow : 0xFFFF < c.toNat) :
    decodeFrom index none (UInt8.ofNat (c.toNat / 262144 % 0x08 + 0xF0) ::
        UInt8.ofNat (c.toNat / 4096 % 0x40 + 0x80) :: UInt8.ofNat (c.toNat / 64 % 0x40 + 0x80) ::
        UInt8.ofNat (c.toNat % 0x40 + 0x80) :: rest) =
      (decodeFrom (index + 4) none rest).map (c :: ·) := by
  have hvalid : c.toNat < 0xD800 ∨ 0xDFFF < c.toNat ∧ c.toNat < 0x110000 := c.valid
  have hvalue : (((c.toNat / 262144 % 0x08 + 0xF0 - 0xF0) * 64 + c.toNat / 4096 % 0x40) * 64 +
      c.toNat / 64 % 0x40) * 64 + c.toNat % 0x40 = c.toNat := by
    omega
  rw [decodeFrom_lead (by decide) (by decide) (by decide)
      (Pending.start_four (by omega) (by omega)),
    decodeFrom_tail (by dsimp only; split_ifs <;> omega) (by dsimp only; split_ifs <;> omega)
      (Nat.succ_lt_succ Nat.two_pos),
    decodeFrom_tail (by dsimp only; omega) (by dsimp only; omega) Nat.one_lt_two,
    decodeFrom_last (by dsimp only; omega) (by dsimp only; omega) rfl, hvalue, Char.ofNat_toNat]

end

theorem decodeFrom_utf8EncodeChar (c : Char) (index : Nat) (rest : List UInt8) :
    decodeFrom index none (String.utf8EncodeChar c ++ rest) =
      (decodeFrom (index + (String.utf8EncodeChar c).length) none rest).map (c :: ·) := by
  unfold String.utf8EncodeChar
  dsimp only
  split_ifs with h1 h2 h3
  · exact decodeFrom_code_one h1
  · exact decodeFrom_code_two (Nat.not_le.mp h1) h2
  · exact decodeFrom_code_three (Nat.not_le.mp h2) h3
  · exact decodeFrom_code_four (Nat.not_le.mp h3)

theorem decodeFrom_flatMap_utf8EncodeChar (s : List Char) (index : Nat) :
    decodeFrom index none (s.flatMap String.utf8EncodeChar) = .ok s := by
  induction s generalizing index with
  | nil => rfl
  | cons c s ih =>
    rw [List.flatMap_cons, decodeFrom_utf8EncodeChar, ih]
    rfl

theorem toUTF8_eq_flatMap (s : String) :
    s.toUTF8.data.toList = s.toList.flatMap String.utf8EncodeChar := by
  rw [String.toUTF8_eq_toByteArray, ← String.utf8Encode_toList]
  exact List.toList_data_toByteArray

theorem decode_toUTF8 (s : String) : decode s.toUTF8.data.toList = .ok s.toList := by
  rw [toUTF8_eq_flatMap]
  exact decodeFrom_flatMap_utf8EncodeChar s.toList 0

namespace Pending

theorem start_eq_some {b : Nat} {p : Pending} (h : start b = some p) :
    (0xC2 ≤ b ∧ b ≤ 0xDF ∧ p = ⟨1, 1, b - 0xC0, 0x80, 0xBF⟩) ∨
    (0xE0 ≤ b ∧ b ≤ 0xEF ∧ p = ⟨1, 2, b - 0xE0, if b = 0xE0 then 0xA0 else 0x80,
      if b = 0xED then 0x9F else 0xBF⟩) ∨
    (0xF0 ≤ b ∧ b ≤ 0xF4 ∧ p = ⟨1, 3, b - 0xF0, if b = 0xF0 then 0x90 else 0x80,
      if b = 0xF4 then 0x8F else 0xBF⟩) := by
  by_cases h2 : 0xC2 ≤ b ∧ b ≤ 0xDF
  · rw [start_two h2.1 h2.2] at h
    exact .inl ⟨h2.1, h2.2, (Option.some.inj h).symm⟩
  by_cases h3 : 0xE0 ≤ b ∧ b ≤ 0xEF
  · rw [start_three h3.1 h3.2] at h
    exact .inr (.inl ⟨h3.1, h3.2, (Option.some.inj h).symm⟩)
  by_cases h4 : 0xF0 ≤ b ∧ b ≤ 0xF4
  · rw [start_four h4.1 h4.2] at h
    exact .inr (.inr ⟨h4.1, h4.2, (Option.some.inj h).symm⟩)
  · unfold start at h
    simp only [Bool.and_eq_true, decide_eq_true_eq, beq_iff_eq] at h
    split_ifs at h <;> omega

end Pending

section
variable {index : Nat} {bytes : List UInt8} {s : List Char} {p : Pending}

theorem of_decodeFrom_tail (howed : 1 < p.owed) (h : decodeFrom index (some p) bytes = .ok s) :
    ∃ byte rest, bytes = byte :: rest ∧ p.low ≤ byte.toNat ∧ byte.toNat ≤ p.high ∧
      decodeFrom (index + 1) (some (p.accept byte.toNat)) rest = .ok s := by
  have hleft : (p.owed - 1 = 0) = False := eq_false (Nat.sub_ne_zero_of_lt howed)
  cases bytes with
  | nil => cases h
  | cons byte rest =>
    simp only [decodeFrom, Pending.accept, hleft, if_false] at h
    split at h
    · rename_i hrange
      rw [Bool.and_eq_true, decide_eq_true_eq, decide_eq_true_eq] at hrange
      exact ⟨byte, rest, rfl, hrange.1, hrange.2, h⟩
    · cases h

theorem of_decodeFrom_last (howed : p.owed = 1) (h : decodeFrom index (some p) bytes = .ok s) :
    ∃ byte rest t, bytes = byte :: rest ∧ p.low ≤ byte.toNat ∧ byte.toNat ≤ p.high ∧
      decodeFrom (index + 1) none rest = .ok t ∧
      s = Char.ofNat (p.value * 64 + (byte.toNat - 0x80)) :: t := by
  cases bytes with
  | nil => cases h
  | cons byte rest =>
    simp only [decodeFrom, Pending.accept, howed, Nat.sub_self, if_true] at h
    split at h
    · rename_i hrange
      rw [Bool.and_eq_true, decide_eq_true_eq, decide_eq_true_eq] at hrange
      cases hrest : decodeFrom (index + 1) none rest with
      | error fault =>
        rw [hrest] at h
        cases h
      | ok t =>
        rw [hrest] at h
        cases h
        exact ⟨byte, rest, t, rfl, hrange.1, hrange.2, hrest, rfl⟩
    · cases h

end

section
variable {x y z u : UInt8}

theorem ofNat_eq_of_toNat {n : Nat} (h : n = x.toNat) : UInt8.ofNat n = x := by
  rw [h, UInt8.ofNat_toNat]

theorem val_ofNat {n : Nat} (h : n.isValidChar) : (Char.ofNat n).val.toNat = n := by
  unfold Char.ofNat
  rw [dif_pos h]
  rfl

theorem utf8EncodeChar_ofNat_one (hx : x.toNat < 0x80) :
    String.utf8EncodeChar (Char.ofNat x.toNat) = [x] := by
  have hvalue : (Char.ofNat x.toNat).val.toNat = x.toNat := val_ofNat (.inl (by omega))
  unfold String.utf8EncodeChar
  dsimp only
  rw [hvalue, if_pos (by omega), UInt8.ofNat_toNat]

theorem utf8EncodeChar_ofNat_two (hx : 0xC2 ≤ x.toNat) (hx' : x.toNat ≤ 0xDF)
    (hy : 0x80 ≤ y.toNat) (hy' : y.toNat ≤ 0xBF) :
    String.utf8EncodeChar (Char.ofNat ((x.toNat - 0xC0) * 64 + (y.toNat - 0x80))) = [x, y] := by
  have hvalue := val_ofNat (n := (x.toNat - 0xC0) * 64 + (y.toNat - 0x80)) (.inl (by omega))
  unfold String.utf8EncodeChar
  dsimp only
  rw [hvalue, if_neg (by omega), if_pos (by omega), ofNat_eq_of_toNat (x := x) (by omega),
    ofNat_eq_of_toNat (x := y) (by omega)]

theorem utf8EncodeChar_ofNat_three (hx : 0xE0 ≤ x.toNat) (hx' : x.toNat ≤ 0xEF)
    (hy : (if x.toNat = 0xE0 then 0xA0 else 0x80) ≤ y.toNat)
    (hy' : y.toNat ≤ if x.toNat = 0xED then 0x9F else 0xBF)
    (hz : 0x80 ≤ z.toNat) (hz' : z.toNat ≤ 0xBF) :
    String.utf8EncodeChar (Char.ofNat
      (((x.toNat - 0xE0) * 64 + (y.toNat - 0x80)) * 64 + (z.toNat - 0x80))) = [x, y, z] := by
  have hrange : 0x80 ≤ y.toNat ∧ y.toNat ≤ 0xBF ∧
      (x.toNat = 0xE0 → 0xA0 ≤ y.toNat) ∧ (x.toNat = 0xED → y.toNat ≤ 0x9F) := by
    split_ifs at hy hy' <;> omega
  have hvalid : (((x.toNat - 0xE0) * 64 + (y.toNat - 0x80)) * 64 +
      (z.toNat - 0x80)).isValidChar := by
    unfold Nat.isValidChar
    omega
  have hvalue := val_ofNat hvalid
  unfold String.utf8EncodeChar
  dsimp only
  rw [hvalue, if_neg (by omega), if_neg (by omega), if_pos (by omega),
    ofNat_eq_of_toNat (x := x) (by omega), ofNat_eq_of_toNat (x := y) (by omega),
    ofNat_eq_of_toNat (x := z) (by omega)]

theorem utf8EncodeChar_ofNat_four (hx : 0xF0 ≤ x.toNat) (hx' : x.toNat ≤ 0xF4)
    (hy : (if x.toNat = 0xF0 then 0x90 else 0x80) ≤ y.toNat)
    (hy' : y.toNat ≤ if x.toNat = 0xF4 then 0x8F else 0xBF)
    (hz : 0x80 ≤ z.toNat) (hz' : z.toNat ≤ 0xBF) (hu : 0x80 ≤ u.toNat) (hu' : u.toNat ≤ 0xBF) :
    String.utf8EncodeChar (Char.ofNat ((((x.toNat - 0xF0) * 64 + (y.toNat - 0x80)) * 64 +
      (z.toNat - 0x80)) * 64 + (u.toNat - 0x80))) = [x, y, z, u] := by
  have hrange : 0x80 ≤ y.toNat ∧ y.toNat ≤ 0xBF ∧
      (x.toNat = 0xF0 → 0x90 ≤ y.toNat) ∧ (x.toNat = 0xF4 → y.toNat ≤ 0x8F) := by
    split_ifs at hy hy' <;> omega
  have hvalid : ((((x.toNat - 0xF0) * 64 + (y.toNat - 0x80)) * 64 +
      (z.toNat - 0x80)) * 64 + (u.toNat - 0x80)).isValidChar := by
    unfold Nat.isValidChar
    omega
  have hvalue := val_ofNat hvalid
  unfold String.utf8EncodeChar
  dsimp only
  rw [hvalue, if_neg (by omega), if_neg (by omega), if_neg (by omega),
    ofNat_eq_of_toNat (x := x) (by omega), ofNat_eq_of_toNat (x := y) (by omega),
    ofNat_eq_of_toNat (x := z) (by omega), ofNat_eq_of_toNat (x := u) (by omega)]

end

theorem exists_of_decodeFrom {byte : UInt8} {rest : List UInt8} {index : Nat} {s : List Char}
    (h : decodeFrom index none (byte :: rest) = .ok s) :
    ∃ c t tail next, byte :: rest = String.utf8EncodeChar c ++ tail ∧ s = c :: t ∧
      decodeFrom next none tail = .ok t := by
  simp only [decodeFrom] at h
  split at h
  · rename_i hascii
    cases hrest : decodeFrom (index + 1) none rest with
    | error fault =>
      rw [hrest] at h
      cases h
    | ok t =>
      rw [hrest] at h
      cases h
      have hcode := utf8EncodeChar_ofNat_one hascii
      exact ⟨_, t, rest, _, (congrArg (· ++ rest) hcode).symm, rfl, hrest⟩
  · split at h
    · cases h
    · rename_i p hp
      -- The first byte settles how many follow; they are read one by one up to the last.
      obtain ⟨hx, hx', rfl⟩ | ⟨hx, hx', rfl⟩ | ⟨hx, hx', rfl⟩ := Pending.start_eq_some hp
      · obtain ⟨y, tail, t, rfl, hy, hy', htail, rfl⟩ := of_decodeFrom_last rfl h
        have hcode := utf8EncodeChar_ofNat_two hx hx' hy hy'
        exact ⟨_, t, tail, _, (congrArg (· ++ tail) hcode).symm, rfl, htail⟩
      · obtain ⟨y, rest, rfl, hy, hy', h⟩ := of_decodeFrom_tail Nat.one_lt_two h
        obtain ⟨z, tail, t, rfl, hz, hz', htail, rfl⟩ := of_decodeFrom_last rfl h
        have hcode := utf8EncodeChar_ofNat_three hx hx' hy hy' hz hz'
        exact ⟨_, t, tail, _, (congrArg (· ++ tail) hcode).symm, rfl, htail⟩
      · obtain ⟨y, rest, rfl, hy, hy', h⟩ :=
          of_decodeFrom_tail (Nat.succ_lt_succ Nat.two_pos) h
        obtain ⟨z, rest, rfl, hz, hz', h⟩ := of_decodeFrom_tail Nat.one_lt_two h
        obtain ⟨u, tail, t, rfl, hu, hu', htail, rfl⟩ := of_decodeFrom_last rfl h
        have hcode := utf8EncodeChar_ofNat_four hx hx' hy hy' hz hz' hu hu'
        exact ⟨_, t, tail, _, (congrArg (· ++ tail) hcode).symm, rfl, htail⟩

theorem of_decodeFrom {bytes : List UInt8} {index : Nat} {s : List Char}
    (h : decodeFrom index none bytes = .ok s) : bytes = s.flatMap String.utf8EncodeChar := by
  -- On the characters that are read, as each of them takes several bytes.
  induction s generalizing bytes index with
  | nil =>
    cases bytes with
    | nil => rfl
    | cons byte rest =>
      obtain ⟨c, t, tail, next, -, hs, -⟩ := exists_of_decodeFrom h
      cases hs
  | cons d s ih =>
    cases bytes with
    | nil => cases h
    | cons byte rest =>
      obtain ⟨c, t, tail, next, hbytes, hs, htail⟩ := exists_of_decodeFrom h
      cases hs
      rw [hbytes, List.flatMap_cons, ih htail]

theorem decode_eq_ok_iff {bytes : List UInt8} {s : List Char} :
    decode bytes = .ok s ↔ bytes = (String.ofList s).toUTF8.data.toList := by
  constructor
  · intro h
    rw [toUTF8_eq_flatMap, String.toList_ofList]
    exact of_decodeFrom h
  · rintro rfl
    rw [decode_toUTF8, String.toList_ofList]

end RegisterTransfer.Text.Utf8
