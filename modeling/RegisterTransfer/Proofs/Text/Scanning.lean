import Mathlib.Data.List.TakeWhile
import RegisterTransfer.Text.Blank
import RegisterTransfer.Text.Numeral

namespace RegisterTransfer.Text

def Trimmed (p : Char → Bool) (s : List Char) : Prop :=
  (∀ c ∈ s.head?, p c = false) ∧ ∀ c ∈ s.getLast?, p c = false

instance (p : Char → Bool) (s : List Char) : Decidable (Trimmed p s) :=
  decidable_of_iff (s.head?.all (!p ·) = true ∧ s.getLast?.all (!p ·) = true) <| by
    simp [Trimmed, Option.all_eq_true]

theorem dropWhile_of_head {p : Char → Bool} {s : List Char} (h : ∀ c ∈ s.head?, p c = false) :
    s.dropWhile p = s := by
  cases s with
  | nil => rfl
  | cons c s => simp [h c rfl]

theorem Trimmed.strip {p : Char → Bool} {left s right : List Char} (hs : Trimmed p s)
    (hleft : ∀ c ∈ left, p c = true) (hright : ∀ c ∈ right, p c = true) :
    (((left ++ (s ++ right)).dropWhile p).reverse.dropWhile p).reverse = s := by
  obtain ⟨hfirst, hlast⟩ := hs
  cases s with
  | nil =>
    have hall : (left ++ right).dropWhile p = [] := by
      rw [List.dropWhile_append_of_pos hleft, List.dropWhile_eq_nil_iff]
      exact hright
    rw [List.nil_append, hall]
    rfl
  | cons c s =>
    have hc : ∀ d ∈ (c :: s ++ right).head?, p d = false := by
      intro d hd
      exact hfirst d hd
    have hd : ∀ d ∈ (c :: s).reverse.head?, p d = false := by
      rw [List.head?_reverse]
      exact hlast
    have hreversed : ∀ d ∈ right.reverse, p d = true := by
      intro d hd
      exact hright d (List.mem_reverse.mp hd)
    rw [List.dropWhile_append_of_pos hleft, dropWhile_of_head hc, List.reverse_append,
      List.dropWhile_append_of_pos hreversed, dropWhile_of_head hd, List.reverse_reverse]

theorem trim_append {left s right : List Char} (hs : Trimmed isBlank s)
    (hleft : ∀ c ∈ left, isBlank c = true) (hright : ∀ c ∈ right, isBlank c = true) :
    trim (left ++ (s ++ right)) = s :=
  hs.strip hleft hright

theorem trimChar_of_trimmed {c : Char} {s : List Char} (hs : Trimmed (· == c) s) :
    trimChar c s = s := by
  have h : trimChar c ([] ++ (s ++ [])) = s := hs.strip (by simp) (by simp)
  rwa [List.nil_append, List.append_nil] at h

theorem trimChar_enclosed {c : Char} {s : List Char} (hs : Trimmed (· == c) s) :
    trimChar c (c :: (s ++ [c])) = s := by
  have h : trimChar c ([c] ++ (s ++ [c])) = s := hs.strip (by simp) (by simp)
  exact h

theorem trimChar_eq_nil_iff {c : Char} {s : List Char} :
    trimChar c s = [] ↔ ∀ d ∈ s, d = c := by
  unfold trimChar
  rw [List.reverse_eq_nil_iff, List.dropWhile_eq_nil_iff]
  constructor
  · intro h d hd
    rw [← List.takeWhile_append_dropWhile (p := (· == c)) (l := s)] at hd
    rcases List.mem_append.mp hd with hd | hd
    · have hbeq := List.mem_takeWhile_imp (p := (· == c)) hd
      exact eq_of_beq hbeq
    · exact eq_of_beq (h d (List.mem_reverse.mpr hd))
  · intro h d hd
    have hs : d ∈ s := (List.dropWhile_suffix _).subset (List.mem_reverse.mp hd)
    exact beq_iff_eq.mpr (h d hs)

theorem head?_trim {s : List Char} : ∀ c ∈ (trim s).head?, isBlank c = false := by
  intro c hc
  have hprefix : trim s <+: trimLeft s := by
    have hsuffix := List.dropWhile_suffix (l := (trimLeft s).reverse) isBlank
    rw [← List.reverse_prefix, List.reverse_reverse] at hsuffix
    exact hsuffix
  obtain ⟨t, ht⟩ := hprefix
  have hleft : (trimLeft s).head? = some c := by
    rw [← ht, List.head?_append, Option.mem_def.mp hc]
    rfl
  have hnot := List.head?_dropWhile_not isBlank s
  rw [show s.dropWhile isBlank = trimLeft s from rfl, hleft] at hnot
  exact hnot

section
variable {separator : Char} {piece : List Char}

theorem cutAt_of_not_mem (h : separator ∉ piece) : cutAt separator piece = [piece] := by
  induction piece with
  | nil => rfl
  | cons c piece ih =>
    obtain ⟨hc, hpiece⟩ := List.ne_and_not_mem_of_not_mem_cons h
    rw [cutAt, if_neg (Ne.symm hc), ih hpiece]

theorem cutAt_append (rest : List Char) (h : separator ∉ piece) :
    cutAt separator (piece ++ separator :: rest) = piece :: cutAt separator rest := by
  induction piece with
  | nil => simp [cutAt]
  | cons c piece ih =>
    obtain ⟨hc, hpiece⟩ := List.ne_and_not_mem_of_not_mem_cons h
    rw [List.cons_append, cutAt, if_neg (Ne.symm hc), ih hpiece]

theorem append_inj_of_not_mem {piece' rest rest' : List Char} (h : separator ∉ piece)
    (h' : separator ∉ piece') (hr : ∀ c ∈ rest.head?, c = separator)
    (hr' : ∀ c ∈ rest'.head?, c = separator) (heq : piece ++ rest = piece' ++ rest') :
    piece = piece' ∧ rest = rest' := by
  induction piece generalizing piece' with
  | nil =>
    cases piece' with
    | nil => exact ⟨rfl, heq⟩
    | cons d piece' =>
      have hd : d = separator := hr d (by rw [← List.nil_append rest, heq]; rfl)
      exact absurd (hd ▸ List.mem_cons_self) h'
  | cons c piece ih =>
    cases piece' with
    | nil =>
      have hc : c = separator := hr' c (by rw [← List.nil_append rest', ← heq]; rfl)
      exact absurd (hc ▸ List.mem_cons_self) h
    | cons d piece' =>
      obtain ⟨hcd, hrest⟩ := List.cons.inj heq
      obtain ⟨hpiece, hrest⟩ :=
        ih (List.not_mem_of_not_mem_cons h) (List.not_mem_of_not_mem_cons h') hrest
      exact ⟨by rw [hcd, hpiece], hrest⟩

theorem cutAt_intercalate {pieces : List (List Char)} (hne : pieces ≠ [])
    (h : ∀ piece ∈ pieces, separator ∉ piece) :
    cutAt separator ([separator].intercalate pieces) = pieces := by
  induction pieces with
  | nil => exact absurd rfl hne
  | cons piece pieces ih =>
    obtain ⟨hpiece, hpieces⟩ := List.forall_mem_cons.mp h
    cases pieces with
    | nil => simpa [List.intercalate] using cutAt_of_not_mem hpiece
    | cons next pieces =>
      have hjoin : [separator].intercalate (piece :: next :: pieces) =
          piece ++ separator :: [separator].intercalate (next :: pieces) := by
        simp [List.intercalate]
      rw [hjoin, cutAt_append _ hpiece, ih (List.cons_ne_nil _ _) hpieces]

end

def IsWord (w : List Char) : Prop := w ≠ [] ∧ ∀ c ∈ w, isBlank c = false

theorem wordsFrom_append {w s : List Char} (t : List Char) (hs : ∀ c ∈ s, isBlank c = false) :
    wordsFrom w (s ++ t) = wordsFrom (s.reverse ++ w) t := by
  induction s generalizing w with
  | nil => rfl
  | cons c s ih =>
    obtain ⟨hc, hs⟩ := List.forall_mem_cons.mp hs
    rw [List.cons_append, wordsFrom, hc, if_neg Bool.false_ne_true, ih hs, List.reverse_cons,
      List.append_assoc]
    rfl

theorem words_gap {gap : List Char} (t : List Char) (hgap : ∀ c ∈ gap, isBlank c = true) :
    words (gap ++ t) = words t := by
  induction gap with
  | nil => rfl
  | cons c gap ih =>
    obtain ⟨hc, hgap⟩ := List.forall_mem_cons.mp hgap
    rw [List.cons_append, words, wordsFrom, hc]
    exact ih hgap

theorem words_of_isWord {w : List Char} (hw : IsWord w) : words w = [w] := by
  obtain ⟨hne, hw⟩ := hw
  have h := wordsFrom_append (w := []) [] hw
  rw [List.append_nil, List.append_nil] at h
  simp [words, h, wordsFrom, hne]

theorem words_append {w gap : List Char} (t : List Char) (hw : IsWord w) (hne : gap ≠ [])
    (hgap : ∀ c ∈ gap, isBlank c = true) : words (w ++ (gap ++ t)) = w :: words t := by
  cases gap with
  | nil => exact absurd rfl hne
  | cons c gap =>
    obtain ⟨hc, hgap⟩ := List.forall_mem_cons.mp hgap
    have hopen : (w.reverse ++ []).isEmpty = false := by simpa using hw.1
    rw [words, wordsFrom_append _ hw.2, List.cons_append, wordsFrom, hc, if_pos rfl, hopen,
      if_neg Bool.false_ne_true, List.append_nil, List.reverse_reverse]
    exact congrArg (w :: ·) (words_gap t hgap)

theorem words_of_head {s : List Char} (hne : s ≠ []) (hs : ∀ c ∈ s.head?, isBlank c = false) :
    words s = s.takeWhile (!isBlank ·) :: words (s.dropWhile (!isBlank ·)) := by
  have hword : IsWord (s.takeWhile (!isBlank ·)) := by
    refine ⟨?_, ?_⟩
    · cases s with
      | nil => exact absurd rfl hne
      | cons c s => simp [hs c rfl]
    · intro c hc
      simpa using List.mem_takeWhile_imp hc
  have hnot := List.head?_dropWhile_not (!isBlank ·) s
  have hsplit : words s = words (s.takeWhile (!isBlank ·) ++ s.dropWhile (!isBlank ·)) := by
    rw [List.takeWhile_append_dropWhile]
  rw [hsplit]
  cases hrest : s.dropWhile (!isBlank ·) with
  | nil =>
    rw [List.append_nil]
    exact words_of_isWord hword
  | cons c rest =>
    rw [hrest] at hnot
    have hc : ∀ d ∈ [c], isBlank d = true := by simpa using hnot
    rw [show c :: rest = [c] ++ rest from rfl, words_append rest hword (by simp) hc,
      words_gap rest hc]

theorem digit?_of_isDigit {c : Char} (h : c.isDigit) : digit? c = some (c.toNat - '0'.toNat) := by
  have hc : ('0' ≤ c && c ≤ '9') = true := by
    simpa [Char.isDigit, Char.le_def] using h
  unfold digit?
  rw [if_pos hc]

theorem digitsOnto_eq {s : List Char} (n : Nat) (h : ∀ c ∈ s, c.isDigit) :
    digitsOnto n s = some (Nat.ofDigitChars 10 s n) := by
  induction s generalizing n with
  | nil => simp [digitsOnto]
  | cons c s ih =>
    obtain ⟨hc, hs⟩ := List.forall_mem_cons.mp h
    rw [digitsOnto, digit?_of_isDigit hc, Nat.ofDigitChars_cons]
    exact ih _ hs

theorem natural?_toDigits (n : Nat) : natural? (Nat.toDigits 10 n) = some n := by
  have hne : (Nat.toDigits 10 n).isEmpty = false := by simp
  have hdigits : ∀ c ∈ Nat.toDigits 10 n, c.isDigit := fun _ =>
    Nat.isDigit_of_mem_toDigits (by decide) (by decide)
  rw [natural?, hne, if_neg Bool.false_ne_true, digitsOnto_eq 0 hdigits,
    Nat.ofDigitChars_ten_toDigits]

theorem isDigit_of_digit? {c : Char} {d : Nat} (h : digit? c = some d) : c.isDigit := by
  unfold digit? at h
  split at h
  · rename_i hc
    simpa [Char.isDigit, Char.le_def] using hc
  · cases h

theorem isDigit_of_digitsOnto {s : List Char} {n m : Nat} (h : digitsOnto n s = some m) :
    ∀ c ∈ s, c.isDigit := by
  induction s generalizing n with
  | nil => simp
  | cons c s ih =>
    obtain ⟨d, hd, hs⟩ := Option.bind_eq_some_iff.mp h
    exact List.forall_mem_cons.mpr ⟨isDigit_of_digit? hd, ih hs⟩

theorem natural?_eq_some_iff {s : List Char} {n : Nat} :
    natural? s = some n ↔ s ≠ [] ∧ (∀ c ∈ s, c.isDigit) ∧ Nat.ofDigitChars 10 s 0 = n := by
  unfold natural?
  constructor
  · intro h
    split at h
    · cases h
    · rename_i hne
      have hdigits := isDigit_of_digitsOnto h
      rw [digitsOnto_eq 0 hdigits] at h
      exact ⟨by simpa using hne, hdigits, Option.some.inj h⟩
  · rintro ⟨hne, hdigits, rfl⟩
    rw [if_neg (by simpa using hne), digitsOnto_eq 0 hdigits]

theorem signed?_of_isDigit {s : List Char} (h : ∀ c ∈ s, c.isDigit) :
    signed? s = (natural? s).map Int.ofNat := by
  unfold signed?
  split
  · exact absurd (h '+' (List.mem_cons_self ..)) (by decide)
  · exact absurd (h '-' (List.mem_cons_self ..)) (by decide)
  · rfl

theorem signed?_toDigits (n : Nat) : signed? (Nat.toDigits 10 n) = some (n : Int) := by
  have hdigits : ∀ c ∈ Nat.toDigits 10 n, c.isDigit := fun _ =>
    Nat.isDigit_of_mem_toDigits (by decide) (by decide)
  rw [signed?_of_isDigit hdigits, natural?_toDigits]
  rfl

def IsDecimal (s : List Char) (n : Int) : Prop :=
  ∃ digits, digits ≠ [] ∧ (∀ c ∈ digits, c.isDigit) ∧
    ((s = digits ∨ s = '+' :: digits) ∧ n = Nat.ofDigitChars 10 digits 0 ∨
      s = '-' :: digits ∧ n = -(Nat.ofDigitChars 10 digits 0 : Int))

theorem signed?_eq_some_iff {s : List Char} {n : Int} : signed? s = some n ↔ IsDecimal s n := by
  constructor
  · intro h
    unfold signed? at h
    split at h
    · rename_i digits
      obtain ⟨k, hk, rfl⟩ := Option.map_eq_some_iff.mp h
      obtain ⟨hne, hdigits, rfl⟩ := natural?_eq_some_iff.mp hk
      exact ⟨digits, hne, hdigits, .inl ⟨.inr rfl, rfl⟩⟩
    · rename_i digits
      obtain ⟨k, hk, rfl⟩ := Option.map_eq_some_iff.mp h
      obtain ⟨hne, hdigits, rfl⟩ := natural?_eq_some_iff.mp hk
      exact ⟨digits, hne, hdigits, .inr ⟨rfl, rfl⟩⟩
    · obtain ⟨k, hk, rfl⟩ := Option.map_eq_some_iff.mp h
      obtain ⟨hne, hdigits, rfl⟩ := natural?_eq_some_iff.mp hk
      exact ⟨s, hne, hdigits, .inl ⟨.inl rfl, rfl⟩⟩
  · rintro ⟨digits, hne, hdigits, ⟨rfl | rfl, rfl⟩ | ⟨rfl, rfl⟩⟩
    all_goals have hnatural := natural?_eq_some_iff.mpr ⟨hne, hdigits, rfl⟩
    · rw [signed?_of_isDigit hdigits, hnatural]
      rfl
    · rw [signed?, hnatural]
      rfl
    · rw [signed?, hnatural]
      rfl

theorem int32?_eq_some_iff {s : List Char} {n : Int} :
    int32? s = some n ↔ IsDecimal s n ∧ -0x80000000 ≤ n ∧ n < 0x80000000 := by
  unfold int32? isInt32
  rw [Option.filter_eq_some_iff, signed?_eq_some_iff, Bool.and_eq_true, decide_eq_true_eq,
    decide_eq_true_eq]

theorem toList_toString_int (n : Int) : (toString n).toList =
    if 0 ≤ n then Nat.toDigits 10 n.toNat else '-' :: Nat.toDigits 10 (-n).toNat := by
  rw [Int.toString_eq_repr, Int.repr_eq_if]
  split
  · exact Nat.toList_repr
  · simp

theorem eq_minus_or_isDigit {n : Int} {c : Char} (h : c ∈ (toString n).toList) :
    c = '-' ∨ c.isDigit := by
  rw [toList_toString_int] at h
  split at h
  · exact .inr (Nat.isDigit_of_mem_toDigits (by decide) (by decide) h)
  · rcases List.mem_cons.mp h with rfl | h
    · exact .inl rfl
    · exact .inr (Nat.isDigit_of_mem_toDigits (by decide) (by decide) h)

theorem isBlank_of_isDigit {c : Char} (h : c.isDigit) : isBlank c = false := by
  have hrange : 48 ≤ c.toNat ∧ c.toNat ≤ 57 := by
    simpa [Char.isDigit, UInt32.le_iff_toNat_le] using h
  rw [← Bool.not_eq_true]
  unfold isBlank
  simp only [Bool.or_eq_true, Bool.and_eq_true, decide_eq_true_eq, beq_iff_eq]
  omega

theorem signed?_toString (n : Int) : signed? (toString n).toList = some n := by
  rw [toList_toString_int]
  split
  · rename_i h
    rw [signed?_toDigits, Int.toNat_of_nonneg h]
  · rename_i h
    rw [signed?, natural?_toDigits, Option.map_some, Option.some_inj]
    change -((-n).toNat : Int) = n
    omega

theorem int32?_toString {n : Int} (h : isInt32 n = true) :
    int32? (toString n).toList = some n := by
  rw [int32?, signed?_toString, Option.filter_some, h]
  rfl

end RegisterTransfer.Text
