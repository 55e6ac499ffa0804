import Mathlib.Algebra.Group.Nat.Defs
import RegisterTransfer.Text.Hex

namespace RegisterTransfer.Text

def hexNumber (s : List Char) : Nat := s.foldl (fun n c => 16 * n + (hexValue? c).getD 0) 0

def isUpperHexDigit (c : Char) : Bool := c.isDigit || ('A' ≤ c && c ≤ 'F')

theorem hexValue?_digit : ∀ d < 16, hexValue? d.digitChar.toUpper = some d := by
  decide

theorem isUpperHexDigit_digit : ∀ d < 16, isUpperHexDigit d.digitChar.toUpper := by
  decide

theorem hexNumber_concat (s : List Char) {d : Nat} (hd : d < 16) :
    hexNumber (s ++ [d.digitChar.toUpper]) = 16 * hexNumber s + d := by
  simp only [hexNumber, List.foldl_append, List.foldl_cons, List.foldl_nil, hexValue?_digit d hd,
    Option.getD_some]

theorem hexDigits_of_lt {n : Nat} (h : n < 16) : hexDigits n = [n.digitChar.toUpper] := by
  rw [hexDigits, Nat.toDigits_of_lt_base h]
  rfl

theorem hexDigits_of_le {n : Nat} (h : 16 ≤ n) :
    hexDigits n = hexDigits (n / 16) ++ [(n % 16).digitChar.toUpper] := by
  rw [hexDigits, Nat.toDigits_of_base_le (by decide) h, List.map_append]
  rfl

theorem hexNumber_hexDigits (n : Nat) : hexNumber (hexDigits n) = n := by
  induction n using Nat.strongRecOn with
  | ind n ih =>
    by_cases h : n < 16
    · have hdigit := hexNumber_concat [] h
      rw [List.nil_append] at hdigit
      rw [hexDigits_of_lt h, hdigit]
      exact Nat.zero_add n
    · have hle : 16 ≤ n := Nat.not_lt.mp h
      rw [hexDigits_of_le hle, hexNumber_concat _ (Nat.mod_lt n (by decide)),
        ih (n / 16) (by omega)]
      exact Nat.div_add_mod n 16

theorem isUpperHexDigit_of_mem_hexDigits {n : Nat} {c : Char} (hc : c ∈ hexDigits n) :
    isUpperHexDigit c := by
  induction n using Nat.strongRecOn with
  | ind n ih =>
    by_cases h : n < 16
    · rw [hexDigits_of_lt h] at hc
      obtain rfl := List.mem_singleton.mp hc
      exact isUpperHexDigit_digit n h
    · rw [hexDigits_of_le (Nat.not_lt.mp h)] at hc
      rcases List.mem_append.mp hc with hc | hc
      · exact ih (n / 16) (by omega) hc
      · obtain rfl := List.mem_singleton.mp hc
        exact isUpperHexDigit_digit _ (Nat.mod_lt n (by decide))

theorem toList_upperHex (width n : Nat) : (upperHex width n).toList =
    List.replicate (width - (hexDigits n).length) '0' ++ hexDigits n :=
  String.toList_ofList

theorem hexNumber_upperHex (width n : Nat) : hexNumber (upperHex width n).toList = n := by
  have hzeros : ∀ k, (List.replicate k '0').foldl
      (fun m c => 16 * m + (hexValue? c).getD 0) 0 = 0 := by
    intro k
    induction k with
    | zero => rfl
    | succ k ih => exact ih
  rw [toList_upperHex, hexNumber, List.foldl_append, hzeros]
  exact hexNumber_hexDigits n

theorem upperHex_injective {v w m n : Nat} (h : upperHex v m = upperHex w n) : m = n := by
  rw [← hexNumber_upperHex v m, h, hexNumber_upperHex]

theorem isUpperHexDigit_of_mem_upperHex {width n : Nat} {c : Char}
    (hc : c ∈ (upperHex width n).toList) : isUpperHexDigit c := by
  rw [toList_upperHex] at hc
  rcases List.mem_append.mp hc with hc | hc
  · rw [List.eq_of_mem_replicate hc]
    rfl
  · exact isUpperHexDigit_of_mem_hexDigits hc

theorem length_upperHex_of_lt {width n : Nat} (hw : 0 < width) (h : n < 16 ^ width) :
    (upperHex width n).length = width := by
  rw [length_upperHex]
  exact Nat.max_eq_left ((Nat.length_toDigits_le_iff (by decide) hw).mpr h)

end RegisterTransfer.Text
