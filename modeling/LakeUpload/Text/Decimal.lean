import LakeUpload.Text.Bytes

/-!
# Decimal numbers

Counts are written in decimal without leading zeros, whole numbers with a minus sign in front.
`ofDigits?` reads a digit string of any length back to its value.
-/

namespace LakeUpload

namespace Bytes

/-- The decimal digits of a count. -/
def decimal (n : Nat) : Bytes :=
  (Nat.toDigits 10 n).map Char.toUInt8

/-- The decimal form of a whole number. -/
def decimalInt (n : Int) : Bytes :=
  if n < 0 then 0x2d :: decimal n.natAbs else decimal n.natAbs

/-- The number fills at least `width` places; zeros stand in front of all else, even of a sign. -/
def padded (width : Nat) (n : Int) : Bytes :=
  List.replicate (width - (decimalInt n).length) 0x30 ++ decimalInt n

theorem digitChar_toUInt8 {d : Nat} (hd : d < 10) :
    (Nat.digitChar d).toUInt8 = UInt8.ofNat (48 + d) := by
  match d, hd with
  | 0, _ | 1, _ | 2, _ | 3, _ | 4, _ | 5, _ | 6, _ | 7, _ | 8, _ | 9, _ => rfl

/-- The last digit comes off the end. -/
theorem decimal_eq (n : Nat) :
    decimal n = (if n < 10 then [] else decimal (n / 10)) ++ [UInt8.ofNat (48 + n % 10)] := by
  unfold decimal
  rw [Nat.toDigits_eq_if (by omega)]
  split
  · rename_i hn
    simp [digitChar_toUInt8 hn, Nat.mod_eq_of_lt hn]
  · simp [digitChar_toUInt8 (Nat.mod_lt n (by omega : 0 < 10))]

theorem decimal_ne_nil (n : Nat) : decimal n ≠ [] := by
  rw [decimal_eq]
  simp

theorem exists_digit_of_isDigit {b : UInt8} (h : isDigit b = true) :
    ∃ d, d < 10 ∧ b = UInt8.ofNat (48 + d) := by
  simp only [isDigit, Bool.and_eq_true, decide_eq_true_eq, UInt8.le_iff_toNat_le,
    UInt8.reduceToNat] at h
  refine ⟨b.toNat - 48, by omega, ?_⟩
  rw [show 48 + (b.toNat - 48) = b.toNat by omega, UInt8.ofNat_toNat]

theorem isDigit_ofNat {d : Nat} (hd : d < 10) : isDigit (UInt8.ofNat (48 + d)) = true := by
  match d, hd with
  | 0, _ | 1, _ | 2, _ | 3, _ | 4, _ | 5, _ | 6, _ | 7, _ | 8, _ | 9, _ => rfl

/-- The value of one more digit behind a number. -/
def digitStep (value : Nat) (b : UInt8) : Nat := 10 * value + (b.toNat - 48)

/-- The value of a text of digits, if it has any and nothing else. -/
def ofDigits? (s : Bytes) : Option Nat :=
  if s ≠ [] ∧ s.all isDigit then some (s.foldl digitStep 0) else none

theorem digitStep_ofNat (value : Nat) {d : Nat} (hd : d < 10) :
    digitStep value (UInt8.ofNat (48 + d)) = 10 * value + d := by
  match d, hd with
  | 0, _ | 1, _ | 2, _ | 3, _ | 4, _ | 5, _ | 6, _ | 7, _ | 8, _ | 9, _ => rfl

theorem decimal_all_digits (n : Nat) : (decimal n).all isDigit = true := by
  induction n using Nat.strongRecOn with
  | ind n ih =>
      rw [decimal_eq]
      have hlast : isDigit (UInt8.ofNat (48 + n % 10)) = true :=
        isDigit_ofNat (Nat.mod_lt n (by omega))
      split
      · simp only [List.nil_append, List.all_cons, List.all_nil, hlast, Bool.and_self]
      · simp only [List.all_append, List.all_cons, List.all_nil, hlast, Bool.and_self,
          ih (n / 10) (by omega)]

theorem foldl_digitStep_decimal (n : Nat) : (decimal n).foldl digitStep 0 = n := by
  induction n using Nat.strongRecOn with
  | ind n ih =>
      rw [decimal_eq]
      have hlast (value : Nat) :
          digitStep value (UInt8.ofNat (48 + n % 10)) = 10 * value + n % 10 :=
        digitStep_ofNat value (Nat.mod_lt n (by omega))
      split
      · rw [List.nil_append, List.foldl_cons, List.foldl_nil, hlast]
        omega
      · rw [List.foldl_append, ih (n / 10) (by omega), List.foldl_cons, List.foldl_nil, hlast]
        omega

theorem ofDigits?_decimal (n : Nat) : ofDigits? (decimal n) = some n := by
  simp [ofDigits?, decimal_ne_nil, decimal_all_digits, foldl_digitStep_decimal]

theorem foldl_digitStep_zeros (count : Nat) :
    (List.replicate count 0x30).foldl digitStep 0 = 0 := by
  induction count with
  | zero =>
      rfl
  | succ count ih =>
      rw [List.replicate_succ, List.foldl_cons]
      exact ih

theorem decimal_injective {m n : Nat} (h : decimal m = decimal n) : m = n := by
  have hm := ofDigits?_decimal m
  rw [h, ofDigits?_decimal] at hm
  exact (Option.some.inj hm).symm

end Bytes

end LakeUpload
