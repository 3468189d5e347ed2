import LakeUpload.Text.Decimal
import Mathlib.Algebra.Group.Nat.Defs

/-!
# Numbers of a fixed width

A number that is padded to a width it fits into has exactly this width, is read back to its value,
and compares with others by its bytes as the numbers do.
-/

namespace LakeUpload

namespace Bytes

theorem length_decimal_le {width n : Nat} (hwidth : 0 < width) (hn : n < 10 ^ width) :
    (decimal n).length ≤ width := by
  induction width generalizing n with
  | zero =>
      cases hwidth
  | succ width ih =>
      rw [decimal_eq]
      split
      · simp
      · rename_i hlarge
        have hpos : 0 < width := by
          apply Nat.pos_of_ne_zero
          intro hzero
          rw [hzero] at hn
          exact hlarge hn
        have htenth : n / 10 < 10 ^ width := by
          rw [Nat.pow_succ] at hn
          omega
        have hle := ih hpos htenth
        simp only [List.length_append, List.length_cons, List.length_nil]
        omega

theorem padded_natCast (width n : Nat) :
    padded width (n : Int) = List.replicate (width - (decimal n).length) 0x30 ++ decimal n := by
  have hdecimal : decimalInt (n : Int) = decimal n := by
    have hnot : ¬ (n : Int) < 0 := by omega
    rw [decimalInt, if_neg hnot, Int.natAbs_natCast]
  rw [padded, hdecimal]

theorem length_padded {width n : Nat} (hwidth : 0 < width) (hn : n < 10 ^ width) :
    (padded width (n : Int)).length = width := by
  have hle := length_decimal_le hwidth hn
  rw [padded_natCast, List.length_append, List.length_replicate]
  omega

theorem padded_all_digits (width n : Nat) : (padded width (n : Int)).all isDigit = true := by
  have hzero : isDigit 0x30 = true := by decide
  rw [padded_natCast, List.all_append, decimal_all_digits, Bool.and_true, List.all_replicate, hzero]
  split <;> rfl

theorem foldl_digitStep_padded (width n : Nat) :
    (padded width (n : Int)).foldl digitStep 0 = n := by
  rw [padded_natCast, List.foldl_append, foldl_digitStep_zeros, foldl_digitStep_decimal]

theorem ofDigits?_padded (width n : Nat) : ofDigits? (padded width (n : Int)) = some n := by
  have hne : padded width (n : Int) ≠ [] := by
    rw [padded_natCast]
    exact List.append_ne_nil_of_right_ne_nil _ (decimal_ne_nil n)
  rw [ofDigits?, if_pos ⟨hne, padded_all_digits width n⟩, foldl_digitStep_padded]

/-- Digit texts of one length come in the order of their values, behind what stands before them. -/
theorem foldl_digitStep_lt_iff {s t : Bytes} (hs : s.all isDigit = true) (ht : t.all isDigit = true)
    (hlength : s.length = t.length) (m n : Nat) :
    s.foldl digitStep m < t.foldl digitStep n ↔ m < n ∨ m = n ∧ s < t := by
  induction s generalizing t m n with
  | nil =>
      cases t with
      | nil =>
          simp
      | cons c t =>
          cases hlength
  | cons b s ih =>
      cases t with
      | nil =>
          cases hlength
      | cons c t =>
          rw [List.all_cons, Bool.and_eq_true] at hs ht
          obtain ⟨hbdigit, hs⟩ := hs
          obtain ⟨hcdigit, ht⟩ := ht
          rw [List.foldl_cons, List.foldl_cons, ih hs ht (Nat.succ.inj hlength),
            List.cons_lt_cons_iff, UInt8.lt_iff_toNat_lt, ← UInt8.toNat_inj]
          simp only [isDigit, Bool.and_eq_true, decide_eq_true_eq, UInt8.le_iff_toNat_le,
            UInt8.reduceToNat] at hbdigit hcdigit
          unfold digitStep
          by_cases hrest : s < t
          · simp only [hrest, and_true]
            omega
          · simp only [hrest, and_false, or_false]
            omega

/-- Padded numbers come in their own order. -/
theorem padded_lt_iff {width m n : Nat} (hwidth : 0 < width) (hm : m < 10 ^ width)
    (hn : n < 10 ^ width) : padded width (m : Int) < padded width (n : Int) ↔ m < n := by
  have hlength : (padded width (m : Int)).length = (padded width (n : Int)).length := by
    rw [length_padded hwidth hm, length_padded hwidth hn]
  have hvalues := foldl_digitStep_lt_iff (padded_all_digits width m) (padded_all_digits width n)
    hlength 0 0
  rw [foldl_digitStep_padded, foldl_digitStep_padded] at hvalues
  simpa using hvalues.symm

theorem padded_injective (width : Nat) {m n : Nat}
    (h : padded width (m : Int) = padded width (n : Int)) : m = n := by
  have hm := foldl_digitStep_padded width m
  rw [h, foldl_digitStep_padded] at hm
  exact hm.symm

end Bytes

end LakeUpload
