import LakeUpload.Proofs.Lists
import LakeUpload.Proofs.Text.Widths
import Mathlib.Data.List.Forall2

/-!
# Numbers in a fixed layout

A layout gives each number a width, and marks behind it. Numbers that fit can be read off a text of
the layout again, and the texts of one layout come in the order of their numbers.
-/

namespace LakeUpload

open Bytes (padded)

/-- The width of each number, and the marks behind it. -/
abbrev Layout := List (Nat × Bytes)

namespace Layout

def write : Layout → List Nat → Bytes
  | (width, marks) :: layout, n :: numbers => padded width n ++ marks ++ write layout numbers
  | _, _ => []

/-- The numbers of a text that has this layout from its start to its end. -/
def read? : Layout → Bytes → Option (List Nat)
  | [], text => if text = [] then some [] else none
  | (width, marks) :: layout, text =>
      if width ≤ text.length ∧ (text.drop width).take marks.length = marks then
        match Bytes.ofDigits? (text.take width),
          read? layout ((text.drop width).drop marks.length) with
        | some n, some numbers => some (n :: numbers)
        | _, _ => none
      else none

/-- How many bytes a text of the layout has. -/
def size : Layout → Nat
  | [] => 0
  | (width, marks) :: layout => width + marks.length + size layout

/-- There is a place for each number, and it is wide enough. -/
def Fits (layout : Layout) (numbers : List Nat) : Prop :=
  List.Forall₂ (fun field n => 0 < field.1 ∧ n < 10 ^ field.1) layout numbers

theorem fits_iff_widths {layout : Layout} {numbers : List Nat} :
    layout.Fits numbers ↔ List.Forall₂ (fun width n => 0 < width ∧ n < 10 ^ width)
      (layout.map Prod.fst) numbers := by
  rw [List.forall₂_map_left_iff, Fits]

theorem length_write {layout : Layout} {numbers : List Nat} (h : layout.Fits numbers) :
    (layout.write numbers).length = layout.size := by
  induction h with
  | nil =>
      rfl
  | cons hfield _ ih =>
      rw [write, List.length_append, List.length_append, Bytes.length_padded hfield.1 hfield.2, ih,
        size]

theorem read?_write {layout : Layout} {numbers : List Nat} (h : layout.Fits numbers) :
    layout.read? (layout.write numbers) = some numbers := by
  induction h with
  | nil =>
      rfl
  | @cons field n layout numbers hfield _ ih =>
      obtain ⟨width, marks⟩ := field
      have hlength := Bytes.length_padded hfield.1 hfield.2
      have hdrop : (padded width n ++ (marks ++ write layout numbers)).drop width =
          marks ++ write layout numbers := List.drop_left' hlength
      have htake : (padded width n ++ (marks ++ write layout numbers)).take width =
          padded width n := List.take_left' hlength
      have hwidth : width ≤ (padded width n ++ (marks ++ write layout numbers)).length := by
        rw [List.length_append, hlength]
        exact Nat.le_add_right _ _
      rw [write, List.append_assoc, read?, hdrop, htake, List.take_left, List.drop_left,
        if_pos ⟨hwidth, rfl⟩, Bytes.ofDigits?_padded, ih]

theorem write_lt_write_iff {layout : Layout} {numbers others : List Nat}
    (h : layout.Fits numbers) (hothers : layout.Fits others) :
    layout.write numbers < layout.write others ↔ numbers < others := by
  induction h generalizing others with
  | nil =>
      cases hothers
      simp [write]
  | @cons field n layout numbers hfield _ ih =>
      cases hothers with
      | @cons _ m _ others hother hothers =>
          obtain ⟨width, marks⟩ := field
          have hlength : (padded width n).length = (padded width m).length := by
            rw [Bytes.length_padded hfield.1 hfield.2, Bytes.length_padded hother.1 hother.2]
          have heq : padded width (n : Int) = padded width (m : Int) ↔ n = m :=
            ⟨Bytes.padded_injective width, fun h => by rw [h]⟩
          have hmarks : ¬ marks < marks := List.lt_irrefl marks
          rw [write, write, List.append_assoc, List.append_assoc,
            Lists.append_lt_append_iff hlength, Lists.append_lt_append_iff rfl, ih hothers,
            Bytes.padded_lt_iff hfield.1 hfield.2 hother.2, heq, List.cons_lt_cons_iff]
          simp only [hmarks, true_and, false_or]

end Layout

end LakeUpload
