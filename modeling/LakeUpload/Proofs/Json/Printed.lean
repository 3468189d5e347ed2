import LakeUpload.Proofs.Json.Strings

/-!
# Objects on one line

Nothing that a writer puts together holds a control byte, and so nothing holds a newline, as long as
the parts that are written without escapes hold none.
-/

namespace LakeUpload

open Bytes (quote colon comma openBrace closeBrace newline isDigit decimal decimalInt padded)

namespace Json

/-! ## Digits -/

theorem plainByte_of_isDigit {b : UInt8} (h : isDigit b = true) : PlainByte b := by
  obtain ⟨d, hd, rfl⟩ := Bytes.exists_digit_of_isDigit h
  match d, hd with
  | 0, _ | 1, _ | 2, _ | 3, _ | 4, _ | 5, _ | 6, _ | 7, _ | 8, _ | 9, _ => decide

theorem plain_append {s t : Bytes} : Plain (s ++ t) ↔ Plain s ∧ Plain t :=
  List.forall_mem_append

theorem plain_decimal (n : Nat) : Plain (decimal n) := fun b hb =>
  plainByte_of_isDigit (List.all_eq_true.1 (Bytes.decimal_all_digits n) b hb)

theorem plain_decimalInt (n : Int) : Plain (decimalInt n) := by
  unfold decimalInt
  split
  · exact plain_cons.2 ⟨by decide, plain_decimal _⟩
  · exact plain_decimal _

theorem plain_padded (width : Nat) (n : Int) : Plain (padded width n) := by
  refine plain_append.2 ⟨?_, plain_decimalInt n⟩
  intro b hb
  rw [List.eq_of_mem_replicate hb]
  decide

/-! ## Control bytes -/

def Printed (s : Bytes) : Prop := ∀ b ∈ s, ¬ b < 0x20

instance (s : Bytes) : Decidable (Printed s) :=
  decidable_of_iff (s.all fun b => decide (¬ b < 0x20)) (by simp [Printed])

theorem Plain.printed {s : Bytes} (h : Plain s) : Printed s := fun b hb => (h b hb).2.2

theorem Printed.newline_not_mem {s : Bytes} (h : Printed s) : newline ∉ s := fun hmem =>
  h newline hmem (by decide)

theorem printed_cons {b : UInt8} {s : Bytes} : Printed (b :: s) ↔ ¬ b < 0x20 ∧ Printed s :=
  List.forall_mem_cons

theorem printed_append {s t : Bytes} : Printed (s ++ t) ↔ Printed s ∧ Printed t :=
  List.forall_mem_append

theorem printed_escapeByte (b : UInt8) : Printed (escapeByte b) := by
  have hall : ∀ n < 256, Printed (escapeByte (UInt8.ofNat n)) := by
    decide +kernel
  simpa using hall b.toNat b.toNat_lt

/-- Controls are written by their names. -/
theorem printed_escape (s : Bytes) : Printed (escape s) := by
  induction s with
  | nil =>
      exact nofun
  | cons b s ih =>
      rw [escape_cons]
      exact printed_append.2 ⟨printed_escapeByte b, ih⟩

/-! ## Objects -/

theorem printed_quoted {s : Bytes} (h : Printed s) : Printed (quoted s) := by
  unfold quoted
  exact printed_append.2 ⟨printed_cons.2 ⟨by decide, h⟩, by decide⟩

section

variable {name : Bytes} (hname : Printed name)

include hname

theorem printed_member {value : Bytes} (hvalue : Printed value) : Printed (member name value) :=
  printed_append.2 ⟨printed_quoted hname, printed_cons.2 ⟨by decide, hvalue⟩⟩

theorem printed_textMember (s : Bytes) : Printed (textMember name s) :=
  printed_member hname (printed_quoted (printed_escape s))

theorem printed_numberMember (n : Int) : Printed (numberMember name n) :=
  printed_member hname (plain_decimalInt n).printed

end

theorem printed_option {α : Type} {o : Option α} {write : α → Bytes}
    (h : ∀ a ∈ o, Printed (write a)) : ∀ m ∈ (o.map write).toList, Printed m := by
  intro m hm
  obtain ⟨a, ha, rfl⟩ := Option.map_eq_some_iff.1 (Option.mem_toList.1 hm)
  exact h a ha

theorem printed_object {ms : List Bytes} (h : ∀ m ∈ ms, Printed m) : Printed (object ms) := by
  have hmembers : Printed (members ms) := by
    intro b hb
    rcases Bytes.mem_join hb with rfl | ⟨m, hm, hb⟩
    · decide
    · exact h m hm b hb
  exact printed_append.2 ⟨printed_cons.2 ⟨by decide, hmembers⟩, by decide⟩

end Json

end LakeUpload
