import LakeUpload.Log.Logger
import LakeUpload.Proofs.Json.Printed
import LakeUpload.Proofs.Log.Entries

/-!
# Calls read back

What a call to a logger has to say, as an ordered list of members. A structured logger writes the
call on one line, and a strict reader gets these members back from it, whatever bytes message,
details and file hold: only category and function go without escapes, and a program chooses them.
-/

namespace LakeUpload

open Bytes (ascii newline)
open Json (Value Plain Printed)

namespace Log

/-! ## What is said -/

/-- A place that is given with a call; it is only told with a file, which ends at a zero byte. -/
def Record.place (record : Record) : List (Bytes × Value) :=
  match record.file with
  | none => []
  | some file =>
      [(ascii "source_location", .object (
        (ascii "file", .text (Bytes.untilZero file)) ::
        (if 0 < record.line then [(ascii "line", .number record.line)] else []) ++
        (record.function.map fun name => (ascii "function", Value.text name)).toList))]

/-- What a call at an instant says. -/
def Record.fields (hide : Redaction.Config) (nanos : Int) (record : Record) :
    List (Bytes × Value) :=
  [(ascii "timestamp", .text (Stamp.zulu nanos)),
    (ascii "level", .text record.level.name),
    (ascii "category", .text record.category),
    (ascii "message", .text (Redaction.hideMessage hide record.message))] ++
  (record.details.map (Details.fields hide)).getD [] ++ record.place

/-- What a program chooses in a call: one of the categories, and a function as an identifier has
it, if any. -/
structure Record.Tame (record : Record) : Prop where
  category : ∃ category : Category, record.category = category.text
  function : ∀ name ∈ record.function, Plain name

/-! ## Parts without escapes -/

theorem plain_category (category : Category) : Plain category.text := by
  cases category <;> decide

theorem plain_dateText (secs : Int) : Plain (Stamp.dateText secs) := by
  have hdash : Plain (ascii "-") := by decide
  simp only [Stamp.dateText, Json.plain_append]
  exact ⟨⟨⟨⟨Json.plain_padded _ _, hdash⟩, Json.plain_padded _ _⟩, hdash⟩, Json.plain_padded _ _⟩

theorem plain_timeText (secs : Int) : Plain (Stamp.timeText secs) := by
  have hcolon : Plain (ascii ":") := by decide
  simp only [Stamp.timeText, Json.plain_append]
  exact ⟨⟨⟨⟨Json.plain_padded _ _, hcolon⟩, Json.plain_padded _ _⟩, hcolon⟩, Json.plain_padded _ _⟩

theorem plain_zulu (nanos : Int) : Plain (Stamp.zulu nanos) := by
  simp only [Stamp.zulu, Json.plain_append]
  exact ⟨⟨⟨⟨⟨plain_dateText _, by decide⟩, plain_timeText _⟩, by decide⟩, Json.plain_padded _ _⟩,
    by decide⟩

/-- No zero byte cuts a plain text short. -/
theorem untilZero_of_plain {s : Bytes} (h : Plain s) : Bytes.untilZero s = s := by
  have hall : ∀ b ∈ s, (b != 0) = true := by
    intro b hb
    have hne : b ≠ 0 := by
      rintro rfl
      exact (h 0 hb).2.2 (by decide)
    simpa using hne
  have htake : (s ++ []).takeWhile (· != 0) = s ++ [] := List.takeWhile_append_of_pos hall
  rwa [List.append_nil] at htake

/-! ## Entries of a logger -/

section

variable {record : Record} (h : record.Tame)

include h

theorem Record.Tame.function_eq : record.function.map Bytes.untilZero = record.function := by
  cases hfunction : record.function with
  | none =>
      rfl
  | some name =>
      simp [untilZero_of_plain (h.function name hfunction)]

theorem location_entry (nanos : Int) :
    (Logger.entry nanos record).location =
      { file := record.file.map Bytes.untilZero
        line := if 0 < record.line then some record.line else none
        function := record.function } := by
  unfold Logger.entry
  split
  · simp [Entry.withLocation, Location.refine, Entry.stamped, h.function_eq]
  · rename_i hnowhere
    simp only [Bool.or_eq_true, Option.isSome_iff_ne_none, decide_eq_true_eq, not_or,
      Decidable.not_not] at hnowhere
    simp [Entry.stamped, hnowhere.1.1, hnowhere.1.2, hnowhere.2]

theorem fields_location_entry (nanos : Int) :
    (Logger.entry nanos record).location.fields = record.place := by
  rw [location_entry h]
  cases hfile : record.file with
  | none =>
      simp [Location.fields, Record.place, hfile]
  | some file =>
      by_cases hline : 0 < record.line <;>
        simp [Location.fields, Record.place, hfile, hline]

theorem fields_entry (hide : Redaction.Config) (nanos : Int) :
    (Logger.entry nanos record).fields hide = record.fields hide nanos := by
  rw [Entry.fields, fields_location_entry h, Record.fields]
  unfold Logger.entry
  split <;> rfl

theorem clean_entry (nanos : Int) : (Logger.entry nanos record).Clean := by
  obtain ⟨category, hcategory⟩ := h.category
  constructor
  · have hstamp : (Logger.entry nanos record).timestamp = Stamp.zulu nanos := by
      unfold Logger.entry
      split <;> rfl
    rw [hstamp]
    exact plain_zulu nanos
  · have hsame : (Logger.entry nanos record).category = record.category := by
      unfold Logger.entry
      split <;> rfl
    rw [hsame, hcategory]
    exact plain_category category
  · intro _ name hname
    rw [location_entry h] at hname
    exact h.function name hname

theorem read_entry (hide : Redaction.Config) (nanos : Int) :
    Json.read? ((Logger.entry nanos record).toJson hide) =
      some (.object (record.fields hide nanos)) := by
  rw [← fields_entry h]
  exact ((Logger.entry nanos record).spells_members hide).spelled.read?_eq_some_iff.2
    (clean_entry h nanos)

end

/-! ## One line -/

theorem Details.printed_members (hide : Redaction.Config) (d : Details) :
    ∀ m ∈ d.members hide, Printed m := by
  have htext {name : String} (hname : Printed (ascii name)) (o : Option Bytes)
      (shown : Bytes → Bytes) :
      ∀ m ∈ (o.map fun s => Json.textMember (ascii name) (shown s)).toList, Printed m :=
    Json.printed_option fun s _ => Json.printed_textMember hname (shown s)
  have hnumber {α : Type} {name : String} (hname : Printed (ascii name)) (o : Option α)
      (number : α → Int) :
      ∀ m ∈ (o.map fun n => Json.numberMember (ascii name) (number n)).toList, Printed m :=
    Json.printed_option fun n _ => Json.printed_numberMember hname (number n)
  simp only [Details.members, List.forall_mem_append]
  refine ⟨⟨⟨⟨⟨⟨⟨?_, ?_⟩, ?_⟩, ?_⟩, ?_⟩, ?_⟩, ?_⟩, ?_⟩
  · exact htext (by decide) (filled d.transferId) id
  · exact htext (by decide) (filled d.source) (Redaction.hidePath hide)
  · exact htext (by decide) (filled d.destination) (Redaction.hideUrl hide)
  · exact hnumber (by decide) d.sourceSize (·.toNat)
  · exact hnumber (by decide) d.chunkSize (·.toNat)
  · exact hnumber (by decide) d.chunkCount (·.toNat)
  · exact htext (by decide) d.stage id
  · exact htext (by decide) d.errorMessage (Redaction.hideMessage hide)

theorem Location.printed_members {location : Location}
    (h : location.file ≠ none → ∀ name ∈ location.function, Plain name) :
    ∀ m ∈ location.members, Printed m := by
  cases hfile : location.file with
  | none =>
      simp [Location.members, hfile]
  | some file =>
      have hfunction := h (by simp [hfile])
      simp only [Location.members, hfile, List.mem_singleton, forall_eq]
      refine Json.printed_member (by decide) (Json.printed_object ?_)
      simp only [List.forall_mem_append, List.mem_singleton, forall_eq]
      refine ⟨⟨Json.printed_textMember (by decide) file, ?_⟩, ?_⟩
      · exact Json.printed_option fun n _ => Json.printed_numberMember (by decide) n
      · exact Json.printed_option fun name hname =>
          Json.printed_member (by decide) (Json.printed_quoted (hfunction name hname).printed)

/-- An entry takes one line, whatever its escaped parts hold. -/
theorem Entry.Clean.printed {entry : Entry} (h : entry.Clean) (hide : Redaction.Config) :
    Printed (entry.toJson hide) := by
  have hquoted {name : String} (hname : Printed (ascii name)) {s : Bytes} (hs : Plain s) :
      Printed (Json.member (ascii name) (Json.quoted s)) :=
    Json.printed_member hname (Json.printed_quoted hs.printed)
  refine Json.printed_object ?_
  simp only [Entry.members, List.forall_mem_append, List.forall_mem_cons]
  refine ⟨⟨⟨?_, ?_, ?_, ?_, nofun⟩, ?_⟩, Location.printed_members h.function⟩
  · exact hquoted (by decide) h.timestamp
  · exact hquoted (by decide) (plain_name entry.level)
  · exact hquoted (by decide) h.category
  · exact Json.printed_textMember (by decide) _
  · cases entry.details with
    | none =>
        exact nofun
    | some d =>
        exact d.printed_members hide

end Log

end LakeUpload
