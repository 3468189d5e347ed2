import LakeUpload.Log.Entry
import LakeUpload.Proofs.Json.Objects

/-!
# Entries read back

What a structured entry says, as an ordered list of members, beside the bytes that are written for
it. A strict reader gets this list back exactly if the parts that are written without escapes are
plain: the timestamp, the category, and the function of a place that is written. All other parts
may hold any bytes.
-/

namespace LakeUpload

open Bytes (ascii)
open Json (Value Plain Spelled Spells)

namespace Log

/-! ## What is said -/

def Details.fields (hide : Redaction.Config) (d : Details) : List (Bytes × Value) :=
  ((filled d.transferId).map fun s => (ascii "transfer_id", Value.text s)).toList ++
  ((filled d.source).map fun s =>
    (ascii "source", Value.text (Redaction.hidePath hide s))).toList ++
  ((filled d.destination).map fun s =>
    (ascii "destination", Value.text (Redaction.hideUrl hide s))).toList ++
  (d.sourceSize.map fun n => (ascii "source_size", Value.number n.toNat)).toList ++
  (d.chunkSize.map fun n => (ascii "chunk_size", Value.number n.toNat)).toList ++
  (d.chunkCount.map fun n => (ascii "num_chunks", Value.number n.toNat)).toList ++
  (d.stage.map fun s => (ascii "stage", Value.text s)).toList ++
  (d.errorMessage.map fun s =>
    (ascii "error_message", Value.text (Redaction.hideMessage hide s))).toList

def Location.fields (location : Location) : List (Bytes × Value) :=
  match location.file with
  | none => []
  | some file =>
      [(ascii "source_location", .object (
        [(ascii "file", Value.text file)] ++
        (location.line.map fun n => (ascii "line", Value.number n)).toList ++
        (location.function.map fun name => (ascii "function", Value.text name)).toList))]

def Entry.fields (hide : Redaction.Config) (entry : Entry) : List (Bytes × Value) :=
  [(ascii "timestamp", .text entry.timestamp),
    (ascii "level", .text entry.level.name),
    (ascii "category", .text entry.category),
    (ascii "message", .text (Redaction.hideMessage hide entry.message))] ++
  (entry.details.map (Details.fields hide)).getD [] ++
  entry.location.fields

/-- The parts without escapes need none. -/
structure Entry.Clean (entry : Entry) : Prop where
  timestamp : Plain entry.timestamp
  category : Plain entry.category
  function : entry.location.file ≠ none → ∀ name ∈ entry.location.function, Plain name

/-! ## What is written -/

theorem spells_congr {ms : List Bytes} {fields : List (Bytes × Value)} {clean clean' : Prop}
    (h : Spells ms fields clean) (hiff : clean ↔ clean') : Spells ms fields clean' :=
  propext hiff ▸ h

section

variable {name : Bytes} (hname : Plain name)

include hname

theorem spells_quoted (s : Bytes) :
    Spells [Json.member name (Json.quoted s)] [(name, .text s)] (Plain s) :=
  spells_congr (.cons hname (Json.spelled_quoted s) .nil) (and_iff_left trivial)

theorem spells_text (s : Bytes) : Spells [Json.textMember name s] [(name, .text s)] True :=
  spells_congr (.cons hname (Json.spelled_escape s) .nil) (and_iff_left trivial)

theorem spells_number (n : Int) : Spells [Json.numberMember name n] [(name, .number n)] True :=
  spells_congr (.cons hname (Json.spelled_decimalInt n) .nil) (and_iff_left trivial)

end

/-- A part that may be absent is read back if it is wherever it is present. -/
theorem spells_option {α : Type} (o : Option α) {write : α → Bytes} {field : α → Bytes × Value}
    {clean : α → Prop} (h : ∀ a, Spells [write a] [field a] (clean a)) :
    Spells (o.map write).toList (o.map field).toList (∀ a ∈ o, clean a) := by
  cases o with
  | none =>
      exact spells_congr .nil (by simp)
  | some a =>
      exact spells_congr (h a) (by simp)

theorem Details.spells_members (hide : Redaction.Config) (d : Details) :
    Spells (d.members hide) (d.fields hide) True := by
  have htext (name : String) (hname : Plain (ascii name)) (o : Option Bytes)
      (shown : Bytes → Bytes) :
      Spells (o.map fun s => Json.textMember (ascii name) (shown s)).toList
        (o.map fun s => (ascii name, Value.text (shown s))).toList True :=
    spells_congr (spells_option o fun s => spells_text hname (shown s)) (by simp)
  have hnumber {α : Type} (name : String) (hname : Plain (ascii name)) (o : Option α)
      (number : α → Int) :
      Spells (o.map fun n => Json.numberMember (ascii name) (number n)).toList
        (o.map fun n => (ascii name, Value.number (number n))).toList True :=
    spells_congr (spells_option o fun n => spells_number hname (number n)) (by simp)
  have htransferId := htext "transfer_id" (by decide) (filled d.transferId) id
  have hsource := htext "source" (by decide) (filled d.source) (Redaction.hidePath hide)
  have hdestination := htext "destination" (by decide) (filled d.destination)
    (Redaction.hideUrl hide)
  have hsize := hnumber "source_size" (by decide) d.sourceSize (·.toNat)
  have hchunk := hnumber "chunk_size" (by decide) d.chunkSize (·.toNat)
  have hcount := hnumber "num_chunks" (by decide) d.chunkCount (·.toNat)
  have hstage := htext "stage" (by decide) d.stage id
  have herror := htext "error_message" (by decide) d.errorMessage (Redaction.hideMessage hide)
  exact spells_congr (((((((htransferId.append hsource).append hdestination).append hsize).append
    hchunk).append hcount).append hstage).append herror) (by simp)

theorem plain_name (level : Level) : Plain level.name := by
  unfold Level.name
  repeat' split
  all_goals decide

theorem Location.spells_members (location : Location) :
    Spells location.members location.fields
      (location.file ≠ none → ∀ name ∈ location.function, Plain name) := by
  cases hfile : location.file with
  | none =>
      simp only [Location.members, Location.fields, hfile]
      exact spells_congr .nil (by simp)
  | some file =>
      have hfileName : Plain (ascii "file") := by decide
      have hlineName : Plain (ascii "line") := by decide
      have hfunctionName : Plain (ascii "function") := by decide
      have hplace := ((spells_text hfileName file).append
        (spells_option location.line fun n => spells_number hlineName n)).append
        (spells_option location.function fun name => spells_quoted hfunctionName name)
      simp only [Location.members, Location.fields, hfile]
      exact spells_congr (.cons (by decide) hplace.spelled .nil) (by simp)

theorem Entry.spells_members (hide : Redaction.Config) (entry : Entry) :
    Spells (entry.members hide) (entry.fields hide) entry.Clean := by
  have hdetails : Spells ((entry.details.map (Details.members hide)).getD [])
      ((entry.details.map (Details.fields hide)).getD []) True := by
    cases entry.details with
    | none =>
        exact .nil
    | some d =>
        exact d.spells_members hide
  have hhead : Spells
      [Json.member (ascii "timestamp") (Json.quoted entry.timestamp),
        Json.member (ascii "level") (Json.quoted entry.level.name),
        Json.member (ascii "category") (Json.quoted entry.category),
        Json.textMember (ascii "message") (Redaction.hideMessage hide entry.message)]
      [(ascii "timestamp", .text entry.timestamp), (ascii "level", .text entry.level.name),
        (ascii "category", .text entry.category),
        (ascii "message", .text (Redaction.hideMessage hide entry.message))]
      (Plain entry.timestamp ∧ Plain entry.level.name ∧ Plain entry.category ∧ True) :=
    (spells_quoted (by decide) entry.timestamp).append
      ((spells_quoted (by decide) entry.level.name).append
        ((spells_quoted (by decide) entry.category).append
          (spells_text (by decide) (Redaction.hideMessage hide entry.message))))
  refine spells_congr ((hhead.append hdetails).append entry.location.spells_members) ?_
  constructor
  · rintro ⟨⟨⟨htimestamp, -, hcategory, -⟩, -⟩, hfunction⟩
    exact ⟨htimestamp, hcategory, hfunction⟩
  · rintro ⟨htimestamp, hcategory, hfunction⟩
    exact ⟨⟨⟨htimestamp, plain_name _, hcategory, trivial⟩, trivial⟩, hfunction⟩

end Log

end LakeUpload
