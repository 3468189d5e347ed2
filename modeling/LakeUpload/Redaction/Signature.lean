import LakeUpload.Text.Bytes

/-!
# Shared access signatures

The value of a query parameter named sig is a credential. `redact` puts a fixed word in the place
of every such value, from left to right, and keeps all other bytes.
-/

namespace LakeUpload

open Bytes (ascii isBlank lower ampersand question quote)

namespace Signature

/-- A signature runs up to the next ampersand, quote or blank. -/
def isValueByte (b : UInt8) : Bool :=
  !(b == ampersand || b == quote || isBlank b)

/-- The start of a parameter named sig, in capital or small letters. -/
def isKey (s : Bytes) : Bool :=
  match s with
  | [] => false
  | b :: name => (b == question || b == ampersand) && lower name == ascii "sig="

/-- The bytes of a key. -/
def keyLength : Nat := 5

def value (s : Bytes) : Bytes :=
  (s.drop keyLength).takeWhile isValueByte

/-- Whether the text starts with a key that has a value. -/
def startsAt (s : Bytes) : Bool :=
  isKey (s.take keyLength) && value s != []

def redacted : Bytes := ascii "REDACTED"

/-- The text with its signatures redacted, but for its first `done` bytes, which are left out. -/
def redactFrom : Nat → Bytes → Bytes
  | _, [] => []
  | done + 1, _ :: rest => redactFrom done rest
  | 0, b :: rest =>
      if startsAt (b :: rest) then
        (b :: rest).take keyLength ++ redacted ++
          redactFrom (keyLength - 1 + (value (b :: rest)).length) rest
      else b :: redactFrom 0 rest

def redact (s : Bytes) : Bytes := redactFrom 0 s

theorem redactFrom_drop (done : Nat) (s : Bytes) : redactFrom done s = redact (s.drop done) := by
  induction s generalizing done with
  | nil =>
      cases done <;> simp [redact, redactFrom]
  | cons b rest ih =>
      cases done with
      | zero =>
          rfl
      | succ done =>
          simpa [redactFrom] using ih done

theorem redact_nil : redact [] = [] := rfl

theorem redact_cons {b : UInt8} {rest : Bytes} (h : startsAt (b :: rest) = false) :
    redact (b :: rest) = b :: redact rest := by
  simp [redact, redactFrom, h]

theorem redact_of_startsAt {s : Bytes} (h : startsAt s = true) :
    redact s = s.take keyLength ++ redacted ++ redact (s.drop (keyLength + (value s).length)) := by
  cases s with
  | nil =>
      simp [startsAt, isKey] at h
  | cons b rest =>
      have hdrop : keyLength + (value (b :: rest)).length =
          (keyLength - 1 + (value (b :: rest)).length) + 1 := by
        simp only [keyLength]
        omega
      rw [hdrop, List.drop_succ_cons, ← redactFrom_drop]
      simp [redact, redactFrom, h]

end Signature

end LakeUpload
