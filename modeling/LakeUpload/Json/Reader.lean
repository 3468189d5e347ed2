import LakeUpload.Json.Escape
import LakeUpload.Text.Decimal

/-!
# Reading objects back

A strict reader for the objects that a log writes: members whose values are texts, whole numbers
and objects. Control bytes inside a text are refused, an escape with a code point stands for its
bytes in UTF-8, and a number has no leading zeros. `readString_escape` says that an escaped text
is read back byte for byte, whatever comes behind it.
-/

namespace LakeUpload

open Bytes (ascii quote backslash colon comma openBrace closeBrace isDigit)

namespace Json

inductive Value where
  | text (s : Bytes)
  | number (n : Int)
  | object (members : List (Bytes × Value))
  deriving Repr

/-! ## Strings -/

def hexValue? (b : UInt8) : Option Nat :=
  if isDigit b then some (b.toNat - 0x30)
  else if 0x61 ≤ b ∧ b ≤ 0x66 then some (b.toNat - 0x57)
  else if 0x41 ≤ b ∧ b ≤ 0x46 then some (b.toNat - 0x37)
  else none

/-- Four hexadecimal digits and what follows them. -/
def readUnit : Bytes → Option (Nat × Bytes)
  | a :: b :: c :: d :: rest => do
      let a ← hexValue? a
      let b ← hexValue? b
      let c ← hexValue? c
      let d ← hexValue? d
      return (((a * 16 + b) * 16 + c) * 16 + d, rest)
  | _ => none

/-- The bytes of a code point in UTF-8. -/
def utf8 (code : Nat) : Bytes :=
  if code < 0x80 then [UInt8.ofNat code]
  else if code < 0x800 then [UInt8.ofNat (0xc0 + code / 64), UInt8.ofNat (0x80 + code % 64)]
  else if code < 0x10000 then
    [UInt8.ofNat (0xe0 + code / 4096), UInt8.ofNat (0x80 + code / 64 % 64),
      UInt8.ofNat (0x80 + code % 64)]
  else
    [UInt8.ofNat (0xf0 + code / 262144), UInt8.ofNat (0x80 + code / 4096 % 64),
      UInt8.ofNat (0x80 + code / 64 % 64), UInt8.ofNat (0x80 + code % 64)]

/-- A code point behind the letter of its escape; those beyond 16 bits take two escapes. -/
def readCodePoint (s : Bytes) : Option (Bytes × Bytes) :=
  match readUnit s with
  | none => none
  | some (unit, rest) =>
      if 0xd800 ≤ unit ∧ unit < 0xdc00 then
        match readUnit (rest.drop 2) with
        | none => none
        | some (low, rest') =>
            if rest.take 2 = ascii "\\u" ∧ 0xdc00 ≤ low ∧ low < 0xe000 then
              some (utf8 (0x10000 + (unit - 0xd800) * 1024 + (low - 0xdc00)), rest')
            else none
      else if 0xdc00 ≤ unit ∧ unit < 0xe000 then none
      else some (utf8 unit, rest)

/-- The byte that an escape of one letter stands for. -/
def letterEscape? (b : UInt8) : Option UInt8 :=
  if b = quote ∨ b = backslash ∨ b = Bytes.slash then some b
  else if b = 0x62 then some 0x08
  else if b = 0x66 then some 0x0c
  else if b = 0x6e then some 0x0a
  else if b = 0x72 then some 0x0d
  else if b = 0x74 then some 0x09
  else none

/-- What an escape stands for, from behind its backslash. -/
def readEscape : Bytes → Option (Bytes × Bytes)
  | [] => none
  | b :: rest =>
      match letterEscape? b with
      | some c => some ([c], rest)
      | none => if b = 0x75 then readCodePoint rest else none

theorem readUnit_length {s rest : Bytes} {unit : Nat} (h : readUnit s = some (unit, rest)) :
    rest.length < s.length := by
  unfold readUnit at h
  split at h
  · simp only [bind, Option.bind_eq_some_iff, pure, Option.some.injEq, Prod.mk.injEq] at h
    obtain ⟨_, _, _, _, _, _, _, _, _, hrest⟩ := h
    subst hrest
    simp
    omega
  · cases h

theorem readCodePoint_length {s out rest : Bytes} (h : readCodePoint s = some (out, rest)) :
    rest.length < s.length := by
  unfold readCodePoint at h
  cases hunit : readUnit s with
  | none =>
      simp [hunit] at h
  | some read =>
      have hfirst := readUnit_length hunit
      simp only [hunit] at h
      split at h
      · cases hlow : readUnit (read.2.drop 2) with
        | none =>
            simp [hlow] at h
        | some second =>
            have hsecond := readUnit_length hlow
            simp only [hlow] at h
            split at h
            · simp only [Option.some.injEq, Prod.mk.injEq] at h
              rw [← h.2]
              simp only [List.length_drop] at hsecond
              omega
            · cases h
      · split at h
        · cases h
        · simp only [Option.some.injEq, Prod.mk.injEq] at h
          rw [← h.2]
          exact hfirst

theorem readEscape_of_letter {b c : UInt8} (h : letterEscape? b = some c) (rest : Bytes) :
    readEscape (b :: rest) = some ([c], rest) := by
  simp [readEscape, h]

theorem readEscape_length {s out rest : Bytes} (h : readEscape s = some (out, rest)) :
    rest.length < s.length := by
  cases s with
  | nil =>
      cases h
  | cons b tail =>
      cases hletter : letterEscape? b with
      | some c =>
          rw [readEscape_of_letter hletter] at h
          cases h
          simp
      | none =>
          by_cases hcode : b = 0x75
          · simp only [readEscape, hletter] at h
            rw [if_pos hcode] at h
            have := readCodePoint_length h
            simp only [List.length_cons]
            omega
          · simp [readEscape, hletter, hcode] at h

/-- The text up to its closing quote, and what follows it. -/
def readString (s : Bytes) : Option (Bytes × Bytes) :=
  match s with
  | [] => none
  | b :: rest =>
      if b = quote then some ([], rest)
      else if b = backslash then
        match _h : readEscape rest with
        | none => none
        | some (out, rest') => (readString rest').map fun r => (out ++ r.1, r.2)
      else if b < 0x20 then none
      else (readString rest).map fun r => (b :: r.1, r.2)
termination_by s.length
decreasing_by
  · have := readEscape_length _h
    simp only [List.length_cons]
    omega
  · simp

theorem readString_quote (rest : Bytes) : readString (quote :: rest) = some ([], rest) := by
  rw [readString]
  simp

/-- A text of one byte stands for itself unless it needs an escape. -/
theorem readString_plain {b : UInt8} (hquote : b ≠ quote) (hbackslash : b ≠ backslash)
    (hcontrol : ¬ b < 0x20) (rest : Bytes) :
    readString (b :: rest) = (readString rest).map fun r => (b :: r.1, r.2) := by
  rw [readString]
  simp [hquote, hbackslash, hcontrol]

theorem readString_escape_of {out rest s : Bytes} (h : readEscape s = some (out, rest)) :
    readString (backslash :: s) = (readString rest).map fun r => (out ++ r.1, r.2) := by
  rw [readString]
  have hne : ¬ (backslash = quote) := by decide
  simp only [hne, if_false, if_true]
  split
  · rename_i hnone
    rw [h] at hnone
    cases hnone
  · rename_i hsome
    rw [h] at hsome
    cases hsome
    rfl

/-- The escapes of controls without a letter, and the bytes that they stand for. -/
theorem readEscape_control (n : Nat) (hn : n < 0x20) (rest : Bytes) :
    readEscape (0x75 :: 0x30 :: 0x30 :: hexDigit (UInt8.ofNat n / 16) ::
      hexDigit (UInt8.ofNat n % 16) :: rest) = some ([UInt8.ofNat n], rest) := by
  have hdigits : ∀ n < 0x20, hexValue? (hexDigit (UInt8.ofNat n / 16)) = some (n / 16) ∧
      hexValue? (hexDigit (UInt8.ofNat n % 16)) = some (n % 16) := by
    decide
  have hzero : hexValue? 0x30 = some 0 := by decide
  have hcode : ((0 * 16 + 0) * 16 + n / 16) * 16 + n % 16 = n := by omega
  have hletter : letterEscape? 0x75 = none := by decide
  simp only [readEscape, hletter, if_true, readCodePoint, readUnit, hzero, (hdigits n hn).1,
    (hdigits n hn).2, bind, Option.bind_some, pure, hcode]
  have h1 : ¬ (0xd800 ≤ n ∧ n < 0xdc00) := by omega
  have h2 : ¬ (0xdc00 ≤ n ∧ n < 0xe000) := by omega
  have h3 : n < 0x80 := by omega
  simp only [h1, h2, if_false, utf8, h3, if_true]

theorem letterEscape?_of_letterOf? {b letter : UInt8} (h : letterOf? b = some letter) :
    letterEscape? letter = some b := by
  unfold letterOf? at h
  repeat' split at h
  all_goals cases h
  all_goals rename_i heq; subst heq; decide

theorem readString_escapeByte (b : UInt8) (rest : Bytes) :
    readString (escapeByte b ++ rest) = (readString rest).map fun r => (b :: r.1, r.2) := by
  unfold escapeByte
  split
  · rename_i letter hletter
    exact readString_escape_of (readEscape_of_letter (letterEscape?_of_letterOf? hletter) rest)
  · rename_i hletter
    split
    · rename_i hcontrol
      have hread := readEscape_control b.toNat hcontrol rest
      rw [UInt8.ofNat_toNat] at hread
      exact readString_escape_of hread
    · rename_i hcontrol
      have hquote : b ≠ quote := by
        intro heq
        subst heq
        revert hletter
        decide
      have hbackslash : b ≠ backslash := by
        intro heq
        subst heq
        revert hletter
        decide
      exact readString_plain hquote hbackslash hcontrol rest

/-- Reading an escaped text stops at the quote behind it. -/
theorem readString_escape (s rest : Bytes) :
    readString (escape s ++ quote :: rest) = some (s, rest) := by
  induction s with
  | nil =>
      simpa [escape] using readString_quote rest
  | cons b s ih =>
      rw [escape_cons, List.append_assoc, readString_escapeByte, ih]
      rfl

/-- An escaped text ends at the quote behind it, so two of them cannot run into each other. -/
theorem escape_quote_inj {s s' rest rest' : Bytes}
    (h : escape s ++ quote :: rest = escape s' ++ quote :: rest') : s = s' ∧ rest = rest' := by
  have hread := congrArg readString h
  rw [readString_escape, readString_escape] at hread
  exact Prod.mk.inj (Option.some.inj hread)

/-! ## Values -/

def isBlank (b : UInt8) : Bool := b == 0x20 || b == 0x09 || b == 0x0a || b == 0x0d

def skip (s : Bytes) : Bytes := s.dropWhile isBlank

/-- Digits without a leading zero, as their value, and what follows them. -/
def readDigits (s : Bytes) : Option (Nat × Bytes) :=
  let digits := s.takeWhile isDigit
  if digits.length > 1 ∧ digits.head? = some 0x30 then none
  else (Bytes.ofDigits? digits).map fun n => (n, s.dropWhile isDigit)

/-- A whole number; a fraction or an exponent behind it is refused. -/
def readNumber (s : Bytes) : Option (Int × Bytes) :=
  let read : Option (Int × Bytes) := match s with
    | [] => none
    | b :: rest =>
        if b = 0x2d then (readDigits rest).map fun r => (-(r.1 : Int), r.2)
        else (readDigits (b :: rest)).map fun r => ((r.1 : Int), r.2)
  read.filter fun r => r.2.head?.all fun b => b != Bytes.dot && b != 0x65 && b != 0x45

mutual

/-- A value at the start of the text, and what follows it. The depth bounds how many values and
members are read one inside or behind another. -/
def readValue : Nat → Bytes → Option (Value × Bytes)
  | 0, _ => none
  | depth + 1, s =>
      match skip s with
      | [] => none
      | b :: rest =>
          if b = quote then (readString rest).map fun r => (.text r.1, r.2)
          else if b = openBrace then
            match skip rest with
            | [] => none
            | c :: tail =>
                if c = closeBrace then some (.object [], tail)
                else (readMembers depth (c :: tail)).map fun r => (.object r.1, r.2)
          else (readNumber (b :: rest)).map fun r => (.number r.1, r.2)

/-- Members up to the closing brace. -/
def readMembers : Nat → Bytes → Option (List (Bytes × Value) × Bytes)
  | 0, _ => none
  | depth + 1, s =>
      match skip s with
      | [] => none
      | b :: rest =>
          if b = quote then
            match readString rest with
            | none => none
            | some (name, rest) =>
                match skip rest with
                | [] => none
                | c :: rest =>
                    if c = colon then
                      match readValue depth rest with
                      | none => none
                      | some (value, rest) =>
                          match skip rest with
                          | [] => none
                          | d :: rest =>
                              if d = closeBrace then some ([(name, value)], rest)
                              else if d = comma then
                                (readMembers depth rest).map fun r => ((name, value) :: r.1, r.2)
                              else none
                    else none
          else none

end

/-- The value that the whole text stands for. -/
def read? (s : Bytes) : Option Value :=
  match readValue (s.length + 1) s with
  | some (value, rest) => if skip rest = [] then some value else none
  | none => none

end Json

end LakeUpload
