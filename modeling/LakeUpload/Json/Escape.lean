import LakeUpload.Text.Bytes

/-!
# Escaped strings

Inside the quotes of a string, quotes, backslashes and control bytes are written as escapes: five
controls have a letter, the others four hexadecimal digits. Bytes from 0x20 on stay as they are.
-/

namespace LakeUpload

open Bytes (quote backslash)

namespace Json

/-- The hexadecimal digit with this value, in small letters. -/
def hexDigit (n : UInt8) : UInt8 :=
  if n < 10 then 0x30 + n else 0x57 + n

/-- The letter of the escape of a byte that has one. -/
def letterOf? (b : UInt8) : Option UInt8 :=
  if b = quote then some quote
  else if b = backslash then some backslash
  else if b = 0x08 then some 0x62
  else if b = 0x0c then some 0x66
  else if b = 0x0a then some 0x6e
  else if b = 0x0d then some 0x72
  else if b = 0x09 then some 0x74
  else none

def escapeByte (b : UInt8) : Bytes :=
  match letterOf? b with
  | some letter => [backslash, letter]
  | none =>
      if b < 0x20 then [backslash, 0x75, 0x30, 0x30, hexDigit (b / 16), hexDigit (b % 16)]
      else [b]

def escape (s : Bytes) : Bytes := s.flatMap escapeByte

theorem escape_cons (b : UInt8) (s : Bytes) : escape (b :: s) = escapeByte b ++ escape s := rfl

end Json

end LakeUpload
