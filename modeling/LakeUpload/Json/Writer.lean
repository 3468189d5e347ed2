import LakeUpload.Json.Escape
import LakeUpload.Text.Decimal

/-!
# Written objects

An object is written without blanks: members between braces, a comma between two of them.
-/

namespace LakeUpload

open Bytes (ascii quote colon comma openBrace closeBrace decimalInt)

namespace Json

/-- The text between quotes, without any escape. -/
def quoted (s : Bytes) : Bytes := quote :: s ++ [quote]

/-- A member with a value that is written already. -/
def member (name value : Bytes) : Bytes := quoted name ++ colon :: value

def textMember (name value : Bytes) : Bytes := member name (quoted (escape value))

def numberMember (name : Bytes) (value : Int) : Bytes := member name (decimalInt value)

/-- The members of an object, without its braces. -/
def members (ms : List Bytes) : Bytes := Bytes.join comma ms

def object (ms : List Bytes) : Bytes := openBrace :: members ms ++ [closeBrace]

end Json

end LakeUpload
