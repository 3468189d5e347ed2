import LakeUpload.Text.Bytes

/-!
# What to hide

A configuration says which of the two kinds of secret are hidden, local paths and signatures, and
how much of a file name stays visible.
-/

namespace LakeUpload

open Bytes (ascii)

namespace Redaction

structure Config where
  paths : Bool := false
  signatures : Bool := true
  /-- The first byte of this text stands for each hidden byte of a path. -/
  mark : Bytes := ascii "*"
  /-- Bytes of a file name that stay as they are. -/
  visible : Nat := 4
  deriving DecidableEq, Repr

namespace Config

def all : Config := { paths := true }

def none : Config := { signatures := false }

/-- The byte that stands for a hidden one; an empty mark gives the zero byte. -/
def markByte (config : Config) : UInt8 := config.mark.headD 0

end Config

end Redaction

end LakeUpload
