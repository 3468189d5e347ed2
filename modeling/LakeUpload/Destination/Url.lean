import LakeUpload.Text.Decimal

/-!
# Destination URLs

A destination names a path in a file system of a storage account. Its identity is the text that
`Url.toText` writes: two destinations with one text are the same object to the remote service.
-/

namespace LakeUpload

open Bytes (ascii decimal slash colon question)

inductive Scheme where
  | http
  | https
  deriving DecidableEq, Repr

namespace Scheme

def text : Scheme → Bytes
  | http => ascii "http"
  | https => ascii "https"

/-- The scheme with this name, which is in small letters. -/
def ofText? (name : Bytes) : Option Scheme :=
  if name = http.text then some http
  else if name = https.text then some https
  else none

theorem ofText?_text (scheme : Scheme) : ofText? scheme.text = some scheme := by
  cases scheme <;> decide

theorem text_of_ofText? {name : Bytes} {scheme : Scheme} (h : ofText? name = some scheme) :
    scheme.text = name := by
  unfold ofText? at h
  split at h
  · rename_i hname
    cases h
    exact hname.symm
  · split at h
    · rename_i hname
      cases h
      exact hname.symm
    · cases h

end Scheme

structure Url where
  scheme : Scheme
  /-- In small letters, with the brackets of an address literal. -/
  host : Bytes
  port : Option UInt16 := none
  /-- Empty where the destination is the root of the account. -/
  filesystem : Bytes := []
  /-- The path inside the file system, without a slash in front or behind. -/
  path : Bytes := []
  /-- What follows the question mark, which is left out where nothing follows. -/
  query : Bytes := []
  deriving DecidableEq, Repr

namespace Url

def portText : Option UInt16 → Bytes
  | none => []
  | some port => colon :: decimal port.toNat

/-- The file system and the path, each with its slash, as far as they are there. -/
def pathText (filesystem path : Bytes) : Bytes :=
  if filesystem = [] then []
  else slash :: filesystem ++ (if path = [] then [] else slash :: path)

def queryText (query : Bytes) : Bytes :=
  if query = [] then [] else question :: query

/-- The identity of the destination. -/
def toText (url : Url) : Bytes :=
  url.scheme.text ++ ascii "://" ++ url.host ++ portText url.port ++
    pathText url.filesystem url.path ++ queryText url.query

end Url

end LakeUpload
