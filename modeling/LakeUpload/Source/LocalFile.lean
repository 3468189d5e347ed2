import LakeUpload.Log.Logger
import LakeUpload.Remote.Properties
import LakeUpload.Source.ContentType
import LakeUpload.Source.FileTree
import LakeUpload.Fault
import LakeUpload.Time.Clock

/-!
# Sources

A source tells what is known of the content that is to be sent, or why nothing is, and may leave
messages in the log. A local file is a source; its headers come from its name.
-/

namespace LakeUpload

open Bytes (ascii slash decimal)

structure SourceProperties where
  headers : Headers := {}
  size : Option UInt64 := none
  /-- Nanoseconds since the start of 1970. -/
  modified : Option Int := none
  deriving DecidableEq, Repr

structure Source where
  answer : Except Fault SourceProperties
  messages : List Log.Message := []

namespace LocalFile

/-- The part of a path behind its last slash. -/
def fileName (path : Bytes) : Bytes :=
  match Bytes.cutLast slash path with
  | none => path
  | some (_, name) => name

def notFound (path : Bytes) : Fault :=
  ⟨.metadataFetchFailed, ascii "source not found: " ++ path⟩

def notRegular (path : Bytes) : Fault :=
  ⟨.metadataFetchFailed, ascii "source is not a regular file: " ++ path⟩

def sizeUnread (path reason : Bytes) : Fault :=
  ⟨.metadataFetchFailed, ascii "cannot read size of " ++ path ++ ascii ": " ++ reason⟩

def timeUnread (path reason : Bytes) : Fault :=
  ⟨.metadataFetchFailed, ascii "cannot read modification time of " ++ path ++ ascii ": " ++ reason⟩

def headers (path : Bytes) : Headers :=
  { contentType := (ContentType.ofFile (fileName path)).1
    contentEncoding := (ContentType.ofFile (fileName path)).2 }

def foundMessage (path : Bytes) (size : UInt64) : Log.Message :=
  { level := .debug
    category := .source
    text := ascii "source " ++ path ++ ascii " (" ++ (headers path).contentType ++ ascii ", " ++
      decimal size.toNat ++ ascii " bytes)"
    site := some .sourceFound }

/-- A file that was found, as its size and its time in seconds are told, if they are. -/
def measured (path : Bytes) (size : Except Bytes UInt64) (modified : Except Bytes Int) : Source :=
  match size with
  | .error reason => { answer := .error (sizeUnread path reason) }
  | .ok size =>
      match modified with
      | .error reason => { answer := .error (timeUnread path reason) }
      | .ok seconds =>
          { answer := .ok {
              headers := headers path
              size := some size
              modified := some (wrap64 (seconds * 1000000000)) }
            messages := [foundMessage path size] }

/-- The file at a path as a source; the tree knows size and time of all its files. -/
def source (tree : FileTree) (path : Bytes) : Source :=
  match tree.find? path with
  | none => { answer := .error (notFound path) }
  | some (.file size modified) => measured path (.ok size) (.ok modified)
  | some _ => { answer := .error (notRegular path) }

/-- The fault names the path, and nothing is logged. -/
def Refuses (path : Bytes) (source : Source) (fault : Fault) : Prop :=
  fault.code = .metadataFetchFailed ∧ path <:+: fault.message ∧ source.messages = []

theorem measured_refuses {path : Bytes} {size : Except Bytes UInt64} {modified : Except Bytes Int}
    {fault : Fault} (h : (measured path size modified).answer = .error fault) :
    Refuses path (measured path size modified) fault := by
  cases size with
  | error reason =>
      cases h
      exact ⟨rfl, ⟨_, _, (List.append_assoc _ _ _).symm⟩, rfl⟩
  | ok size =>
      cases modified with
      | error reason =>
          cases h
          exact ⟨rfl, ⟨_, _, (List.append_assoc _ _ _).symm⟩, rfl⟩
      | ok seconds =>
          cases h

theorem source_refuses {tree : FileTree} {path : Bytes} {fault : Fault}
    (h : (source tree path).answer = .error fault) :
    Refuses path (source tree path) fault := by
  unfold source at h ⊢
  split at h
  · cases h
    exact ⟨rfl, (List.suffix_append _ _).isInfix, rfl⟩
  · exact measured_refuses h
  · cases h
    exact ⟨rfl, (List.suffix_append _ _).isInfix, rfl⟩

end LocalFile

end LakeUpload
