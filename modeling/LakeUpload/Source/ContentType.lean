import LakeUpload.Text.Bytes

/-!
# Content types

The type of a content is guessed from the extension of its name: what follows the last dot of the
last component, in any case of letters. Slashes and backslashes end a component.
-/

namespace LakeUpload

open Bytes (ascii dot lower isSeparator cutLast cutLastBy)

namespace ContentType

/-- The part behind the last slash or backslash. -/
def lastComponent (name : Bytes) : Bytes :=
  match cutLastBy isSeparator name with
  | none => name
  | some (_, after) => after

/-- The last dot of the last component and what follows it, in small letters; empty without one. -/
def extension (name : Bytes) : Bytes :=
  match cutLast dot (lastComponent name) with
  | none => []
  | some (_, after) => lower (dot :: after)

/-- The known extensions with their types. -/
def table : List (Bytes × Bytes) :=
  [(".txt", "text/plain"),
    (".csv", "text/csv"),
    (".html", "text/html"),
    (".htm", "text/html"),
    (".css", "text/css"),
    (".js", "application/javascript"),
    (".json", "application/json"),
    (".xml", "application/xml"),
    (".pdf", "application/pdf"),
    (".zip", "application/zip"),
    (".gz", "application/gzip"),
    (".tar", "application/x-tar"),
    (".parquet", "application/vnd.apache.parquet"),
    (".avro", "application/avro"),
    (".png", "image/png"),
    (".jpg", "image/jpeg"),
    (".jpeg", "image/jpeg"),
    (".gif", "image/gif"),
    (".svg", "image/svg+xml"),
    (".mp3", "audio/mpeg"),
    (".mp4", "video/mp4")].map fun pair => (ascii pair.1, ascii pair.2)

/-- The type of a content of which nothing is known. -/
def unknown : Bytes := ascii "application/octet-stream"

def ofExtension (ext : Bytes) : Bytes :=
  match table.find? (fun pair => pair.1 == ext) with
  | some pair => pair.2
  | none => unknown

def ofName (name : Bytes) : Bytes := ofExtension (extension name)

def gzipExtension : Bytes := ascii ".gz"

/-- Whether the name is that of a compressed file. -/
def isGzip (name : Bytes) : Bool := extension name == gzipExtension

/-- Type and encoding of a file: a compressed file has the type of what it would be unpacked. -/
def ofFile (name : Bytes) : Bytes × Bytes :=
  if isGzip name then (ofName (name.take (name.length - 3)), ascii "gzip")
  else (ofName name, [])

theorem lastComponent_of_all {name : Bytes} (h : ∀ b ∈ name, isSeparator b = false) :
    lastComponent name = name := by
  simp [lastComponent, Bytes.cutLastBy_eq_none_iff.2 h]

theorem lastComponent_append {sep : UInt8} {name : Bytes} (hsep : isSeparator sep = true)
    (h : ∀ b ∈ name, isSeparator b = false) (directory : Bytes) :
    lastComponent (directory ++ sep :: name) = name := by
  simp [lastComponent, Bytes.cutLastBy_append hsep h]

end ContentType

end LakeUpload
