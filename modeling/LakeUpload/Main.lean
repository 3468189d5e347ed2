import LakeUpload.Demo
import Std.Time.DateTime.Timestamp

/-!
# The command line

Looks at the file that is named on the command line, runs the demonstration on it, and prints what
comes of that.
-/

namespace LakeUpload

namespace Demo

/-- What is found at a path. -/
def nodeOf (path : String) : IO (Option Node) := do
  try
    let found ← (← IO.FS.realPath path).metadata
    match found.type with
    | .file => return some (.file found.byteSize found.modified.sec)
    | .dir => return some .directory
    | _ => return some .special
  catch _ =>
    return none

def treeOf (args : List String) : IO FileTree := do
  match args with
  | [] => return .empty
  | path :: _ =>
      match ← nodeOf path with
      | none => return .empty
      | some node => return FileTree.empty.add path.toUTF8.toList node

def clockNow : IO Clock := do
  let now ← Std.Time.Timestamp.now
  return { epoch := now.toNanosecondsSinceUnixEpoch.val }

def put (stream : IO.FS.Stream) (bytes : Bytes) : IO Unit :=
  stream.write (ByteArray.mk bytes.toArray)

end Demo

end LakeUpload

open LakeUpload in
def main (args : List String) : IO UInt32 := do
  let result := Demo.run (← Demo.treeOf args) (← Demo.clockNow) {}
    (args.map fun arg => arg.toUTF8.toList)
  Demo.put (← IO.getStderr) result.stderr
  Demo.put (← IO.getStdout) result.stdout
  return result.exit.toUInt32
