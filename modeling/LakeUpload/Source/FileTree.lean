import LakeUpload.Text.Bytes

/-!
# File trees

A tree maps locations, written as lists of names from the root, to what is found there. `find?`
walks a path as the operating system does: dots, double dots and symbolic links are followed, and
every component but the last has to be a directory. `add` and `touch` build a tree as it does.
-/

namespace LakeUpload

open Bytes (ascii slash dot)

inductive Node where
  /-- A regular file with its size, and the second of its last change. -/
  | file (size : UInt64) (modified : Int)
  | directory
  | link (target : Bytes)
  /-- Neither a regular file nor a directory. -/
  | special
  deriving DecidableEq, Repr

structure FileTree where
  /-- The newest first. -/
  nodes : List (List Bytes × Node)
  /-- The location that relative paths start from. -/
  workingDirectory : List Bytes
  deriving DecidableEq, Repr

namespace FileTree

/-- The directories that every system has in its root. -/
def rootNames : List Bytes :=
  ["bin", "boot", "dev", "etc", "home", "lib", "media", "mnt", "opt", "proc", "root", "run", "sbin",
    "srv", "sys", "tmp", "usr", "var"].map ascii

def deviceNames : List Bytes := ["null", "zero", "full", "random", "urandom", "tty"].map ascii

/-- An empty working directory, some levels below the root. -/
def empty : FileTree :=
  let work := [ascii "tmp", ascii "work"]
  { nodes :=
      [(work, .directory), ([], .directory)] ++ rootNames.map (fun name => ([name], .directory)) ++
        deviceNames.map fun name => ([ascii "dev", name], .special)
    workingDirectory := work }

def nodeAt (tree : FileTree) (location : List Bytes) : Option Node :=
  (tree.nodes.find? fun entry => entry.1 == location).map Prod.snd

def put (tree : FileTree) (location : List Bytes) (node : Node) : FileTree :=
  { tree with nodes := (location, node) :: tree.nodes }

theorem nodeAt_put_self (tree : FileTree) (location : List Bytes) (node : Node) :
    (tree.put location node).nodeAt location = some node := by
  simp [put, nodeAt]

theorem nodeAt_put_of_ne (tree : FileTree) {location other : List Bytes} (h : location ≠ other)
    (node : Node) : (tree.put location node).nodeAt other = tree.nodeAt other := by
  simp [put, nodeAt, h]

/-! ## Walking a path -/

/-- The longest name of a file. -/
def maxName : Nat := 255

/-- A path has to be shorter than this. -/
def maxPath : Nat := 4096

/-- The most links that are followed on one walk. -/
def maxLinks : Nat := 40

/-- The components of a path; a slash at the end asks for a directory, as a dot does. -/
def components (path : Bytes) : List Bytes :=
  (Bytes.split slash path).filter (· ≠ []) ++
    (if path.getLast? = some slash then [[dot]] else [])

/-- Where a path starts that is met in a directory. -/
def startOf (here : List Bytes) (path : Bytes) : List Bytes :=
  if path.head? = some slash then [] else here

/-- What a walk comes to. -/
inductive Place where
  | found (location : List Bytes)
  /-- Nothing has the last name, in a directory that is there. -/
  | free (location : List Bytes)
  | nowhere
  deriving DecidableEq, Repr

namespace Place

def found? : Place → Option (List Bytes)
  | .found location => some location
  | _ => none

def free? : Place → Option (List Bytes)
  | .free location => some location
  | _ => none

end Place

/-- The place at the end of some names, following no more than so many links. -/
def walk (tree : FileTree) (links : Nat) (here : List Bytes) (todo : List Bytes) : Place :=
  match todo with
  | [] => if tree.nodeAt here = none then .nowhere else .found here
  | name :: rest =>
      if tree.nodeAt here ≠ some .directory then .nowhere
      else if name = [dot] then walk tree links here rest
      else if name = [dot, dot] then walk tree links here.dropLast rest
      else if maxName < name.length then .nowhere
      else
        match tree.nodeAt (here ++ [name]) with
        | none => if rest = [] then .free (here ++ [name]) else .nowhere
        | some (.link target) =>
            match links with
            | 0 => .nowhere
            | links + 1 => walk tree links (startOf here target) (components target ++ rest)
        | some _ => walk tree links (here ++ [name]) rest
termination_by (links, todo.length)

theorem walk_nil {tree : FileTree} {here : List Bytes} {node : Node}
    (hnode : tree.nodeAt here = some node) (links : Nat) :
    tree.walk links here [] = .found here := by
  have hsome : tree.nodeAt here ≠ none := by
    rw [hnode]
    nofun
  rw [walk, if_neg hsome]

/-- Behind a directory a walk goes on with what has the next name, unless that is a link. -/
theorem walk_cons {tree : FileTree} {here : List Bytes} {name : Bytes} {node : Node}
    (hhere : tree.nodeAt here = some .directory) (hdot : name ≠ [dot]) (hdots : name ≠ [dot, dot])
    (hname : name.length ≤ maxName) (hnode : tree.nodeAt (here ++ [name]) = some node)
    (hlink : ∀ target, node ≠ .link target) (links : Nat) (rest : List Bytes) :
    tree.walk links here (name :: rest) = tree.walk links (here ++ [name]) rest := by
  have hshort : ¬ maxName < name.length := Nat.not_lt.2 hname
  have hdirectory : ¬ tree.nodeAt here ≠ some .directory := fun h => h hhere
  rw [walk, if_neg hdirectory, if_neg hdot, if_neg hdots, if_neg hshort, hnode]
  cases node with
  | link target =>
      exact absurd rfl (hlink target)
  | file size modified =>
      rfl
  | directory =>
      rfl
  | special =>
      rfl

/-- What the system reads of a path, up to its first zero byte, unless there is nothing or too
much to read. -/
def readable? (path : Bytes) : Option Bytes :=
  let shown := Bytes.untilZero path
  if shown = [] ∨ maxPath ≤ shown.length then none else some shown

/-- The place of a path. -/
def place (tree : FileTree) (path : Bytes) : Place :=
  match readable? path with
  | none => .nowhere
  | some shown =>
      tree.walk maxLinks (startOf tree.workingDirectory shown) (components shown)

/-- The location of what is at a path. -/
def locate? (tree : FileTree) (path : Bytes) : Option (List Bytes) :=
  (tree.place path).found?

def find? (tree : FileTree) (path : Bytes) : Option Node :=
  (tree.locate? path).bind tree.nodeAt

/-! ## Building a tree

Directories and links are made where their paths say: a link that has the last name already is in
the way. A file is written behind such a link, and made there if nothing is. What cannot be done
leaves the tree as it is. -/

/-- The location for something new under the last of some names. -/
def slot? (tree : FileTree) (start names : List Bytes) : Option (List Bytes) :=
  match tree.walk maxLinks start names.dropLast with
  | .found here => (tree.walk 0 here (names.drop (names.length - 1))).free?
  | _ => none

def makeDirectory (tree : FileTree) (start names : List Bytes) : FileTree :=
  match tree.slot? start names with
  | some location => tree.put location .directory
  | none => tree

/-- Makes the directories of a path as far as they are missing. -/
def makeDirectories (tree : FileTree) (path : Bytes) : FileTree :=
  match readable? path, tree.place path with
  | none, _ => tree
  | _, .found _ => tree
  | some shown, _ =>
      let names := (Bytes.split slash shown).filter (· ≠ [])
      (List.range names.length).foldl
        (fun made count =>
          made.makeDirectory (startOf tree.workingDirectory shown) (names.take (count + 1)))
        tree

/-- The part of a path before its last slash. -/
def parent (path : Bytes) : Bytes :=
  match Bytes.cutLast slash path with
  | none => []
  | some (above, _) => above

/-- Makes a link, which needs a target that can be read. -/
def makeLink (tree : FileTree) (path target : Bytes) : FileTree :=
  match readable? path, readable? target with
  | some shown, some target =>
      match tree.slot? (startOf tree.workingDirectory shown) (components shown) with
      | some location => tree.put location (.link target)
      | none => tree
  | _, _ => tree

/-- Writes a file, over a file that is there. -/
def write (tree : FileTree) (path : Bytes) (node : Node) : FileTree :=
  match tree.place path with
  | .free location => tree.put location node
  | .found location =>
      match tree.nodeAt location with
      | some (.file _ _) => tree.put location node
      | _ => tree
  | .nowhere => tree

/-- Puts a node at a path and makes the directories above it. -/
def add (tree : FileTree) (path : Bytes) (node : Node) : FileTree :=
  let tree := tree.makeDirectories (parent path)
  match node with
  | .directory => tree.makeDirectories path
  | .link target => tree.makeLink path target
  | node => tree.write path node

/-- Sets the second of the last change of the file at a path. -/
def touch (tree : FileTree) (path : Bytes) (modified : Int) : FileTree :=
  match tree.locate? path with
  | none => tree
  | some location =>
      match tree.nodeAt location with
      | some (.file size _) => tree.put location (.file size modified)
      | _ => tree

end FileTree

end LakeUpload
