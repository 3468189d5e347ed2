import LakeUpload.Remote.Service

/-!
# A lake in memory

A lake keeps the properties of its paths under the identity of their destination, in the order of
those texts. Each kind of request can be given a script: what happens while it is worked on, and a
fault that takes the place of the work.
-/

namespace LakeUpload

structure Script where
  incidents : List Incident := []
  fault : Option Fault := none
  deriving DecidableEq, Repr

structure DataLake where
  paths : List (Bytes × Properties) := []
  onCreate : Script := {}
  onRemove : Script := {}
  onProperties : Script := {}
  deriving DecidableEq, Repr

namespace DataLake

def lookup (key : Bytes) : List (Bytes × Properties) → Option Properties
  | [] => none
  | entry :: rest => if entry.1 = key then some entry.2 else lookup key rest

/-- Puts an entry at its place in the order of the keys. -/
def insert (key : Bytes) (properties : Properties) :
    List (Bytes × Properties) → List (Bytes × Properties)
  | [] => [(key, properties)]
  | entry :: rest =>
      if entry.1 = key then (key, properties) :: rest
      else if entry.1 < key then entry :: insert key properties rest
      else (key, properties) :: entry :: rest

def erase (key : Bytes) : List (Bytes × Properties) → List (Bytes × Properties)
  | [] => []
  | entry :: rest => if entry.1 = key then erase key rest else entry :: erase key rest

def get? (lake : DataLake) (key : Bytes) : Option Properties := lookup key lake.paths

def put (lake : DataLake) (key : Bytes) (properties : Properties) : DataLake :=
  { lake with paths := insert key properties lake.paths }

def drop (lake : DataLake) (key : Bytes) : DataLake := { lake with paths := erase key lake.paths }

def notFound (key : Bytes) : Fault := ⟨.objectNotFound, key⟩

/-- Does the work unless the script has a fault for it. -/
def react {α : Type} (lake : DataLake) (script : Script) (work : Except Fault α × DataLake) :
    Reaction DataLake α :=
  match script.fault with
  | some fault => { state := lake, incidents := script.incidents, answer := .error fault }
  | none => { state := work.2, incidents := script.incidents, answer := work.1 }

/-- A folder has no length. -/
def created (kind : Entity) (headers : Headers) (length : UInt64) : Properties :=
  { length := if kind = .file then length else 0, headers, kind }

def service : Service DataLake where
  create lake _ url kind headers length :=
    lake.react lake.onCreate (.ok (), lake.put url.toText (created kind headers length))
  remove lake _ url _ :=
    lake.react lake.onRemove
      (match lake.get? url.toText with
      | none => (.error (notFound url.toText), lake)
      | some _ => (.ok (), lake.drop url.toText))
  properties lake _ url :=
    lake.react lake.onProperties
      (match lake.get? url.toText with
      | none => (.error (notFound url.toText), lake)
      | some properties => (.ok properties, lake))

theorem lookup_insert_self (key : Bytes) (properties : Properties)
    (paths : List (Bytes × Properties)) :
    lookup key (insert key properties paths) = some properties := by
  induction paths with
  | nil =>
      simp [insert, lookup]
  | cons entry rest ih =>
      unfold insert
      split
      · simp [lookup]
      · rename_i hne
        split
        · simp [lookup, hne, ih]
        · simp [lookup]

theorem lookup_insert_of_ne {key other : Bytes} (hne : other ≠ key) (properties : Properties)
    (paths : List (Bytes × Properties)) :
    lookup other (insert key properties paths) = lookup other paths := by
  induction paths with
  | nil =>
      simp [insert, lookup, Ne.symm hne]
  | cons entry rest ih =>
      unfold insert
      split
      · rename_i heq
        simp [lookup, heq, Ne.symm hne]
      · split
        · simp [lookup, ih]
        · simp [lookup, Ne.symm hne]

theorem lookup_erase_self (key : Bytes) (paths : List (Bytes × Properties)) :
    lookup key (erase key paths) = none := by
  induction paths with
  | nil =>
      rfl
  | cons entry rest ih =>
      by_cases h : entry.1 = key
      · simp [erase, h, ih]
      · simp [erase, h, lookup, ih]

theorem lookup_erase_of_ne {key other : Bytes} (hne : other ≠ key)
    (paths : List (Bytes × Properties)) : lookup other (erase key paths) = lookup other paths := by
  induction paths with
  | nil =>
      rfl
  | cons entry rest ih =>
      by_cases h : entry.1 = key
      · simp [erase, h, lookup, ih, Ne.symm hne]
      · simp [erase, h, lookup, ih]

end DataLake

end LakeUpload
