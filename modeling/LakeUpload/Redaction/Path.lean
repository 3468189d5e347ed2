import LakeUpload.Redaction.Config

/-!
# Hidden paths

`hidePath` hides the directories of a path and the tail of its file name. `hidePaths` finds the
paths inside a message, from left to right and each as long as it goes, and hides them; what lies
between two paths stays as it is, and no byte moves.
-/

namespace LakeUpload

open Bytes (slash backslash dot isDigit isLetter isSeparator cutLast cutLastBy)

namespace Redaction

/-! ## One path -/

/-- The first `visible` bytes, and a mark for each byte behind them. -/
def hideTail (config : Config) (s : Bytes) : Bytes :=
  s.take config.visible ++ List.replicate (s.length - config.visible) config.markByte

/-- A file name keeps its extension, which starts at its last dot unless that is its first byte. -/
def hideName (config : Config) (name : Bytes) : Bytes :=
  match cutLast dot name with
  | some (b :: stem, extension) => hideTail config (b :: stem) ++ dot :: extension
  | _ => hideTail config name

def hidePath (config : Config) (path : Bytes) : Bytes :=
  if config.paths then
    match cutLastBy isSeparator path with
    | none => hideName config path
    | some (directory, name) =>
        List.replicate directory.length config.markByte ++ slash :: hideName config name
  else path

theorem hideTail_length (config : Config) (s : Bytes) : (hideTail config s).length = s.length := by
  simp only [hideTail, List.length_append, List.length_take, List.length_replicate]
  omega

/-- Hiding a path moves no byte. -/
theorem hideName_length (config : Config) (name : Bytes) :
    (hideName config name).length = name.length := by
  unfold hideName
  split
  · rename_i b stem extension hcut
    rw [(Bytes.append_of_cutLast hcut).1, List.length_append, List.length_append, hideTail_length,
      List.length_cons, List.length_cons]
  · exact hideTail_length config name

theorem hidePath_length (config : Config) (path : Bytes) :
    (hidePath config path).length = path.length := by
  unfold hidePath
  split
  · split
    · exact hideName_length config path
    · rename_i directory name hcut
      obtain ⟨c, -, happend, -⟩ := Bytes.append_of_cutLastBy hcut
      rw [happend, List.length_append, List.length_append, List.length_replicate, List.length_cons,
        List.length_cons, hideName_length]
  · rfl

theorem hideTail_of_short {config : Config} {s : Bytes} (h : s.length ≤ config.visible) :
    hideTail config s = s := by
  have hzero : s.length - config.visible = 0 := by omega
  simp [hideTail, hzero, List.take_of_length_le h]

/-! ## The paths of a message -/

/-- Letters, digits, dot, underscore and hyphen make the names of a path. -/
def isNameByte (b : UInt8) : Bool :=
  isLetter b || isDigit b || b == dot || b == 0x5f || b == 0x2d

/-- Length of the longest run of slashes with a name behind each; `inName` says whether a name has
begun, so that its bytes may go on. -/
def slashedLength (inName : Bool) : Bytes → Nat
  | [] => 0
  | b :: rest =>
      if inName && isNameByte b then 1 + slashedLength true rest
      else if b == slash && rest.head?.any isNameByte then 1 + slashedLength true rest
      else 0

/-- Length of the longest run of names, each with one backslash behind it or none; `inName` says
whether a name has begun, so that a backslash may follow. -/
def backslashedLength (inName : Bool) : Bytes → Nat
  | [] => 0
  | b :: rest =>
      if isNameByte b then 1 + backslashedLength true rest
      else if inName && b == backslash then 1 + backslashedLength false rest
      else 0

/-- Length of the path behind a drive letter, the drive included, or zero where no name follows. -/
def driveLength : Bytes → Nat
  | drive :: b :: c :: rest =>
      if isLetter drive && b == Bytes.colon && c == backslash &&
          backslashedLength false rest != 0 then
        3 + backslashedLength false rest
      else 0
  | _ => 0

/-- Length of the path that starts the text, or zero where none does. -/
def pathLength (s : Bytes) : Nat :=
  if slashedLength false s = 0 then driveLength s else slashedLength false s

/-- The message with its paths hidden, but for its first `done` bytes, which are left out. -/
def hidePathsFrom (config : Config) : Nat → Bytes → Bytes
  | _, [] => []
  | done + 1, _ :: rest => hidePathsFrom config done rest
  | 0, b :: rest =>
      match pathLength (b :: rest) with
      | 0 => b :: hidePathsFrom config 0 rest
      | more + 1 => hidePath config (b :: rest.take more) ++ hidePathsFrom config more rest

def hidePaths (config : Config) (message : Bytes) : Bytes := hidePathsFrom config 0 message

theorem hidePathsFrom_drop (config : Config) (done : Nat) (message : Bytes) :
    hidePathsFrom config done message = hidePaths config (message.drop done) := by
  induction message generalizing done with
  | nil =>
      cases done <;> simp [hidePaths, hidePathsFrom]
  | cons b rest ih =>
      cases done with
      | zero =>
          rfl
      | succ done =>
          simpa [hidePathsFrom] using ih done

theorem hidePaths_nil (config : Config) : hidePaths config [] = [] := rfl

theorem hidePaths_cons {config : Config} {b : UInt8} {rest : Bytes}
    (h : pathLength (b :: rest) = 0) :
    hidePaths config (b :: rest) = b :: hidePaths config rest := by
  simp [hidePaths, hidePathsFrom, h]

theorem hidePaths_of_path {config : Config} {message : Bytes} (h : pathLength message ≠ 0) :
    hidePaths config message =
      hidePath config (message.take (pathLength message)) ++
        hidePaths config (message.drop (pathLength message)) := by
  cases message with
  | nil =>
      simp [pathLength, slashedLength, driveLength] at h
  | cons b rest =>
      obtain ⟨more, hmore⟩ := Nat.exists_eq_succ_of_ne_zero h
      simp only [hmore, List.take_succ_cons, List.drop_succ_cons]
      rw [← hidePathsFrom_drop]
      simp [hidePaths, hidePathsFrom, hmore]

end Redaction

end LakeUpload
