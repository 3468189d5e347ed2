import LakeUpload.Redaction.Path
import Mathlib.Data.List.DropRight

/-!
# What a masked path shows

A path falls into its directories, up to the last separator, and its file name, and a file name
falls into stem and extension. A masked path shows where the last separator stands, the first bytes
of the stem and the extension, and beyond these parts it hangs on lengths only.
-/

namespace LakeUpload

open Bytes (ascii slash dot isSeparator cutLast cutLastBy)

namespace Redaction

/-! ## The parts of a path -/

/-- The bytes up to the last separator, which is the last of them. -/
def directory (path : Bytes) : Bytes := path.rdropWhile fun b => !isSeparator b

/-- The bytes behind the last separator, or all where there is none. -/
def fileName (path : Bytes) : Bytes := path.rtakeWhile fun b => !isSeparator b

/-- The bytes from the last dot on, unless this dot is the first byte of the name. -/
def extension (name : Bytes) : Bytes :=
  if dot ∈ name.tail then dot :: name.rtakeWhile (· != dot) else []

/-- The bytes in front of the extension. -/
def stem (name : Bytes) : Bytes := name.take (name.length - (extension name).length)

theorem directory_append_fileName (path : Bytes) : directory path ++ fileName path = path :=
  List.rdropWhile_append_rtakeWhile

theorem rtakeWhile_append {p : UInt8 → Bool} {c : UInt8} {t : Bytes} (hc : p c = false)
    (ht : ∀ b ∈ t, p b = true) (s : Bytes) : (s ++ c :: t).rtakeWhile p = t := by
  have hreverse : ∀ b ∈ t.reverse, p b = true := by simpa using ht
  simp [List.rtakeWhile, List.takeWhile_append_of_pos hreverse, hc]

theorem fileName_append {c : UInt8} {name : Bytes} (hc : isSeparator c = true)
    (hname : ∀ b ∈ name, isSeparator b = false) (front : Bytes) :
    fileName (front ++ c :: name) = name := by
  apply rtakeWhile_append
  · simp [hc]
  · intro b hb
    simp [hname b hb]

theorem directory_append {c : UInt8} {name : Bytes} (hc : isSeparator c = true)
    (hname : ∀ b ∈ name, isSeparator b = false) (front : Bytes) :
    directory (front ++ c :: name) = front ++ [c] := by
  have hparts := directory_append_fileName (front ++ c :: name)
  rw [fileName_append hc hname] at hparts
  exact List.append_cancel_right (hparts.trans (List.append_cons front c name))

theorem fileName_of_all {path : Bytes} (h : ∀ b ∈ path, isSeparator b = false) :
    fileName path = path := by
  apply List.rtakeWhile_eq_self_iff.2
  intro b hb
  simp [h b hb]

theorem directory_of_all {path : Bytes} (h : ∀ b ∈ path, isSeparator b = false) :
    directory path = [] := by
  apply List.rdropWhile_eq_nil_iff.2
  intro b hb
  simp [h b hb]

theorem extension_of_not_mem {name : Bytes} (h : dot ∉ name.tail) : extension name = [] :=
  if_neg h

theorem extension_append {front rest : Bytes} (hfront : front ≠ []) (hrest : dot ∉ rest) :
    extension (front ++ dot :: rest) = dot :: rest := by
  have htail : dot ∈ (front ++ dot :: rest).tail := by
    rw [List.tail_append_of_ne_nil hfront]
    simp
  rw [extension, if_pos htail, rtakeWhile_append (by simp)]
  intro b hb
  have hne : b ≠ dot := fun heq => hrest (heq ▸ hb)
  simpa using hne

theorem stem_of_not_mem {name : Bytes} (h : dot ∉ name.tail) : stem name = name := by
  simp [stem, extension_of_not_mem h]

theorem stem_append {front rest : Bytes} (hfront : front ≠ []) (hrest : dot ∉ rest) :
    stem (front ++ dot :: rest) = front := by
  have hlength : (front ++ dot :: rest).length - (dot :: rest).length = front.length := by
    simp
  rw [stem, extension_append hfront hrest, hlength, List.take_left]

/-- A name has no extension, or it is cut at the dot that starts one. -/
theorem cut_name (name : Bytes) :
    dot ∉ name.tail ∨ ∃ front rest, front ≠ [] ∧ dot ∉ rest ∧ name = front ++ dot :: rest := by
  cases name with
  | nil =>
      exact .inl List.not_mem_nil
  | cons b tail =>
      cases hcut : cutLast dot tail with
      | none =>
          exact .inl (Bytes.cutLast_eq_none_iff.1 hcut)
      | some parts =>
          have happend := Bytes.append_of_cutLast hcut
          refine .inr ⟨b :: parts.1, parts.2, List.cons_ne_nil _ _, happend.2, ?_⟩
          rw [List.cons_append, ← happend.1]

theorem stem_append_extension (name : Bytes) : stem name ++ extension name = name := by
  cases cut_name name with
  | inl hnone =>
      rw [stem_of_not_mem hnone, extension_of_not_mem hnone, List.append_nil]
  | inr hcut =>
      obtain ⟨front, rest, hfront, hrest, rfl⟩ := hcut
      rw [stem_append hfront hrest, extension_append hfront hrest]

/-! ## Masked names -/

theorem hideName_eq (config : Config) (name : Bytes) :
    hideName config name = hideTail config (stem name) ++ extension name := by
  cases cut_name name with
  | inl hnone =>
      rw [stem_of_not_mem hnone, extension_of_not_mem hnone, List.append_nil]
      unfold hideName
      split
      · rename_i b front rest hcut
        -- a cut behind the first byte would leave the dot in the tail
        rw [(Bytes.append_of_cutLast hcut).1] at hnone
        exact absurd (by simp) hnone
      · rfl
  | inr hcut =>
      obtain ⟨front, rest, hfront, hrest, rfl⟩ := hcut
      obtain ⟨b, front, rfl⟩ := List.exists_cons_of_ne_nil hfront
      rw [stem_append hfront hrest, extension_append hfront hrest, hideName,
        Bytes.cutLast_append hrest]

theorem getElem?_hideTail (config : Config) {s : Bytes} {i : Nat} {b : UInt8}
    (h : s[i]? = some b) :
    (hideTail config s)[i]? = some (if i < config.visible then b else config.markByte) := by
  obtain ⟨hi, -⟩ := List.getElem?_eq_some_iff.1 h
  unfold hideTail
  by_cases hvisible : i < config.visible
  · rw [if_pos hvisible, List.getElem?_append_left (by simp; omega),
      List.getElem?_take_of_lt hvisible, h]
  · rw [if_neg hvisible, List.getElem?_append_right (by simp; omega),
      List.getElem?_replicate_of_lt (by simp; omega)]

theorem hideName_of_short {config : Config} {name : Bytes} (h : name.length ≤ config.visible) :
    hideName config name = name := by
  have hstem : (stem name).length ≤ config.visible := by
    simp only [stem, List.length_take]
    omega
  rw [hideName_eq, hideTail_of_short hstem, stem_append_extension]

theorem mem_hideName {config : Config} {name : Bytes} {b : UInt8} (h : b ∈ hideName config name) :
    b ∈ name ∨ b = config.markByte := by
  have hname := stem_append_extension name
  rw [hideName_eq, hideTail, List.append_assoc] at h
  cases List.mem_append.1 h with
  | inl hvisible =>
      rw [← hname]
      exact .inl (List.mem_append_left _ (List.mem_of_mem_take hvisible))
  | inr h =>
      cases List.mem_append.1 h with
      | inl hmark =>
          exact .inr (List.eq_of_mem_replicate hmark)
      | inr hextension =>
          rw [← hname]
          exact .inl (List.mem_append_right _ hextension)

/-- Masking leaves the dot of the extension where it is, and marks that are dots can only make the
stem of a name without an extension shorter. -/
theorem length_stem_hideName_le (config : Config) (name : Bytes) :
    (stem (hideName config name)).length ≤ (stem name).length := by
  cases cut_name name with
  | inl hnone =>
      rw [stem_of_not_mem hnone, ← hideName_length config name, stem]
      exact List.length_take_le' _ _
  | inr hcut =>
      obtain ⟨front, rest, hfront, hrest, rfl⟩ := hcut
      have hhidden : hideTail config front ≠ [] := by
        rw [← List.length_pos_iff, hideTail_length]
        exact List.length_pos_iff.2 hfront
      rw [hideName_eq, stem_append hfront hrest, extension_append hfront hrest,
        stem_append hhidden hrest, hideTail_length]

theorem hideTail_eq_self {config : Config} {s : Bytes}
    (h : ∀ i, config.visible ≤ i → i < s.length → s[i]? = some config.markByte) :
    hideTail config s = s := by
  apply List.ext_getElem?
  intro i
  by_cases hi : i < s.length
  · have hget : s[i]? = some s[i] := List.getElem?_eq_getElem hi
    rw [getElem?_hideTail config hget]
    by_cases hvisible : i < config.visible
    · rw [if_pos hvisible, hget]
    · rw [if_neg hvisible, h i (Nat.le_of_not_lt hvisible) hi]
  · rw [List.getElem?_eq_none (by rw [hideTail_length]; omega), List.getElem?_eq_none (by omega)]

theorem hideName_hideName (config : Config) (name : Bytes) :
    hideName config (hideName config name) = hideName config name := by
  have hstem : hideTail config (stem (hideName config name)) = stem (hideName config name) := by
    apply hideTail_eq_self
    intro i hvisible hi
    have hle := length_stem_hideName_le config name
    have hget : (stem name)[i]? = some (stem name)[i] := List.getElem?_eq_getElem (by omega)
    have hhidden := getElem?_hideTail config hget
    rw [if_neg (Nat.not_lt.2 hvisible)] at hhidden
    have hname : (hideName config name)[i]? = some config.markByte := by
      rw [hideName_eq, List.getElem?_append_left (by rw [hideTail_length]; omega), hhidden]
    have hprefix : stem (hideName config name) <+: hideName config name := List.take_prefix _ _
    rw [List.prefix_iff_getElem?.1 hprefix i hi] at hname
    rw [List.getElem?_eq_getElem hi]
    exact hname
  rw [hideName_eq config (hideName config name), hstem, stem_append_extension]

/-! ## Masked paths -/

/-- A mark for each byte of so many bytes of directories, but for the separator at their end. -/
def hideDirectory (config : Config) : Nat → Bytes
  | 0 => []
  | length + 1 => List.replicate length config.markByte ++ [slash]

theorem hideDirectory_length (config : Config) (length : Nat) :
    (hideDirectory config length).length = length := by
  cases length with
  | zero =>
      rfl
  | succ length =>
      simp [hideDirectory]

/-- A path has no separator, or it is cut at the last one. -/
theorem cut_path (path : Bytes) :
    (∀ b ∈ path, isSeparator b = false) ∨
      ∃ front c name, isSeparator c = true ∧ (∀ b ∈ name, isSeparator b = false) ∧
        path = front ++ c :: name := by
  cases hcut : cutLastBy isSeparator path with
  | none =>
      exact .inl (Bytes.cutLastBy_eq_none_iff.1 hcut)
  | some parts =>
      obtain ⟨c, hc, happend, hname⟩ := Bytes.append_of_cutLastBy hcut
      exact .inr ⟨parts.1, c, parts.2, hc, hname, happend⟩

theorem hidePath_eq {config : Config} (hpaths : config.paths = true) (path : Bytes) :
    hidePath config path =
      hideDirectory config (directory path).length ++ hideName config (fileName path) := by
  unfold hidePath
  rw [if_pos hpaths]
  cases cut_path path with
  | inl hnone =>
      rw [Bytes.cutLastBy_eq_none_iff.2 hnone, directory_of_all hnone, fileName_of_all hnone]
      rfl
  | inr hcut =>
      obtain ⟨front, c, name, hc, hname, rfl⟩ := hcut
      rw [Bytes.cutLastBy_append hc hname, directory_append hc hname, fileName_append hc hname]
      simp [hideDirectory]

/-- The parts of a masked path stand where those of the path stood. -/
theorem parts_hidePath {config : Config} (hpaths : config.paths = true)
    (hmark : isSeparator config.markByte = false) (path : Bytes) :
    (directory (hidePath config path)).length = (directory path).length ∧
      fileName (hidePath config path) = hideName config (fileName path) := by
  have hname : ∀ b ∈ hideName config (fileName path), isSeparator b = false := by
    intro b hb
    cases mem_hideName hb with
    | inl hmem =>
        simpa using List.mem_rtakeWhile_imp hmem
    | inr heq =>
        rw [heq, hmark]
  rw [hidePath_eq hpaths]
  cases hlength : (directory path).length with
  | zero =>
      simp only [hideDirectory, List.nil_append]
      rw [directory_of_all hname, fileName_of_all hname]
      exact ⟨rfl, rfl⟩
  | succ length =>
      have hslash : isSeparator slash = true := by decide
      simp only [hideDirectory, List.append_assoc, List.singleton_append]
      rw [directory_append hslash hname, fileName_append hslash hname]
      simp

/-- The parts of a path that its masked form shows, and how long the others are. -/
structure SameOutline (config : Config) (path other : Bytes) : Prop where
  length : path.length = other.length
  depth : (directory path).length = (directory other).length
  nameLength : (fileName path).length = (fileName other).length
  visible : (stem (fileName path)).take config.visible =
    (stem (fileName other)).take config.visible
  ending : extension (fileName path) = extension (fileName other)

theorem SameOutline.hideName_eq {config : Config} {path other : Bytes}
    (h : SameOutline config path other) :
    hideName config (fileName path) = hideName config (fileName other) := by
  have hstem : (stem (fileName path)).length = (stem (fileName other)).length := by
    simp only [stem, List.length_take, h.nameLength, h.ending]
  rw [Redaction.hideName_eq, Redaction.hideName_eq, hideTail, hideTail, h.visible, hstem,
    h.ending]

/-- What stands at each place of a masked path. -/
structure Shows (config : Config) (path shown : Bytes) : Prop where
  length : shown.length = path.length
  directories : ∀ i, i + 1 < (directory path).length → shown[i]? = some config.markByte
  separator : ∀ i, i + 1 = (directory path).length → shown[i]? = some slash
  name : ∀ i b, (stem (fileName path))[i]? = some b →
    shown[(directory path).length + i]? =
      some (if i < config.visible then b else config.markByte)
  ending : extension (fileName path) <:+ shown
  /-- A short file name is not masked at all. -/
  short : (fileName path).length ≤ config.visible → fileName path <:+ shown

theorem shows_hidePath {config : Config} (hpaths : config.paths = true) (path : Bytes) :
    Shows config path (hidePath config path) := by
  have hlength := hideDirectory_length config (directory path).length
  constructor
  · exact hidePath_length config path
  · intro i hi
    rw [hidePath_eq hpaths, List.getElem?_append_left (by omega)]
    cases hdirectory : (directory path).length with
    | zero =>
        omega
    | succ length =>
        rw [hideDirectory, List.getElem?_append_left (by simp; omega),
          List.getElem?_replicate_of_lt (by omega)]
  · intro i hi
    rw [hidePath_eq hpaths, List.getElem?_append_left (by omega), ← hi]
    simp [hideDirectory]
  · intro i b hb
    have hhidden := getElem?_hideTail config hb
    obtain ⟨hi, -⟩ := List.getElem?_eq_some_iff.1 hb
    rw [hidePath_eq hpaths, List.getElem?_append_right (by omega), hlength, Nat.add_sub_cancel_left,
      hideName_eq, List.getElem?_append_left (by rw [hideTail_length]; omega), hhidden]
  · rw [hidePath_eq hpaths, hideName_eq, ← List.append_assoc]
    exact List.suffix_append _ _
  · intro hshort
    rw [hidePath_eq hpaths, hideName_of_short hshort]
    exact List.suffix_append _ _

/-- A masked path shows the outline of the path and nothing else, and masking it again changes
nothing, unless the mark is taken for a separator then. -/
theorem hidePath_shows_outline {config : Config} (hpaths : config.paths = true) :
    (∀ path, Shows config path (hidePath config path)) ∧
      (∀ path other, SameOutline config path other →
        hidePath config path = hidePath config other) ∧
      (isSeparator config.markByte = false → ∀ path,
        hidePath config (hidePath config path) = hidePath config path) := by
  refine ⟨shows_hidePath hpaths, ?_, ?_⟩
  · intro path other hsame
    rw [hidePath_eq hpaths, hidePath_eq hpaths, hsame.depth, hsame.hideName_eq]
  · intro hmark path
    have hparts := parts_hidePath hpaths hmark path
    rw [hidePath_eq hpaths (hidePath config path), hparts.1, hparts.2, hideName_hideName,
      ← hidePath_eq hpaths]

/-- Dots as marks, so that a masked name seems to have an extension. -/
def dotted : Config := { paths := true, mark := ascii ".", visible := 2 }

theorem dotted_shows_outline :
    dotted.paths = true ∧ isSeparator dotted.markByte = false ∧
      hidePath dotted (ascii "C:\\dir/reports") = ascii "....../re....." ∧
      hidePath dotted (ascii "....../re.....") = ascii "....../re....." ∧
      SameOutline dotted (ascii "/a/.profile.txt") (ascii "b\\/.pear..g.txt") ∧
      hidePath dotted (ascii "/a/.profile.txt") = hidePath dotted (ascii "b\\/.pear..g.txt") :=
  have hsame : SameOutline dotted (ascii "/a/.profile.txt") (ascii "b\\/.pear..g.txt") :=
    ⟨by decide, by decide, by decide, by decide, by decide⟩
  have hshows := hidePath_shows_outline (show dotted.paths = true from rfl)
  ⟨rfl, by decide, by decide, hshows.2.2 (by decide) (ascii "C:\\dir/reports"), hsame,
    hshows.2.1 _ _ hsame⟩

end Redaction

end LakeUpload
