import LakeUpload.Source.LocalFile

/-!
# Types of contents by their extensions

The type of a content hangs on what follows the last dot of the last component, read without regard
to the case of letters. A local file goes by the last component of its path, where a backslash is a
byte like any other; it is taken for compressed if that name ends in `.gz`, and has the type of the
name without this ending then.
-/

namespace LakeUpload

open Bytes (ascii slash dot lower lowerByte isSeparator cutLast cutLastBy)

namespace ContentType

/-- A component of a path: neither a slash nor a backslash is in it. -/
def Component (name : Bytes) : Prop := ∀ b ∈ name, isSeparator b = false

theorem isSeparator_lowerByte (b : UInt8) :
    isSeparator (lowerByte b) = false ↔ isSeparator b = false := by
  have hslash : lowerByte b = slash ↔ b = slash := Bytes.lowerByte_eq_iff (by decide)
  have hbackslash : lowerByte b = Bytes.backslash ↔ b = Bytes.backslash :=
    Bytes.lowerByte_eq_iff (by decide)
  simp only [isSeparator, Bool.or_eq_false_iff, beq_eq_false_iff_ne, ne_eq, hslash, hbackslash]

theorem component_lower {name : Bytes} : Component (lower name) ↔ Component name :=
  Bytes.forall_mem_lower_iff isSeparator_lowerByte

theorem component_of_lower_eq {name other : Bytes} (h : lower other = lower name)
    (hname : Component name) : Component other := by
  rw [← component_lower, h]
  exact component_lower.2 hname

theorem dot_not_mem_of_lower_eq {name other : Bytes} (h : lower other = lower name)
    (hname : dot ∉ name) : dot ∉ other := by
  have hdot : Bytes.isLetter dot = false := by decide
  rw [← Bytes.mem_lower_iff hdot, h, Bytes.mem_lower_iff hdot]
  exact hname

/-! ## Extensions -/

theorem exists_append_lastComponent (name : Bytes) :
    ∃ above, name = above ++ lastComponent name := by
  unfold lastComponent
  split
  · exact ⟨[], rfl⟩
  · rename_i before after hcut
    obtain ⟨sep, -, happend, -⟩ := Bytes.append_of_cutLastBy hcut
    exact ⟨before ++ [sep], by rw [happend, List.append_assoc, List.singleton_append]⟩

/-- What has no separators stays in the last component. -/
theorem lastComponent_append_component {tail : Bytes} (htail : Component tail) (front : Bytes) :
    lastComponent (front ++ tail) = lastComponent front ++ tail := by
  cases hcut : cutLastBy isSeparator front with
  | none =>
      have hfront : Component front := Bytes.cutLastBy_eq_none_iff.1 hcut
      have hall : Component (front ++ tail) := List.forall_mem_append.2 ⟨hfront, htail⟩
      rw [lastComponent_of_all hfront, lastComponent_of_all hall]
  | some parts =>
      obtain ⟨before, after⟩ := parts
      obtain ⟨sep, hsep, rfl, hafter⟩ := Bytes.append_of_cutLastBy hcut
      rw [List.append_assoc, List.cons_append, lastComponent_append hsep hafter,
        lastComponent_append hsep (List.forall_mem_append.2 ⟨hafter, htail⟩)]

/-- Nothing in front of the last dot matters, not even a separator. -/
theorem extension_append {ext : Bytes} (hext : Component ext) (hdot : dot ∉ ext) (front : Bytes) :
    extension (front ++ dot :: ext) = lower (dot :: ext) := by
  have htail : Component (dot :: ext) := List.forall_mem_cons.2 ⟨by decide, hext⟩
  unfold extension
  rw [lastComponent_append_component htail, Bytes.cutLast_append hdot]

theorem extension_of_dot_not_mem {name : Bytes} (hdot : dot ∉ lastComponent name) :
    extension name = [] := by
  unfold extension
  rw [Bytes.cutLast_eq_none_iff.2 hdot]

theorem extension_directory {sep : UInt8} (hsep : isSeparator sep = true) {name : Bytes}
    (hname : Component name) (directory : Bytes) :
    extension (directory ++ sep :: name) = extension name := by
  unfold extension
  rw [lastComponent_append hsep hname, lastComponent_of_all hname]

/-- A component has no dot, or an extension behind its last one. -/
theorem dot_not_mem_or_exists {name : Bytes} (hname : Component name) :
    dot ∉ name ∨ ∃ front ext, name = front ++ dot :: ext ∧ Component ext ∧ dot ∉ ext := by
  cases hcut : cutLast dot name with
  | none =>
      exact .inl (Bytes.cutLast_eq_none_iff.1 hcut)
  | some parts =>
      obtain ⟨front, ext⟩ := parts
      obtain ⟨happend, hdot⟩ := Bytes.append_of_cutLast hcut
      refine .inr ⟨front, ext, happend, fun b hb => hname b ?_, hdot⟩
      rw [happend]
      exact List.mem_append_right front (List.mem_cons_of_mem dot hb)

theorem extension_of_lower_eq {name other : Bytes} (hname : Component name)
    (h : lower other = lower name) : extension other = extension name := by
  rcases dot_not_mem_or_exists hname with hdot | ⟨front, ext, rfl, hext, hdot⟩
  · have hother := component_of_lower_eq h hname
    rw [extension_of_dot_not_mem, extension_of_dot_not_mem]
    · rwa [lastComponent_of_all hname]
    · rw [lastComponent_of_all hother]
      exact dot_not_mem_of_lower_eq h hdot
  · obtain ⟨front', back, rfl, -, hback⟩ := Bytes.exists_append_of_lower_eq h
    obtain ⟨ext', rfl, hext'⟩ := Bytes.exists_cons_of_lower_eq (by decide) hback
    rw [extension_append hext hdot, extension_append (component_of_lower_eq hext' hext)
      (dot_not_mem_of_lower_eq hext' hdot), hback]

/-! ## Types -/

/-- The table has one type for each of its extensions, and these are extensions. -/
theorem ofExtension_of_mem : ∀ pair ∈ table, ofExtension pair.1 = pair.2 ∧
    ∃ ext, pair.1 = dot :: ext ∧ Component ext ∧ dot ∉ ext := by
  have hall : table.all (fun pair => ofExtension pair.1 == pair.2 && pair.1.head? == some dot &&
      pair.1.tail.all fun b => !isSeparator b && b != dot) = true := by
    decide
  intro pair hpair
  have h := List.all_eq_true.1 hall pair hpair
  simp only [Bool.and_eq_true, beq_iff_eq, List.all_eq_true, Bool.not_eq_true', bne_iff_ne,
    List.head?_eq_some_iff] at h
  obtain ⟨⟨htype, ext, hext⟩, htail⟩ := h
  rw [hext, List.tail_cons] at htail
  exact ⟨htype, ext, hext, fun b hb => (htail b hb).1, fun hdot => (htail dot hdot).2 rfl⟩

/-- How the type of a content goes by its name. -/
structure ByExtension (typeOf : Bytes → Bytes) : Prop where
  directory : ∀ (directory : Bytes) {sep : UInt8} {name : Bytes}, isSeparator sep = true →
    Component name → typeOf (directory ++ sep :: name) = typeOf name
  letters : ∀ {name other : Bytes}, Component name → lower other = lower name →
    typeOf other = typeOf name
  lastDot : ∀ (front front' : Bytes) {ext : Bytes}, Component ext → dot ∉ ext →
    typeOf (front ++ dot :: ext) = typeOf (front' ++ dot :: ext)
  /-- Dots in the directory do not count. -/
  noDot : ∀ (directory : Bytes) {sep : UInt8} {name : Bytes}, isSeparator sep = true →
    Component name → dot ∉ name → typeOf name = ascii "application/octet-stream" ∧
      typeOf (directory ++ sep :: name) = ascii "application/octet-stream"
  known : ∀ pair ∈ table, ∀ (front : Bytes) {ext : Bytes}, lower ext = pair.1 →
    typeOf (front ++ ext) = pair.2

theorem ofName_of_dot_not_mem {name : Bytes} (hname : Component name) (hdot : dot ∉ name) :
    ofName name = ascii "application/octet-stream" := by
  unfold ofName
  rw [extension_of_dot_not_mem]
  · rfl
  · rwa [lastComponent_of_all hname]

theorem extension_of_known {pair : Bytes × Bytes} (hpair : pair ∈ table) {ext : Bytes}
    (hext : lower ext = pair.1) (front : Bytes) : extension (front ++ ext) = pair.1 := by
  obtain ⟨-, small, hsmall, hcomponent, hdot⟩ := ofExtension_of_mem pair hpair
  have hlower : lower ext = lower (dot :: small) := by
    rw [← hsmall, ← hext, Bytes.lower_lower]
  obtain ⟨written, rfl, hwritten⟩ := Bytes.exists_cons_of_lower_eq (by decide) hlower
  rw [extension_append (component_of_lower_eq hwritten hcomponent)
    (dot_not_mem_of_lower_eq hwritten hdot), hext]

theorem byExtension_ofName : ByExtension ofName where
  directory directory _ _ hsep hname :=
    congrArg ofExtension (extension_directory hsep hname directory)
  letters hname h := congrArg ofExtension (extension_of_lower_eq hname h)
  lastDot front front' _ hext hdot := by
    unfold ofName
    rw [extension_append hext hdot, extension_append hext hdot]
  noDot directory _ _ hsep hname hdot := by
    have hbare := ofName_of_dot_not_mem hname hdot
    refine ⟨hbare, ?_⟩
    rw [ofName, extension_directory hsep hname]
    exact hbare
  known pair hpair front _ hext := by
    unfold ofName
    rw [extension_of_known hpair hext]
    exact (ofExtension_of_mem pair hpair).1

/-! ## Compressed files -/

/-- The name ends in the extension of compressed files, in any case of letters. -/
def EndsInGzip (name : Bytes) : Prop := ∃ base ext, name = base ++ ext ∧ lower ext = ascii ".gz"

theorem isGzip_append (base : Bytes) {ext : Bytes} (hext : lower ext = ascii ".gz") :
    isGzip (base ++ ext) = true := by
  have hknown : (gzipExtension, ascii "application/gzip") ∈ table := by decide
  unfold isGzip
  rw [extension_of_known hknown hext, beq_self_eq_true]

theorem isGzip_iff {name : Bytes} : isGzip name = true ↔ EndsInGzip name := by
  constructor
  · intro h
    obtain ⟨above, habove⟩ := exists_append_lastComponent name
    unfold isGzip extension at h
    split at h
    · cases h
    · rename_i before after hcut
      obtain ⟨happend, -⟩ := Bytes.append_of_cutLast hcut
      refine ⟨above ++ before, dot :: after, ?_, beq_iff_eq.1 h⟩
      rw [List.append_assoc, ← happend]
      exact habove
  · rintro ⟨base, ext, rfl, hext⟩
    exact isGzip_append base hext

theorem take_of_gzip (base : Bytes) {ext : Bytes} (hext : lower ext = ascii ".gz") :
    (base ++ ext).take ((base ++ ext).length - 3) = base := by
  have hlength := Bytes.lower_length ext
  rw [hext] at hlength
  have hthree : ext.length = 3 := hlength.symm
  rw [List.length_append, hthree, Nat.add_sub_cancel, List.take_left]

end ContentType

namespace LocalFile

open ContentType

/-- The last component of the path of a file. -/
structure LastName (path name : Bytes) : Prop where
  slash_not_mem : slash ∉ name
  ends : path = name ∨ ∃ above, path = above ++ slash :: name

theorem LastName.fileName_eq {path name : Bytes} (h : LastName path name) :
    fileName path = name := by
  have hslash := h.slash_not_mem
  unfold fileName
  rcases h.ends with rfl | ⟨above, rfl⟩
  · rw [Bytes.cutLast_eq_none_iff.2 hslash]
  · rw [Bytes.cutLast_append hslash]

/-- What the headers say of a file with this name. -/
structure TypedBy (name : Bytes) (headers : Headers) : Prop where
  gzip_iff : headers.contentEncoding = ascii "gzip" ↔ EndsInGzip name
  packed : EndsInGzip name → headers.contentType = ofName (name.take (name.length - 3))
  plain : ¬ EndsInGzip name → headers.contentEncoding = [] ∧ headers.contentType = ofName name
  /-- The base may be empty, or end in `.gz` itself. -/
  base : ∀ {base ext : Bytes}, name = base ++ ext → lower ext = ascii ".gz" →
    headers.contentType = ofName base

theorem typedBy_headers {path name : Bytes} (h : LastName path name) :
    TypedBy name (headers path) := by
  have hheaders : headers path =
      { contentType := (ofFile name).1, contentEncoding := (ofFile name).2 } := by
    unfold headers
    rw [h.fileName_eq]
  rw [hheaders]
  by_cases hgzip : isGzip name = true
  · have hends := isGzip_iff.1 hgzip
    have hfile : ofFile name = (ofName (name.take (name.length - 3)), ascii "gzip") := by
      unfold ofFile
      rw [if_pos hgzip]
    rw [hfile]
    refine ⟨iff_of_true rfl hends, fun _ => rfl, fun hnot => absurd hends hnot, ?_⟩
    rintro base ext rfl hext
    rw [take_of_gzip base hext]
  · have hends : ¬ EndsInGzip name := fun hends => hgzip (isGzip_iff.2 hends)
    have hfile : ofFile name = (ofName name, []) := by
      unfold ofFile
      rw [if_neg hgzip]
    have hencoding : ([] : Bytes) ≠ ascii "gzip" := by decide
    rw [hfile]
    refine ⟨iff_of_false hencoding hends, fun hyes => absurd hyes hends, fun _ => ⟨rfl, rfl⟩, ?_⟩
    rintro base ext rfl hext
    exact absurd ⟨base, ext, rfl, hext⟩ hends

/-- Types go by the extension, and a file that is there is described by the last name of its path,
a compressed one by what its name would be unpacked. -/
theorem content_by_extension :
    ByExtension ofName ∧
      ∀ {tree : FileTree} {path name : Bytes} {size : UInt64} {modified : Int},
        tree.find? path = some (.file size modified) → LastName path name →
          ∃ properties, (source tree path).answer = .ok properties ∧
            TypedBy name properties.headers := by
  refine ⟨byExtension_ofName, ?_⟩
  intro tree path name size modified hfound hname
  unfold source
  rw [hfound]
  exact ⟨_, rfl, typedBy_headers hname⟩

def packedName : Bytes := ascii "a\\b.txt.GZ"

def packedPath : Bytes := ascii "v1.csv/" ++ packedName

def packedHome : List Bytes := [ascii "tmp", ascii "work"]

def packedTree : FileTree :=
  (FileTree.empty.put (packedHome ++ [ascii "v1.csv"]) .directory).put
    (packedHome ++ [ascii "v1.csv"] ++ [packedName]) (.file 3 0)

theorem find?_packedPath : packedTree.find? packedPath = some (.file 3 0) := by
  have hread : FileTree.readable? packedPath = some packedPath := by decide
  have hnames : FileTree.components packedPath = [ascii "v1.csv", packedName] := by decide
  have hstart : FileTree.startOf packedTree.workingDirectory packedPath = packedHome := by decide
  have hhome : packedTree.nodeAt packedHome = some .directory := by decide
  have hbelow : packedTree.nodeAt (packedHome ++ [ascii "v1.csv"]) = some .directory := by decide
  have hfile : packedTree.nodeAt (packedHome ++ [ascii "v1.csv"] ++ [packedName]) =
      some (.file 3 0) := by
    decide
  unfold FileTree.find? FileTree.locate? FileTree.place
  rw [hread]
  dsimp only
  rw [hstart, hnames,
    FileTree.walk_cons hhome (by decide) (by decide) (by decide) hbelow nofun,
    FileTree.walk_cons hbelow (by decide) (by decide) (by decide) hfile nofun,
    FileTree.walk_nil hfile]
  exact hfile

/-- A compressed file with a backslash in its name, below a directory with a dot. -/
theorem packedFile_by_extension :
    packedTree.find? packedPath = some (.file 3 0) ∧ LastName packedPath packedName ∧
      ∃ properties, (source packedTree packedPath).answer = .ok properties ∧
        properties.headers.contentEncoding = ascii "gzip" ∧
        properties.headers.contentType = ascii "text/plain" := by
  have hname : LastName packedPath packedName := ⟨by decide, .inr ⟨ascii "v1.csv", by rfl⟩⟩
  obtain ⟨properties, hanswer, htyped⟩ := content_by_extension.2 find?_packedPath hname
  have hbase : packedName = ascii "a\\b.txt" ++ ascii ".GZ" := by rfl
  have hgzip : lower (ascii ".GZ") = ascii ".gz" := by rfl
  refine ⟨find?_packedPath, hname, properties, hanswer, htyped.gzip_iff.2 ⟨_, _, hbase, hgzip⟩, ?_⟩
  rw [htyped.base hbase hgzip]
  rfl

end LocalFile

end LakeUpload
