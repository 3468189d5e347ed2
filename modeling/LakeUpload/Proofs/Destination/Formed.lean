import LakeUpload.Proofs.Destination.Grammar

/-!
# Destinations that were read

Reading leaves marks on a destination: its host is in small letters and has one of two forms, its
path is made of names, and no part holds a byte that would end it. `Formed` lists them, and
`formed_of_read` says that there is no other destination that a text names.
-/

namespace LakeUpload

open Bytes

namespace Url

/-! ## Bytes of names -/

/-- Neither a blank nor a control. -/
def isShown (b : UInt8) : Bool := !(isBlank b || isControl b)

/-- A byte of a host or of a name in a path. -/
def isNameByte (b : UInt8) : Bool := isShown b && b != slash && b != question && b != hash

theorem isNameByte_iff {b : UInt8} :
    isNameByte b = true ↔ isShown b = true ∧ b ≠ slash ∧ b ≠ question ∧ b ≠ hash := by
  simp [isNameByte, and_assoc]

theorem isNameByte_of_isLower {b : UInt8} (h : isLower b = true) : isNameByte b = true := by
  simp only [isLower, isNameByte, isShown, isBlank, isControl, Bool.and_eq_true, Bool.not_eq_true',
    Bool.or_eq_false_iff, Bool.and_eq_false_iff, decide_eq_true_eq, decide_eq_false_iff_not,
    bne_iff_ne, beq_eq_false_iff_ne, ne_eq, ← UInt8.toNat_inj, UInt8.le_iff_toNat_le,
    UInt8.lt_iff_toNat_lt, UInt8.reduceToNat, slash, question, Bytes.hash] at h ⊢
  omega

theorem isNameByte_of_isDigit {b : UInt8} (h : isDigit b = true) : isNameByte b = true := by
  simp only [isDigit, isNameByte, isShown, isBlank, isControl, Bool.and_eq_true, Bool.not_eq_true',
    Bool.or_eq_false_iff, Bool.and_eq_false_iff, decide_eq_true_eq, decide_eq_false_iff_not,
    bne_iff_ne, beq_eq_false_iff_ne, ne_eq, ← UInt8.toNat_inj, UInt8.le_iff_toNat_le,
    UInt8.lt_iff_toNat_lt, UInt8.reduceToNat, slash, question, Bytes.hash] at h ⊢
  omega

theorem isNameByte_lowerByte {b : UInt8} (h : isNameByte b = true) :
    isNameByte (lowerByte b) = true := by
  cases hb : isUpper b with
  | false =>
      rw [lowerByte_of_not_isUpper hb]
      exact h
  | true =>
      exact isNameByte_of_isLower (isLower_lowerByte hb)

theorem isNameByte_of_mem_lower {s : Bytes} (h : ∀ b ∈ s, isNameByte b = true) :
    ∀ b ∈ lower s, isNameByte b = true := by
  intro b hb
  obtain ⟨a, ha, rfl⟩ := List.mem_map.1 hb
  exact isNameByte_lowerByte (h a ha)

/-! ## Forms of destinations -/

inductive HostForm : Bytes → Prop where
  | bracketed {inner : Bytes} (hne : inner ≠ []) (hclosed : closeBracket ∉ inner) :
      HostForm (openBracket :: inner ++ [closeBracket])
  | plain {host : Bytes} (hne : host ≠ []) (hopen : host.head? ≠ some openBracket) : HostForm host

/-- The pieces that the path of a destination is made of. -/
structure PathForm (pieces : List Bytes) (filesystem path : Bytes) : Prop where
  names : ∀ piece ∈ pieces, piece ≠ [] ∧ ∀ b ∈ piece, isNameByte b = true
  filesystem : filesystem = pieces.headD []
  path : path = join slash pieces.tail

structure Formed (url : Url) : Prop where
  small : lower url.host = url.host
  host : HostForm url.host
  hostNames : ∀ b ∈ url.host, isNameByte b = true
  path : ∃ pieces, PathForm pieces url.filesystem url.path
  query : ∀ b ∈ url.query, isShown b = true ∧ b ≠ hash

theorem HostForm.ne_nil {host : Bytes} (h : HostForm host) : host ≠ [] := by
  cases h with
  | bracketed hne hclosed =>
      exact List.cons_ne_nil _ _
  | plain hne hopen =>
      exact hne

theorem HostForm.lower {host : Bytes} (h : HostForm host) : HostForm (lower host) := by
  cases h with
  | @bracketed inner hne hclosed =>
      have hlower : Bytes.lower (openBracket :: inner ++ [closeBracket]) =
          openBracket :: Bytes.lower inner ++ [closeBracket] := by
        simp [Bytes.lower, show lowerByte openBracket = openBracket by decide,
          show lowerByte closeBracket = closeBracket by decide]
      rw [hlower]
      refine .bracketed ?_ ?_
      · simpa [Bytes.lower] using hne
      · rwa [mem_lower_iff (by decide)]
  | plain hne hopen =>
      refine .plain ?_ ?_
      · simpa [Bytes.lower] using hne
      · cases host with
        | nil =>
            exact absurd rfl hne
        | cons b rest =>
            have hb : b ≠ openBracket := by simpa using hopen
            simpa [Bytes.lower, lowerByte_eq_iff (show isLetter openBracket = false by decide)]
              using hb

/-! ## What a spelling leaves of itself -/

theorem AuthoritySpelling.hostForm {authority host : Bytes} {port : Option UInt16}
    (h : AuthoritySpelling authority host port) : HostForm host := by
  cases h with
  | bracketed hne hclosed =>
      exact .bracketed hne hclosed
  | bracketedPort hne hclosed hport =>
      exact .bracketed hne hclosed
  | plain hne hopen hcolon =>
      exact .plain hne hopen
  | plainPort hne hopen hlast hport =>
      exact .plain hne hopen

theorem AuthoritySpelling.host_subset {authority host : Bytes} {port : Option UInt16}
    (h : AuthoritySpelling authority host port) : host ⊆ authority := by
  cases h with
  | bracketed hne hclosed =>
      exact List.Subset.refl _
  | bracketedPort hne hclosed hport =>
      exact List.subset_append_left _ _
  | plain hne hopen hcolon =>
      exact List.Subset.refl _
  | plainPort hne hopen hlast hport =>
      exact List.subset_append_left _ _

theorem PathSpelling.name_of_mem {path : Bytes} {names : List Bytes} (h : PathSpelling path names) :
    ∀ name ∈ names, name ≠ [] ∧ slash ∉ name ∧ name ⊆ path := by
  induction h with
  | empty =>
      simp
  | separator h ih =>
      intro name hname
      obtain ⟨hne, hslash, hsubset⟩ := ih name hname
      exact ⟨hne, hslash, List.subset_cons_of_subset _ hsubset⟩
  | last hne hslash =>
      intro name hname
      rw [List.mem_singleton.1 hname]
      exact ⟨hne, hslash, List.Subset.refl _⟩
  | name hne hslash h ih =>
      intro name hname
      rcases List.mem_cons.1 hname with rfl | hname
      · exact ⟨hne, hslash, List.subset_append_left _ _⟩
      · obtain ⟨hne', hslash', hsubset⟩ := ih name hname
        refine ⟨hne', hslash', fun b hb => List.mem_append_right _ ?_⟩
        exact List.mem_cons_of_mem _ (hsubset hb)

theorem isShown_iff {b : UInt8} : isShown b = true ↔ 0x20 < b ∧ b ≠ 0x7f := by
  rw [isShown, Bool.not_eq_true', blank_or_control_eq_false_iff]

namespace Spelling

variable {spelling : Spelling} {url : Url} {b : UInt8}

theorem mem_text_of_authority (h : b ∈ spelling.authority) : b ∈ spelling.text := by
  simp [text, rest, h]

theorem mem_text_of_path (h : b ∈ spelling.path) : b ∈ spelling.text := by
  simp [text, rest, h]

theorem mem_text_of_query {query : Bytes} (hquery : spelling.query = some query) (h : b ∈ query) :
    b ∈ spelling.text := by
  simp [text, rest, hquery, optional, h]

theorem Names.isNameByte_of_authority (h : spelling.Names url) (hb : b ∈ spelling.authority) :
    isNameByte b = true :=
  isNameByte_iff.2 ⟨isShown_iff.2 (h.shown b (mem_text_of_authority hb)), h.cut.authority b hb⟩

theorem Names.isNameByte_of_path (h : spelling.Names url) (hb : b ∈ spelling.path)
    (hslash : b ≠ slash) : isNameByte b = true :=
  isNameByte_iff.2 ⟨isShown_iff.2 (h.shown b (mem_text_of_path hb)), hslash, h.cut.path b hb⟩

theorem Names.formed (h : spelling.Names url) : url.Formed := by
  obtain ⟨host, hauthority, hhost⟩ := h.authority
  obtain ⟨names, hpath, hfilesystem, hrest⟩ := h.path
  have hnames : ∀ b ∈ host, isNameByte b = true := fun b hb =>
    h.isNameByte_of_authority (hauthority.host_subset hb)
  refine ⟨?_, ?_, ?_, ⟨names, ?_, hfilesystem, ?_⟩, ?_⟩
  · rw [hhost, lower_lower]
  · rw [hhost]
    exact hauthority.hostForm.lower
  · rw [hhost]
    exact isNameByte_of_mem_lower hnames
  · intro name hname
    obtain ⟨hne, hslash, hsubset⟩ := hpath.name_of_mem name hname
    refine ⟨hne, fun b hb => h.isNameByte_of_path (hsubset hb) ?_⟩
    rintro rfl
    exact hslash hb
  · rw [hrest, join_eq_intercalate]
  · intro b hb
    rw [h.query] at hb
    cases hquery : spelling.query with
    | none =>
        rw [hquery] at hb
        cases hb
    | some query =>
        rw [hquery, Option.getD_some] at hb
        refine ⟨isShown_iff.2 (h.shown b (mem_text_of_query hquery hb)), ?_⟩
        rintro rfl
        exact h.cut.query query hquery hb

end Spelling

theorem formed_of_read {text : Bytes} {url : Url} (h : read text = .ok url) : url.Formed := by
  obtain ⟨spelling, -, hnames⟩ := read_eq_ok_iff_spelling.1 h
  exact hnames.formed

end Url

end LakeUpload
