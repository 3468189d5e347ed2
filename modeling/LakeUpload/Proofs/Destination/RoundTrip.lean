import LakeUpload.Proofs.Destination.Formed

/-!
# Reading a destination back

The text of a destination that was read is cut where it was put together, so that all parts but
the authority always come back. The authority comes back unless its host holds a colon that
neither brackets nor a port keep apart.
-/

namespace LakeUpload

open Bytes

namespace Url

/-! ## Cutting the text of a destination -/

theorem isNameByte_of_mem_portText (port : Option UInt16) :
    ∀ b ∈ portText port, isNameByte b = true := by
  intro b hb
  cases port with
  | none =>
      cases hb
  | some port =>
      rcases List.mem_cons.1 hb with rfl | hb
      · decide
      · exact isNameByte_of_isDigit (List.all_eq_true.1 (decimal_all_digits port.toNat) b hb)

/-! ## Paths -/

section

variable {pieces : List Bytes} {filesystem path : Bytes}

theorem PathForm.pathText_eq (h : PathForm pieces filesystem path) :
    pathText filesystem path = if pieces = [] then [] else slash :: join slash pieces := by
  rw [h.filesystem, h.path]
  cases pieces with
  | nil =>
      rfl
  | cons first rest =>
      have hfirst : first ≠ [] := (h.names first List.mem_cons_self).1
      cases rest with
      | nil =>
          simp [pathText, hfirst, join]
      | cons next others =>
          have hnext : next ≠ [] := (h.names next (by simp)).1
          have hjoin : join slash (next :: others) ≠ [] := by
            cases others with
            | nil =>
                exact hnext
            | cons _ _ =>
                simp [join]
          simp [pathText, hfirst, hjoin, join]

theorem PathForm.mem_pathText (h : PathForm pieces filesystem path) {b : UInt8}
    (hb : b ∈ pathText filesystem path) : b = slash ∨ isNameByte b = true := by
  rw [h.pathText_eq] at hb
  split at hb
  · cases hb
  · rcases List.mem_cons.1 hb with rfl | hb
    · exact .inl rfl
    · rcases mem_join hb with rfl | ⟨piece, hpiece, hb⟩
      · exact .inl rfl
      · exact .inr ((h.names piece hpiece).2 b hb)

theorem PathForm.segments_pathText (h : PathForm pieces filesystem path) :
    segments (pathText filesystem path) = pieces := by
  rw [h.pathText_eq]
  by_cases hnil : pieces = []
  · simp [hnil, segments, split]
  · have hslash : ∀ piece ∈ pieces, slash ∉ piece := by
      intro piece hpiece hmem
      exact (isNameByte_iff.1 ((h.names piece hpiece).2 _ hmem)).2.1 rfl
    have hkept : pieces.filter (· ≠ []) = pieces := by
      rw [List.filter_eq_self]
      intro piece hpiece
      simpa using (h.names piece hpiece).1
    have hcut : split slash (slash :: join slash pieces) = [] :: pieces := by
      rw [split, if_pos rfl, split_join hnil hslash]
    rw [if_neg hnil, segments, hcut, List.filter_cons_of_neg (by simp), hkept]

end

/-! ## Authorities -/

theorem colon_not_mem_decimal (n : Nat) : colon ∉ decimal n := by
  intro hmem
  have hdigit := List.all_eq_true.1 (decimal_all_digits n) colon hmem
  revert hdigit
  decide

theorem portSpelling_decimal (port : UInt16) :
    PortSpelling (decimal port.toNat) (some port) := by
  have hport : port.toNat ≤ 65535 := Nat.le_of_lt_succ port.toNat_lt
  have hvalue := PortSpelling.value (ofDigits?_eq_some_iff.1 (ofDigits?_decimal port.toNat)) hport
  rwa [UInt16.ofNat_toNat] at hvalue

theorem HostForm.authoritySpelling {host : Bytes} (h : HostForm host) {port : Option UInt16}
    (hback : port.isSome = true ∨ host.head? = some openBracket ∨ colon ∉ host) :
    AuthoritySpelling (host ++ portText port) host port := by
  cases port with
  | some port =>
      have hport := portSpelling_decimal port
      cases h with
      | bracketed hne hclosed =>
          exact .bracketedPort hne hclosed hport
      | plain hne hopen =>
          exact .plainPort hne hopen (colon_not_mem_decimal port.toNat) hport
  | none =>
      rw [portText, List.append_nil]
      cases h with
      | bracketed hne hclosed =>
          exact .bracketed hne hclosed
      | plain hne hopen =>
          rcases hback with hport | hbracket | hcolon
          · cases hport
          · exact absurd hbracket hopen
          · exact .plain hne hopen hcolon

/-- The last colon of a host without brackets is taken for the colon of a port. -/
theorem AuthoritySpelling.length_lt_of_mem_colon {host before : Bytes} {port : Option UInt16}
    (h : AuthoritySpelling host before port) (hopen : host.head? ≠ some openBracket)
    (hcolon : colon ∈ host) : before.length < host.length := by
  cases h with
  | bracketed hne hclosed =>
      exact absurd rfl hopen
  | bracketedPort hne hclosed hport =>
      exact absurd rfl hopen
  | plain hne hplain hnone =>
      exact absurd hcolon hnone
  | plainPort hne hplain hlast hport =>
      simp

/-! ## Whole destinations -/

/-- The spelling of a destination that its identity is. -/
def spelling (url : Url) : Spelling where
  scheme := url.scheme.text
  authority := url.host ++ portText url.port
  path := pathText url.filesystem url.path
  query := if url.query = [] then none else some url.query
  fragment := none

theorem text_spelling (url : Url) : url.spelling.text = url.toText := by
  have hsep : ascii "://" = [colon, slash, slash] := by decide
  have hquery : optional question (if url.query = [] then none else some url.query) =
      queryText url.query := by
    unfold queryText
    split <;> rfl
  have hfragment : optional hash (none : Option Bytes) = [] := rfl
  simp only [Spelling.text, Spelling.rest, spelling, toText, hsep, hquery, hfragment,
    List.append_nil, List.append_assoc, List.cons_append, List.nil_append]

theorem isShown_of_isNameByte {b : UInt8} (h : isNameByte b = true) : isShown b = true :=
  (isNameByte_iff.1 h).1

theorem Formed.isShown_of_mem_toText {url : Url} (h : url.Formed) :
    ∀ b ∈ url.toText, isShown b = true := by
  obtain ⟨pieces, hpath⟩ := h.path
  have hscheme : (url.scheme.text ++ ascii "://").all isShown = true := by
    cases url.scheme <;> decide
  have hquery : ∀ b ∈ queryText url.query, isShown b = true := by
    intro b hb
    unfold queryText at hb
    split at hb
    · cases hb
    · rcases List.mem_cons.1 hb with rfl | hb
      · decide
      · exact (h.query b hb).1
  intro b hb
  rw [toText] at hb
  simp only [List.mem_append, or_assoc] at hb
  rcases hb with hb | hb | hb | hb | hb | hb
  · exact List.all_eq_true.1 hscheme b (List.mem_append_left _ hb)
  · exact List.all_eq_true.1 hscheme b (List.mem_append_right _ hb)
  · exact isShown_of_isNameByte (h.hostNames b hb)
  · exact isShown_of_isNameByte (isNameByte_of_mem_portText url.port b hb)
  · rcases hpath.mem_pathText hb with rfl | hb
    · decide
    · exact isShown_of_isNameByte hb
  · exact hquery b hb

theorem Formed.cut_spelling {url : Url} (h : url.Formed) : url.spelling.Cut := by
  obtain ⟨pieces, hpath⟩ := h.path
  refine ⟨?_, ?_, ?_, ?_⟩
  · intro b hb
    rcases List.mem_append.1 hb with hb | hb
    · exact (isNameByte_iff.1 (h.hostNames b hb)).2
    · exact (isNameByte_iff.1 (isNameByte_of_mem_portText url.port b hb)).2
  · intro b hb
    rcases hpath.mem_pathText hb with rfl | hb
    · decide
    · exact (isNameByte_iff.1 hb).2.2
  · show pathText url.filesystem url.path = [] ∨
      (pathText url.filesystem url.path).head? = some slash
    unfold pathText
    split
    · exact .inl rfl
    · exact .inr rfl
  · intro query hquery hmem
    have hsome : query = url.query := by
      unfold spelling at hquery
      split at hquery
      · cases hquery
      · exact (Option.some.inj hquery).symm
    exact (h.query hash (hsome ▸ hmem)).2 rfl

theorem lower_scheme_text (scheme : Scheme) : lower scheme.text = scheme.text := by
  cases scheme <;> decide

theorem getD_query_spelling (url : Url) : url.spelling.query.getD [] = url.query := by
  unfold spelling
  split
  · rename_i hnil
    exact hnil.symm
  · rfl

theorem Formed.pathSpelling {url : Url} (h : url.Formed) :
    ∃ names, PathSpelling url.spelling.path names ∧ url.filesystem = names.headD [] ∧
      url.path = [slash].intercalate names.tail := by
  obtain ⟨pieces, hpath⟩ := h.path
  have hsegments := pathSpelling_segments (pathText url.filesystem url.path)
  rw [hpath.segments_pathText] at hsegments
  refine ⟨pieces, hsegments, hpath.filesystem, ?_⟩
  rw [hpath.path, join_eq_intercalate]

/-- Only the authority can keep the identity of a destination from being read as it. -/
theorem Formed.read_toText_iff {url : Url} (h : url.Formed) :
    read url.toText = .ok url ↔
      ∃ host, AuthoritySpelling (url.host ++ portText url.port) host url.port ∧
        url.host = lower host := by
  have hshown : ∀ b ∈ url.spelling.text, 0x20 < b ∧ b ≠ 0x7f := by
    rw [text_spelling]
    intro b hb
    exact isShown_iff.1 (h.isShown_of_mem_toText b hb)
  rw [← text_spelling, h.cut_spelling.read_text (lower_scheme_text url.scheme) hshown,
    ofPieces_eq_ok_iff]
  constructor
  · rintro ⟨-, hauthority, -, -⟩
    exact hauthority
  · intro hauthority
    exact ⟨rfl, hauthority, h.pathSpelling, (getD_query_spelling url).symm⟩

/-! ## The round trip -/

/-- Destinations whose text shows where the host ends. -/
def Returns (url : Url) : Prop :=
  url.port.isSome = true ∨ url.host.head? = some openBracket ∨ colon ∉ url.host

instance (url : Url) : Decidable url.Returns :=
  inferInstanceAs (Decidable (url.port.isSome = true ∨ url.host.head? = some openBracket ∨
    colon ∉ url.host))

theorem Formed.read_toText_of_returns {url : Url} (h : url.Formed) (hback : url.Returns) :
    read url.toText = .ok url :=
  h.read_toText_iff.2 ⟨url.host, h.host.authoritySpelling hback, h.small.symm⟩

theorem Formed.read_toText_ne {url : Url} (h : url.Formed) (hback : ¬ url.Returns) :
    read url.toText ≠ .ok url := by
  obtain ⟨hport, hopen, hcolon⟩ : url.port = none ∧ url.host.head? ≠ some openBracket ∧
      colon ∈ url.host := by
    simpa [Returns] using hback
  -- the host that is read back is shorter
  intro hread
  obtain ⟨before, hauthority, hhost⟩ := h.read_toText_iff.1 hread
  rw [hport, portText, List.append_nil] at hauthority
  have hshort := hauthority.length_lt_of_mem_colon hopen hcolon
  have hlength : url.host.length = before.length := by
    rw [hhost, lower_length]
  omega

theorem code_of_parse_error {text : Bytes} {fault : Fault} (h : parse text = .error fault) :
    fault.code = .malformedDestination := by
  unfold parse at h
  cases hread : read text with
  | error flaw =>
      rw [hread] at h
      cases h
      rfl
  | ok url =>
      rw [hread] at h
      cases h

/-- The text of a destination that was read names it again exactly if it has a port, brackets or no
colon in its host. Any other text is malformed or names another destination. -/
theorem parse_toText_iff {text : Bytes} {url : Url} (h : parse text = .ok url) :
    (parse url.toText = .ok url ↔ url.Returns) ∧
      (¬ url.Returns →
        (∃ fault, parse url.toText = .error fault ∧ fault.code = .malformedDestination) ∨
          ∃ other, parse url.toText = .ok other ∧ other ≠ url) := by
  have hformed := formed_of_read (parse_eq_ok_iff.1 h)
  have hne (hback : ¬ url.Returns) : parse url.toText ≠ .ok url := fun hparse =>
    hformed.read_toText_ne hback (parse_eq_ok_iff.1 hparse)
  refine ⟨⟨?_, ?_⟩, ?_⟩
  · intro hparse
    by_cases hback : url.Returns
    · exact hback
    · exact absurd hparse (hne hback)
  · intro hback
    exact parse_eq_ok_iff.2 (hformed.read_toText_of_returns hback)
  · intro hback
    cases hparse : parse url.toText with
    | error fault =>
        exact .inl ⟨fault, rfl, code_of_parse_error hparse⟩
    | ok other =>
        refine .inr ⟨other, rfl, ?_⟩
        rintro rfl
        exact hne hback hparse

def looseUrl : Url := { scheme := .http, host := ascii "lake:", filesystem := ascii "fs" }

/-- The colon that this host ends with is taken for that of an empty port when it is read back. -/
theorem looseUrl_does_not_return :
    parse (ascii "http://Lake::/fs") = .ok looseUrl ∧
      ((∃ fault, parse looseUrl.toText = .error fault ∧ fault.code = .malformedDestination) ∨
        ∃ other, parse looseUrl.toText = .ok other ∧ other ≠ looseUrl) := by
  have hparse : parse (ascii "http://Lake::/fs") = .ok looseUrl := by rfl
  have hloose : ¬ looseUrl.Returns := by decide
  exact ⟨hparse, (parse_toText_iff hparse).2 hloose⟩

end Url

end LakeUpload
