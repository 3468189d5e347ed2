import LakeUpload.Proofs.Destination.RoundTrip

/-!
# What an identity says

The identity of a destination shows its scheme, path and query. It shows the host and the port as
one authority, and outside brackets a host may hold colons of its own: there a host with a port and
a longer host without one can be written alike. `Absorbs` is that case, and there is no other.
-/

namespace LakeUpload

open Bytes

namespace Url

/-! ## Parts of an identity -/

theorem scheme_text_injective {first second : Scheme} (h : first.text = second.text) :
    first = second := by
  have hfirst := Scheme.ofText?_text first
  rw [h, Scheme.ofText?_text second] at hfirst
  exact (Option.some.inj hfirst).symm

theorem cutScheme_toText (url : Url) :
    cutScheme url.toText = some (url.scheme.text, url.spelling.rest) := by
  have hcolon : colon ∉ url.scheme.text := by
    cases url.scheme <;> decide
  rw [← text_spelling]
  exact cutScheme_append hcolon url.spelling.rest

theorem PathForm.eq_of_pathText {pieces others : List Bytes} {filesystem path root rest : Bytes}
    (h : PathForm pieces filesystem path) (hother : PathForm others root rest)
    (htext : pathText filesystem path = pathText root rest) :
    filesystem = root ∧ path = rest := by
  have hpieces : pieces = others := by
    rw [← h.segments_pathText, htext, hother.segments_pathText]
  subst hpieces
  exact ⟨h.filesystem.trans hother.filesystem.symm, h.path.trans hother.path.symm⟩

/-- All that two destinations of one identity can differ in is where their hosts end. -/
theorem Formed.parts_eq_of_toText {u v : Url} (hu : u.Formed) (hv : v.Formed)
    (h : u.toText = v.toText) :
    u.scheme = v.scheme ∧ u.host ++ portText u.port = v.host ++ portText v.port ∧
      u.filesystem = v.filesystem ∧ u.path = v.path ∧ u.query = v.query := by
  have hcut := cutScheme_toText u
  rw [h, cutScheme_toText v] at hcut
  obtain ⟨hscheme, hrest⟩ := Prod.mk.inj (Option.some.inj hcut)
  have hpieces := hu.cut_spelling.ofText_rest
  rw [← hrest, hv.cut_spelling.ofText_rest, getD_query_spelling, getD_query_spelling] at hpieces
  obtain ⟨hauthority, hpath, hquery⟩ := Pieces.mk.inj hpieces
  obtain ⟨pieces, hform⟩ := hu.path
  obtain ⟨others, hother⟩ := hv.path
  obtain ⟨hfilesystem, hrest⟩ := hform.eq_of_pathText hother hpath.symm
  exact ⟨(scheme_text_injective hscheme).symm, hauthority.symm, hfilesystem, hrest, hquery.symm⟩

/-! ## Where a host ends -/

/-- A port is what follows the last colon. -/
theorem host_port_eq_of_append {host other : Bytes} {port next : UInt16}
    (h : host ++ portText (some port) = other ++ portText (some next)) :
    host = other ∧ port = next := by
  have hcut := cutLast_append (colon_not_mem_decimal port.toNat) host
  have hother := cutLast_append (colon_not_mem_decimal next.toNat) other
  rw [show host ++ colon :: decimal port.toNat = other ++ colon :: decimal next.toNat from h,
    hother] at hcut
  obtain ⟨hhost, hdigits⟩ := Prod.mk.inj (Option.some.inj hcut)
  exact ⟨hhost.symm, UInt16.toNat_inj.1 (decimal_injective hdigits).symm⟩

/-- Nothing stands behind the closing bracket of a host. -/
theorem HostForm.head_ne_of_portText {host : Bytes} (h : HostForm host) {port : UInt16}
    (hlong : HostForm (host ++ portText (some port))) : host.head? ≠ some openBracket := by
  cases h with
  | plain hne hopen =>
      exact hopen
  | @bracketed inner hne hclosed =>
      generalize hwhole : openBracket :: inner ++ [closeBracket] ++ portText (some port) = whole
        at hlong
      have hsplit : whole = openBracket :: (inner ++ closeBracket :: portText (some port)) := by
        rw [← hwhole]
        simp
      cases hlong with
      | plain hne' hopen =>
          rw [hsplit] at hopen
          exact absurd rfl hopen
      | @bracketed outer hne' hclosed' =>
          have heq : outer ++ [closeBracket] = inner ++ closeBracket :: portText (some port) :=
            (List.cons.inj hsplit).2
          have hcut := cutFirst_append hclosed' ([] : Bytes)
          rw [heq, cutFirst_append hclosed] at hcut
          simp [portText] at hcut

/-- The host of `long` is the host of `url` and its port in one, and `long` has no port. -/
structure Absorbs (long url : Url) : Prop where
  port : url.port.isSome = true
  plain : url.host.head? ≠ some openBracket
  eq : long = { url with host := url.host ++ portText url.port, port := none }

theorem Absorbs.toText_eq {long url : Url} (h : long.Absorbs url) : long.toText = url.toText := by
  simp [h.eq, toText, portText]

theorem Absorbs.not_returns {long url : Url} (h : long.Absorbs url) : ¬ long.Returns := by
  obtain ⟨port, hport⟩ := Option.isSome_iff_exists.1 h.port
  rw [h.eq, hport]
  rintro (hsome | hopen | hcolon)
  · cases hsome
  · cases hhost : url.host with
    | nil =>
        rw [hhost] at hopen
        exact absurd (Option.some.inj hopen) (by decide)
    | cons b rest =>
        apply h.plain
        rw [hhost] at hopen ⊢
        exact hopen
  · apply hcolon
    simp [portText]

theorem Absorbs.ne {long url : Url} (h : long.Absorbs url) : long ≠ url := by
  rintro rfl
  have hnone : long.port = none := congrArg Url.port h.eq
  have hport := h.port
  rw [hnone] at hport
  cases hport

theorem Formed.eq_with_of_toText {u v : Url} (hu : u.Formed) (hv : v.Formed)
    (h : u.toText = v.toText) : u = { v with host := u.host, port := u.port } := by
  obtain ⟨hscheme, -, hfilesystem, hpath, hquery⟩ := hu.parts_eq_of_toText hv h
  rw [← hscheme, ← hfilesystem, ← hpath, ← hquery]

theorem Formed.absorbs_of_toText {u v : Url} (hu : u.Formed) (hv : v.Formed)
    (h : u.toText = v.toText) (hnone : u.port = none) (hport : v.port.isSome = true) :
    u.Absorbs v := by
  obtain ⟨-, hauthority, -⟩ := hu.parts_eq_of_toText hv h
  have hhost : u.host = v.host ++ portText v.port := by
    simpa [hnone, portText] using hauthority
  refine ⟨hport, ?_, ?_⟩
  · obtain ⟨port, hsome⟩ := Option.isSome_iff_exists.1 hport
    have hlong := hu.host
    rw [hhost, hsome] at hlong
    exact hv.host.head_ne_of_portText hlong
  · rw [← hhost, ← hnone]
    exact hu.eq_with_of_toText hv h

theorem Formed.toText_eq_iff {u v : Url} (hu : u.Formed) (hv : v.Formed) :
    u.toText = v.toText ↔ u = v ∨ u.Absorbs v ∨ v.Absorbs u := by
  constructor
  · intro h
    cases hport : u.port with
    | none =>
        cases hnext : v.port with
        | none =>
            obtain ⟨-, hauthority, -⟩ := hu.parts_eq_of_toText hv h
            have hhost : u.host = v.host := by
              simpa [hport, hnext, portText] using hauthority
            left
            rw [hu.eq_with_of_toText hv h, hhost, hport, ← hnext]
        | some next =>
            exact .inr (.inl (hu.absorbs_of_toText hv h hport (by simp [hnext])))
    | some port =>
        cases hnext : v.port with
        | none =>
            exact .inr (.inr (hv.absorbs_of_toText hu h.symm hnext (by simp [hport])))
        | some next =>
            obtain ⟨-, hauthority, -⟩ := hu.parts_eq_of_toText hv h
            rw [hport, hnext] at hauthority
            obtain ⟨hhost, hsame⟩ := host_port_eq_of_append hauthority
            left
            rw [hu.eq_with_of_toText hv h, hhost, hport, hsame, ← hnext]
  · rintro (rfl | habsorbs | habsorbs)
    · rfl
    · exact habsorbs.toText_eq
    · exact habsorbs.toText_eq.symm

/-! ## Destinations that share an identity -/

theorem lower_portText (port : Option UInt16) : lower (portText port) = portText port := by
  have hsmall : ∀ b ∈ portText port, lowerByte b = b := by
    intro b hb
    apply lowerByte_of_not_isUpper
    cases port with
    | none =>
        cases hb
    | some port =>
        rcases List.mem_cons.1 hb with rfl | hb
        · rfl
        · exact isUpper_of_isDigit (List.all_eq_true.1 (decimal_all_digits port.toNat) b hb)
  exact (List.map_congr_left hsmall).trans (List.map_id' _)

/-- A text whose port is followed by one more colon, that of an empty port. -/
def doubled (url : Url) : Spelling :=
  { url.spelling with authority := url.host ++ portText url.port ++ [colon] }

theorem mem_text_doubled {url : Url} {b : UInt8} (h : b ∈ url.doubled.text) :
    b ∈ url.toText ∨ b = colon := by
  rw [← text_spelling]
  simp only [Spelling.text, Spelling.rest, doubled, spelling, List.mem_append, List.mem_cons,
    List.not_mem_nil, or_false] at h ⊢
  tauto

theorem Formed.cut_doubled {url : Url} (h : url.Formed) : url.doubled.Cut := by
  have hcut := h.cut_spelling
  refine ⟨?_, hcut.path, hcut.start, hcut.query⟩
  intro b hb
  rcases List.mem_append.1 hb with hb | hb
  · exact hcut.authority b hb
  · rw [List.mem_singleton.1 hb]
    decide

/-- Every destination with a port outside brackets shares its identity with another one. -/
theorem Formed.exists_same_toText {url : Url} (h : url.Formed) (hport : url.port.isSome = true)
    (hplain : url.host.head? ≠ some openBracket) :
    ∃ long, parse url.doubled.text = .ok long ∧ long ≠ url ∧ long.toText = url.toText := by
  have hauthority :
      AuthoritySpelling url.doubled.authority (url.host ++ portText url.port) none := by
    have hhost : url.host ≠ [] := HostForm.ne_nil h.host
    refine .plainPort (by simp [hhost]) ?_ (by simp) .absent
    rwa [List.head?_append_of_ne_nil _ hhost]
  have habsorbs : Absorbs { url with host := url.host ++ portText url.port, port := none } url :=
    ⟨hport, hplain, rfl⟩
  refine ⟨_, ?_, habsorbs.ne, habsorbs.toText_eq⟩
  refine parse_eq_ok_iff.2 (read_eq_ok_iff_spelling.2 ⟨url.doubled, rfl, ?_⟩)
  refine ⟨?_, h.cut_doubled, lower_scheme_text url.scheme, ⟨_, hauthority, ?_⟩, h.pathSpelling,
    (getD_query_spelling url).symm⟩
  · intro b hb
    rcases mem_text_doubled hb with hb | rfl
    · exact isShown_iff.1 (h.isShown_of_mem_toText b hb)
    · decide
  · rw [lower_append, h.small, lower_portText]

/-- Destinations that were read have one identity exactly if they are equal or one of them holds
the port of the other in its host. Where reading an identity gives back its destination there is
no second one. -/
theorem same_toText_iff {text other : Bytes} {u v : Url} (hu : parse text = .ok u)
    (hv : parse other = .ok v) :
    (u.toText = v.toText ↔ u = v ∨ u.Absorbs v ∨ v.Absorbs u) ∧
      (u.Returns → v.Returns → (u.toText = v.toText ↔ u = v)) := by
  have hiff := (formed_of_read (parse_eq_ok_iff.1 hu)).toText_eq_iff
    (formed_of_read (parse_eq_ok_iff.1 hv))
  refine ⟨hiff, ?_⟩
  intro huback hvback
  constructor
  · intro h
    rcases hiff.1 h with heq | habsorbs | habsorbs
    · exact heq
    · exact absurd huback habsorbs.not_returns
    · exact absurd hvback habsorbs.not_returns
  · intro heq
    rw [heq]

def portApart : Url :=
  { scheme := .http, host := ascii "lake", port := some 1, filesystem := ascii "fs" }

def portInside : Url := { scheme := .http, host := ascii "lake:1", filesystem := ascii "fs" }

theorem portInside_same_toText :
    parse (ascii "http://lake:1:/fs") = .ok portInside ∧
      parse (ascii "http://lake:1/fs") = .ok portApart ∧
      (portInside.toText = portApart.toText ↔
        portInside = portApart ∨ portInside.Absorbs portApart ∨ portApart.Absorbs portInside) ∧
      (portInside.Returns → portApart.Returns →
        (portInside.toText = portApart.toText ↔ portInside = portApart)) := by
  have hinside : parse (ascii "http://lake:1:/fs") = .ok portInside := by rfl
  have hapart : parse (ascii "http://lake:1/fs") = .ok portApart := by rfl
  exact ⟨hinside, hapart, same_toText_iff hinside hapart⟩

/-- An identity does not always tell two destinations apart. -/
theorem not_always_told_apart :
    ¬ ∀ (text other : Bytes) (u v : Url), parse text = .ok u → parse other = .ok v →
      (u.toText = v.toText ↔ u = v) := by
  intro h
  have hinside : parse (ascii "http://lake:1:/fs") = .ok portInside := by rfl
  have hapart : parse (ascii "http://lake:1/fs") = .ok portApart := by rfl
  have hsame : portInside.toText = portApart.toText := by decide
  have heq := (h _ _ _ _ hinside hapart).1 hsame
  exact absurd heq (by decide)

end Url

end LakeUpload
