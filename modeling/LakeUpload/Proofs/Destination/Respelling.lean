import LakeUpload.Proofs.Destination.Formed
import LakeUpload.Remote.Target
import Mathlib.Logic.Relation

/-!
# Spellings of one destination

A destination can be spelled in many ways: with capital letters, with more slashes, with zeros in
front of its port, or with a colon, a question mark or a fragment that stand for nothing. Each of
these changes stays inside one part of the text, so none of them moves the place where another part
begins, and any number of them leaves the destination and its identity as they are.
-/

namespace LakeUpload

open Bytes

namespace Url

/-! ## Changes of a spelling -/

/-- An address literal with both of its brackets. -/
def IsBracketed (host : Bytes) : Prop :=
  ∃ inner, closeBracket ∉ inner ∧ host = openBracket :: inner ++ [closeBracket]

/-- A colon between these two is the one in front of the port. -/
def EndsHost (host text : Bytes) : Prop :=
  IsBracketed host ∨ host.head? ≠ some openBracket ∧ colon ∉ text

namespace Spelling

/-- One change that leaves the destination as it is. -/
inductive Respelled : Spelling → Spelling → Prop where
  | letters {s : Spelling} {scheme authority : Bytes} (hscheme : lower scheme = lower s.scheme)
      (hauthority : lower authority = lower s.authority) :
      Respelled s { s with scheme, authority }
  /-- One slash of the path becomes a run of them. -/
  | slashes {s : Spelling} {front back : Bytes} (count : Nat)
      (hpath : s.path = front ++ slash :: back) :
      Respelled s { s with path := front ++ List.replicate count slash ++ slash :: back }
  | lastSlash {s : Spelling} : Respelled s { s with path := s.path ++ [slash] }
  | zeros {s : Spelling} {host text : Bytes} (count : Nat)
      (hauthority : s.authority = host ++ colon :: text) (hends : EndsHost host text)
      (hport : text ≠ []) :
      Respelled s { s with authority := host ++ colon :: (List.replicate count 0x30 ++ text) }
  | lastColon {s : Spelling} (hhost : IsBracketed s.authority ∨ colon ∉ s.authority) :
      Respelled s { s with authority := s.authority ++ [colon] }
  | emptyQuery {s : Spelling} (hquestion : question ∉ s.text) (hhash : hash ∉ s.text) :
      Respelled s { s with query := some [] }
  | fragment {s : Spelling} {text : Bytes} (hhash : hash ∉ s.text)
      (hshown : ∀ b ∈ text, 0x20 < b ∧ b ≠ 0x7f) : Respelled s { s with fragment := some text }

end Spelling

/-- One change of a text, cut as it is when it is read: the scheme ends at the first colon. -/
def Respells (text other : Bytes) : Prop :=
  ∃ s t : Spelling, s.text = text ∧ t.text = other ∧ s.Cut ∧ colon ∉ s.scheme ∧ s.Respelled t

/-! ## Authorities by their parts -/

theorem IsBracketed.head? {host : Bytes} (h : IsBracketed host) (rest : Bytes) :
    (host ++ rest).head? = some openBracket := by
  obtain ⟨inner, -, rfl⟩ := h
  rfl

theorem head?_append_colon {host : Bytes} (hopen : host.head? ≠ some openBracket) (text : Bytes) :
    (host ++ colon :: text).head? ≠ some openBracket := by
  cases host with
  | nil =>
      exact nofun
  | cons b rest =>
      exact hopen

theorem EndsHost.not_isBracketed {host text : Bytes} (h : EndsHost host text) :
    ¬ IsBracketed (host ++ colon :: text) := by
  intro hbracketed
  rcases h with ⟨inner, hclosed, rfl⟩ | ⟨hopen, -⟩
  · obtain ⟨other, hother, heq⟩ := hbracketed
    have hcut := congrArg (cutFirst closeBracket) heq
    rw [List.append_assoc, List.singleton_append, cutFirst_closed hclosed,
      cutFirst_closed hother] at hcut
    cases hcut
  · have hhead := hbracketed.head? []
    rw [List.append_nil] at hhead
    exact head?_append_colon hopen text hhead

/-- There is only one colon that a port can stand behind. -/
theorem EndsHost.unique {host text host' text' : Bytes} (h : EndsHost host text)
    (h' : EndsHost host' text') (heq : host ++ colon :: text = host' ++ colon :: text') :
    host = host' ∧ text = text' := by
  rcases h with hbracketed | ⟨hopen, hlast⟩ <;> rcases h' with hbracketed' | ⟨hopen', hlast'⟩
  · obtain ⟨inner, hclosed, rfl⟩ := hbracketed
    obtain ⟨inner', hclosed', rfl⟩ := hbracketed'
    have hcut := congrArg (cutFirst closeBracket) heq
    rw [List.append_assoc, List.append_assoc, List.singleton_append, List.singleton_append,
      cutFirst_closed hclosed, cutFirst_closed hclosed'] at hcut
    cases hcut
    exact ⟨rfl, rfl⟩
  · exact absurd (heq ▸ hbracketed.head? _) (head?_append_colon hopen' text')
  · exact absurd (heq ▸ hbracketed'.head? _) (head?_append_colon hopen text)
  · have hcut := congrArg (cutLast colon) heq
    rw [cutLast_append hlast, cutLast_append hlast'] at hcut
    cases hcut
    exact ⟨rfl, rfl⟩

/-- An authority is a host, or a host and the text of a port behind its colon. -/
theorem authoritySpelling_iff {authority host : Bytes} {port : Option UInt16} :
    AuthoritySpelling authority host port ↔ HostForm host ∧
      (authority = host ∧ port = none ∧ (IsBracketed host ∨ colon ∉ host) ∨
        ∃ text, authority = host ++ colon :: text ∧ EndsHost host text ∧
          PortSpelling text port) := by
  constructor
  · intro h
    cases h with
    | bracketed hne hclosed =>
        exact ⟨.bracketed hne hclosed, .inl ⟨rfl, rfl, .inl ⟨_, hclosed, rfl⟩⟩⟩
    | bracketedPort hne hclosed hport =>
        exact ⟨.bracketed hne hclosed, .inr ⟨_, rfl, .inl ⟨_, hclosed, rfl⟩, hport⟩⟩
    | plain hne hopen hcolon =>
        exact ⟨.plain hne hopen, .inl ⟨rfl, rfl, .inr hcolon⟩⟩
    | plainPort hne hopen hlast hport =>
        exact ⟨.plain hne hopen, .inr ⟨_, rfl, .inr ⟨hopen, hlast⟩, hport⟩⟩
  · rintro ⟨hform, ⟨rfl, rfl, hwhole⟩ | ⟨text, rfl, hends, hport⟩⟩
    · cases hform with
      | bracketed hne hclosed =>
          exact .bracketed hne hclosed
      | plain hne hopen =>
          rcases hwhole with hbracketed | hcolon
          · have hhead := hbracketed.head? []
            rw [List.append_nil] at hhead
            exact absurd hhead hopen
          · exact .plain hne hopen hcolon
    · cases hform with
      | bracketed hne hclosed =>
          exact .bracketedPort hne hclosed hport
      | plain hne hopen =>
          rcases hends with hbracketed | ⟨-, hlast⟩
          · have hhead := hbracketed.head? []
            rw [List.append_nil] at hhead
            exact absurd hhead hopen
          · exact .plainPort hne hopen hlast hport

/-! ## Letters -/

theorem isLetter_of_isDigit {b : UInt8} (h : isDigit b = true) : isLetter b = false := by
  simp only [isDigit, isLetter, isUpper, isLower, Bool.and_eq_true, Bool.or_eq_false_iff,
    Bool.and_eq_false_iff, decide_eq_true_eq, decide_eq_false_iff_not, UInt8.le_iff_toNat_le,
    UInt8.reduceToNat] at h ⊢
  omega

theorem shown_lowerByte_iff (b : UInt8) :
    0x20 < lowerByte b ∧ lowerByte b ≠ 0x7f ↔ 0x20 < b ∧ b ≠ 0x7f := by
  cases hb : isUpper b with
  | false =>
      rw [lowerByte_of_not_isUpper hb]
  | true =>
      have hlower := isLower_lowerByte hb
      simp only [isUpper, isLower, Bool.and_eq_true, decide_eq_true_eq, ne_eq, ← UInt8.toNat_inj,
        UInt8.le_iff_toNat_le, UInt8.lt_iff_toNat_lt, UInt8.reduceToNat] at hb hlower ⊢
      omega

theorem PortSpelling.all_digits {text : Bytes} {port : Option UInt16}
    (h : PortSpelling text port) : text.all isDigit = true := by
  cases h with
  | absent =>
      rfl
  | value hnumeral hn =>
      exact hnumeral.eval.2.1

theorem PortSpelling.eq_of_lower_eq {text other : Bytes} {port : Option UInt16}
    (h : PortSpelling text port) (hother : lower other = lower text) : other = text := by
  refine Bytes.eq_of_lower_eq (fun b hb => ?_) hother
  exact isLetter_of_isDigit (List.all_eq_true.1 h.all_digits b hb)

theorem exists_bracketed_of_lower_eq {inner other : Bytes}
    (h : lower other = lower (openBracket :: inner ++ [closeBracket])) :
    ∃ inner', other = openBracket :: inner' ++ [closeBracket] ∧ lower inner' = lower inner := by
  obtain ⟨back, rfl, hback⟩ := exists_cons_of_lower_eq (by decide) h
  obtain ⟨inner', last, rfl, hinner, hlast⟩ := exists_append_of_lower_eq hback
  obtain rfl := Bytes.eq_of_lower_eq (List.forall_mem_singleton.2 (by decide)) hlast
  exact ⟨inner', rfl, hinner⟩

section

variable {host other : Bytes} (hother : Bytes.lower other = Bytes.lower host)
include hother

theorem not_mem_of_lower_eq {c : UInt8} (hc : isLetter c = false) (h : c ∉ host) : c ∉ other := by
  rwa [← mem_lower_iff hc, hother, mem_lower_iff hc]

theorem head?_ne_of_lower_eq {c : UInt8} (hc : isLetter c = false) (h : host.head? ≠ some c) :
    other.head? ≠ some c := by
  intro hhead
  obtain ⟨rest, rfl⟩ := List.head?_eq_some_iff.1 hhead
  obtain ⟨back, rfl, -⟩ := exists_cons_of_lower_eq hc hother.symm
  exact h rfl

theorem IsBracketed.of_lower_eq (h : IsBracketed host) : IsBracketed other := by
  obtain ⟨inner, hclosed, rfl⟩ := h
  obtain ⟨inner', rfl, hinner⟩ := exists_bracketed_of_lower_eq hother
  exact ⟨inner', not_mem_of_lower_eq hinner (by decide) hclosed, rfl⟩

theorem EndsHost.of_lower_eq {text : Bytes} (h : EndsHost host text) : EndsHost other text :=
  h.imp (·.of_lower_eq hother) (And.imp_left (head?_ne_of_lower_eq hother (by decide)))

theorem HostForm.of_lower_eq (h : HostForm host) : HostForm other := by
  cases h with
  | bracketed hne hclosed =>
      obtain ⟨inner', rfl, hinner⟩ := exists_bracketed_of_lower_eq hother
      refine .bracketed ?_ (not_mem_of_lower_eq hinner (by decide) hclosed)
      rintro rfl
      exact hne (Bytes.eq_of_lower_eq nofun hinner.symm)
  | plain hne hopen =>
      refine .plain ?_ (head?_ne_of_lower_eq hother (by decide) hopen)
      rintro rfl
      exact hne (Bytes.eq_of_lower_eq nofun hother.symm)

end

/-- Brackets, colon and port have no letters, so that only the host changes. -/
theorem AuthoritySpelling.exists_of_lower_eq {authority host other : Bytes}
    {port : Option UInt16} (h : AuthoritySpelling authority host port)
    (hother : lower other = lower authority) :
    ∃ host', AuthoritySpelling other host' port ∧ lower host' = lower host := by
  obtain ⟨hform, ⟨rfl, rfl, hwhole⟩ | ⟨text, rfl, hends, hport⟩⟩ := authoritySpelling_iff.1 h
  · refine ⟨other, authoritySpelling_iff.2 ⟨hform.of_lower_eq hother, .inl ⟨rfl, rfl, ?_⟩⟩, hother⟩
    exact hwhole.imp (·.of_lower_eq hother) (not_mem_of_lower_eq hother (by decide))
  · obtain ⟨host', back, rfl, hhost, hback⟩ := exists_append_of_lower_eq hother
    obtain ⟨text', rfl, htext⟩ := exists_cons_of_lower_eq (by decide) hback
    obtain rfl := hport.eq_of_lower_eq htext
    refine ⟨host', authoritySpelling_iff.2 ⟨hform.of_lower_eq hhost, .inr ⟨text', rfl, ?_⟩⟩, hhost⟩
    exact ⟨hends.of_lower_eq hhost, hport⟩

/-! ## Zeros and colons -/

theorem Numeral.zeros {text : Bytes} {n : Nat} (h : Numeral text n) (count : Nat) :
    Numeral (List.replicate count 0x30 ++ text) n := by
  obtain ⟨hne, hall, hvalue⟩ := h.eval
  have hzeros : (List.replicate count (0x30 : UInt8)).all isDigit = true := by
    rw [List.all_eq_true]
    intro b hb
    rw [List.eq_of_mem_replicate hb]
    rfl
  have hdigits : (List.replicate count 0x30 ++ text).all isDigit = true := by
    rw [List.all_append, hzeros, hall, Bool.and_self]
  have hnumeral := numeral_of_digits (List.append_ne_nil_of_right_ne_nil _ hne) hdigits
  rwa [List.foldl_append, Bytes.foldl_digitStep_zeros, hvalue] at hnumeral

theorem PortSpelling.zeros {text : Bytes} {port : Option UInt16} (h : PortSpelling text port)
    (hne : text ≠ []) (count : Nat) : PortSpelling (List.replicate count 0x30 ++ text) port := by
  cases h with
  | absent =>
      exact absurd rfl hne
  | value hnumeral hn =>
      exact .value (hnumeral.zeros count) hn

theorem EndsHost.zeros {host text : Bytes} (h : EndsHost host text) (count : Nat) :
    EndsHost host (List.replicate count 0x30 ++ text) := by
  refine h.imp_right (And.imp_right fun hlast hmem => ?_)
  rcases List.mem_append.1 hmem with hmem | hmem
  · exact absurd (List.eq_of_mem_replicate hmem) (by decide)
  · exact hlast hmem

theorem AuthoritySpelling.zeros {host text found : Bytes} {port : Option UInt16}
    (h : AuthoritySpelling (host ++ colon :: text) found port) (hends : EndsHost host text)
    (hne : text ≠ []) (count : Nat) :
    AuthoritySpelling (host ++ colon :: (List.replicate count 0x30 ++ text)) found port := by
  obtain ⟨hform, ⟨rfl, rfl, hwhole⟩ | ⟨text', heq, hends', hport⟩⟩ := authoritySpelling_iff.1 h
  · rcases hwhole with hbracketed | hcolon
    · exact absurd hbracketed hends.not_isBracketed
    · simp at hcolon
  · obtain ⟨rfl, rfl⟩ := hends.unique hends' heq
    refine authoritySpelling_iff.2 ⟨hform, .inr ⟨_, rfl, hends.zeros count, ?_⟩⟩
    exact hport.zeros hne count

theorem AuthoritySpelling.lastColon {authority host : Bytes} {port : Option UInt16}
    (h : AuthoritySpelling authority host port)
    (hhost : IsBracketed authority ∨ colon ∉ authority) :
    AuthoritySpelling (authority ++ [colon]) host port := by
  obtain ⟨hform, ⟨rfl, rfl, hwhole⟩ | ⟨text, rfl, hends, -⟩⟩ := authoritySpelling_iff.1 h
  · refine authoritySpelling_iff.2 ⟨hform, .inr ⟨[], rfl, ?_, .absent⟩⟩
    by_cases hbracketed : IsBracketed authority
    · exact .inl hbracketed
    · cases hform with
      | bracketed hne hclosed =>
          exact absurd ⟨_, hclosed, rfl⟩ hbracketed
      | plain hne hopen =>
          exact .inr ⟨hopen, by simp⟩
  · rcases hhost with hbracketed | hcolon
    · exact absurd hbracketed hends.not_isBracketed
    · simp at hcolon

/-! ## Slashes -/

theorem PathSpelling.of_segments_eq {path other : Bytes} {names : List Bytes}
    (h : PathSpelling path names) (hother : segments other = segments path) :
    PathSpelling other names := by
  rw [← h.segments_eq, ← hother]
  exact pathSpelling_segments other

theorem segments_slashes (front back : Bytes) (count : Nat) :
    segments (front ++ List.replicate count slash ++ slash :: back) =
      segments (front ++ slash :: back) := by
  induction count generalizing front with
  | zero =>
      rw [List.replicate_zero, List.append_nil]
  | succ count ih =>
      have hfirst : front ++ List.replicate (count + 1) slash ++ slash :: back =
          front ++ [slash] ++ List.replicate count slash ++ slash :: back := by
        simp [List.replicate_succ]
      rw [hfirst, ih, segments_append, segments_append, segments_append]
      simp [segments, split]

theorem segments_lastSlash (path : Bytes) : segments (path ++ [slash]) = segments path := by
  rw [segments_append]
  simp [segments, split]

/-! ## Changes keep the destination -/

theorem isNameByte_lowerByte_iff (b : UInt8) :
    isNameByte (lowerByte b) = true ↔ isNameByte b = true := by
  have hslash : lowerByte b = slash ↔ b = slash := lowerByte_eq_iff (by decide)
  have hquestion : lowerByte b = question ↔ b = question := lowerByte_eq_iff (by decide)
  have hhash : lowerByte b = hash ↔ b = hash := lowerByte_eq_iff (by decide)
  simp only [isNameByte_iff, isShown_iff, shown_lowerByte_iff, ne_eq, hslash, hquestion, hhash]

namespace Spelling

variable {s : Spelling} {url : Url}

theorem forall_mem_text_iff {p : UInt8 → Prop} :
    (∀ b ∈ s.text, p b) ↔ (∀ b ∈ s.scheme, p b) ∧ (p colon ∧ p slash) ∧
      (∀ b ∈ s.authority, p b) ∧ (∀ b ∈ s.path, p b) ∧ (∀ b ∈ optional question s.query, p b) ∧
        ∀ b ∈ optional hash s.fragment, p b := by
  simp [text, rest, or_imp, forall_and, and_assoc]

theorem Names.withScheme (h : s.Names url) {scheme : Bytes}
    (hscheme : lower scheme = lower s.scheme) : Names { s with scheme } url := by
  obtain ⟨hshown, hrest⟩ := forall_mem_text_iff.1 h.shown
  refine ⟨forall_mem_text_iff.2 ⟨?_, hrest⟩,
    ⟨h.cut.authority, h.cut.path, h.cut.start, h.cut.query⟩,
    hscheme.trans h.scheme, h.authority, h.path, h.query⟩
  rwa [← forall_mem_lower_iff shown_lowerByte_iff, hscheme,
    forall_mem_lower_iff shown_lowerByte_iff]

theorem Names.withAuthority (h : s.Names url) {authority : Bytes}
    (hbytes : ∀ b ∈ authority, isNameByte b = true)
    (hauthority : ∃ host, AuthoritySpelling authority host url.port ∧ url.host = lower host) :
    Names { s with authority } url := by
  obtain ⟨hscheme, hmarks, -, hrest⟩ := forall_mem_text_iff.1 h.shown
  refine ⟨forall_mem_text_iff.2 ⟨hscheme, hmarks, ?_, hrest⟩,
    ⟨fun b hb => (isNameByte_iff.1 (hbytes b hb)).2, h.cut.path, h.cut.start, h.cut.query⟩,
    h.scheme, hauthority, h.path, h.query⟩
  exact fun b hb => isShown_iff.1 (isNameByte_iff.1 (hbytes b hb)).1

theorem Names.withPath (h : s.Names url) {path : Bytes}
    (hbytes : ∀ b ∈ path, b = slash ∨ b ∈ s.path) (hstart : path.head? = some slash)
    (hsegments : segments path = segments s.path) : Names { s with path } url := by
  obtain ⟨hscheme, hmarks, hauthority, hpath, hrest⟩ := forall_mem_text_iff.1 h.shown
  obtain ⟨names, hnames, hparts⟩ := h.path
  refine ⟨forall_mem_text_iff.2 ⟨hscheme, hmarks, hauthority, ?_, hrest⟩,
    ⟨h.cut.authority, ?_, .inr hstart, h.cut.query⟩, h.scheme, h.authority,
    ⟨names, hnames.of_segments_eq hsegments, hparts⟩, h.query⟩
  · intro b hb
    rcases hbytes b hb with rfl | hb
    · decide
    · exact hpath b hb
  · intro b hb
    rcases hbytes b hb with rfl | hb
    · decide
    · exact h.cut.path b hb

theorem Names.letters (h : s.Names url) {scheme authority : Bytes}
    (hscheme : lower scheme = lower s.scheme) (hauthority : lower authority = lower s.authority) :
    Names { s with scheme, authority } url := by
  obtain ⟨host, hspelling, hhost⟩ := h.authority
  obtain ⟨host', hother, hlower⟩ := hspelling.exists_of_lower_eq hauthority
  refine (h.withScheme hscheme).withAuthority ?_ ⟨host', hother, by rw [hhost, hlower]⟩
  rw [← forall_mem_lower_iff isNameByte_lowerByte_iff, hauthority,
    forall_mem_lower_iff isNameByte_lowerByte_iff]
  exact fun b hb => h.isNameByte_of_authority hb

theorem Names.zeros (h : s.Names url) {host text : Bytes}
    (hauthority : s.authority = host ++ colon :: text) (hends : EndsHost host text)
    (hport : text ≠ []) (count : Nat) :
    Names { s with authority := host ++ colon :: (List.replicate count 0x30 ++ text) } url := by
  obtain ⟨found, hspelling, hfound⟩ := h.authority
  have hbytes : ∀ b ∈ s.authority, isNameByte b = true := fun b hb => h.isNameByte_of_authority hb
  rw [hauthority] at hspelling hbytes
  refine h.withAuthority ?_ ⟨found, hspelling.zeros hends hport count, hfound⟩
  intro b hb
  simp only [List.mem_append, List.mem_cons, List.mem_replicate] at hb hbytes
  rcases hb with hb | hb | ⟨-, rfl⟩ | hb
  · exact hbytes b (.inl hb)
  · exact hbytes b (.inr (.inl hb))
  · decide
  · exact hbytes b (.inr (.inr hb))

theorem Names.lastColon (h : s.Names url) (hhost : IsBracketed s.authority ∨ colon ∉ s.authority) :
    Names { s with authority := s.authority ++ [colon] } url := by
  obtain ⟨host, hspelling, hfound⟩ := h.authority
  refine h.withAuthority ?_ ⟨host, hspelling.lastColon hhost, hfound⟩
  intro b hb
  rcases List.mem_append.1 hb with hb | hb
  · exact h.isNameByte_of_authority hb
  · rw [List.mem_singleton.1 hb]
    decide

theorem Names.slashes (h : s.Names url) {front back : Bytes}
    (hpath : s.path = front ++ slash :: back) (count : Nat) :
    Names { s with path := front ++ List.replicate count slash ++ slash :: back } url := by
  refine h.withPath ?_ ?_ (by rw [segments_slashes, hpath])
  · intro b hb
    simp only [List.mem_append, List.mem_replicate, List.mem_cons] at hb
    rw [hpath, List.mem_append, List.mem_cons]
    tauto
  · have hstart := h.cut.start
    rw [hpath] at hstart
    cases front with
    | nil =>
        cases count <;> rfl
    | cons b rest =>
        simpa using hstart

theorem Names.lastSlash (h : s.Names url) : Names { s with path := s.path ++ [slash] } url := by
  refine h.withPath ?_ ?_ (segments_lastSlash s.path)
  · intro b hb
    rw [List.mem_append, List.mem_singleton] at hb
    exact hb.symm
  · rcases h.cut.start with hnil | hslash
    · rw [hnil]
      rfl
    · rw [List.head?_append, hslash]
      rfl

theorem query_eq_none (hquestion : question ∉ s.text) : s.query = none := by
  cases hsome : s.query with
  | none =>
      rfl
  | some query =>
      exact absurd (by simp [text, rest, hsome, optional]) hquestion

theorem Names.emptyQuery (h : s.Names url) (hquery : s.query = none) :
    Names { s with query := some [] } url := by
  obtain ⟨hscheme, hmarks, hauthority, hpath, -, hfragment⟩ := forall_mem_text_iff.1 h.shown
  have hempty : url.query = [] := by
    rw [h.query, hquery]
    rfl
  refine ⟨forall_mem_text_iff.2 ⟨hscheme, hmarks, hauthority, hpath, ?_, hfragment⟩,
    ⟨h.cut.authority, h.cut.path, h.cut.start, ?_⟩, h.scheme, h.authority, h.path, hempty⟩
  · intro b hb
    rw [List.mem_singleton.1 hb]
    decide
  · intro query hsome
    cases hsome
    decide

theorem Names.fragment (h : s.Names url) {fragment : Bytes}
    (hshown : ∀ b ∈ fragment, 0x20 < b ∧ b ≠ 0x7f) :
    Names { s with fragment := some fragment } url := by
  obtain ⟨hscheme, hmarks, hauthority, hpath, hquery, -⟩ := forall_mem_text_iff.1 h.shown
  refine ⟨forall_mem_text_iff.2 ⟨hscheme, hmarks, hauthority, hpath, hquery, ?_⟩,
    ⟨h.cut.authority, h.cut.path, h.cut.start, h.cut.query⟩, h.scheme, h.authority, h.path,
    h.query⟩
  exact List.forall_mem_cons.2 ⟨by decide, hshown⟩

theorem Names.respelled {t : Spelling} (h : s.Names url) (hstep : s.Respelled t) :
    t.Names url := by
  cases hstep with
  | letters hscheme hauthority =>
      exact h.letters hscheme hauthority
  | slashes count hpath =>
      exact h.slashes hpath count
  | lastSlash =>
      exact h.lastSlash
  | zeros count hauthority hends hport =>
      exact h.zeros hauthority hends hport count
  | lastColon hhost =>
      exact h.lastColon hhost
  | emptyQuery hquestion hhash =>
      exact h.emptyQuery (query_eq_none hquestion)
  | fragment hhash hshown =>
      exact h.fragment hshown

/-- A text that is read is cut at its first colon as its spelling is. -/
theorem Cut.names_of_colon (hcut : s.Cut) (hcolon : colon ∉ s.scheme)
    (h : read s.text = .ok url) : s.Names url := by
  obtain ⟨hshown, name, rest, htext, hname⟩ := parts_of_read h
  have hscheme := congrArg cutScheme htext
  rw [text, cutScheme_append hcolon, cutScheme_append (not_mem_scheme (by decide) hname)] at hscheme
  cases hscheme
  exact hcut.names_of_read hname hshown h

end Spelling

theorem parse_of_respells {text other : Bytes} {url : Url} (h : parse text = .ok url)
    (hother : Respells text other) : parse other = .ok url := by
  obtain ⟨s, t, rfl, rfl, hcut, hcolon, hstep⟩ := hother
  have hnames := hcut.names_of_colon hcolon (parse_eq_ok_iff.1 h)
  exact parse_eq_ok_iff_spelling.2 ⟨t, rfl, hnames.respelled hstep⟩

theorem resolve_of_parse {text : Bytes} {url : Url} (h : parse text = .ok url) (entity : Entity) :
    (Target.resolve true text entity).1 = .ok { kind := .ofEntity entity, url } := by
  simp [Target.resolve, h]

/-- Any number of changes leaves a text a destination. It is the same one, and what is resolved
from it and logged about it is the same too. -/
theorem parse_of_respellings {text other : Bytes} {url : Url} (h : parse text = .ok url)
    (hother : Relation.ReflTransGen Respells text other) :
    parse other = .ok url ∧ ∀ entity,
      (Target.resolve true other entity).1 = .ok { kind := .ofEntity entity, url } ∧
        ∀ hasService,
          Target.resolve hasService other entity = Target.resolve hasService text entity := by
  have hparse : parse other = .ok url := by
    induction hother with
    | refl =>
        exact h
    | tail _ hstep ih =>
        exact parse_of_respells ih hstep
  refine ⟨hparse, fun entity => ⟨resolve_of_parse hparse entity, fun hasService => ?_⟩⟩
  simp only [Target.resolve, h, hparse]

def addressUrl : Url := { scheme := .https, host := ascii "[::a]" }

/-- An address literal, its colon, a capital letter, a slash, a question mark and a fragment. -/
theorem address_respelled :
    parse (ascii "https://[::A]") = .ok addressUrl ∧
      Relation.ReflTransGen Respells (ascii "https://[::A]") (ascii "HTTPS://[::a]:/?#x") ∧
      parse (ascii "HTTPS://[::a]:/?#x") = .ok addressUrl ∧
      (Target.resolve true (ascii "HTTPS://[::a]:/?#x") .folder).1 =
        .ok { kind := .folder, url := addressUrl } := by
  have hparse : parse (ascii "https://[::A]") = .ok addressUrl := by rfl
  have hcolon : Respells (ascii "https://[::A]") (ascii "https://[::A]:") :=
    ⟨.ofRest (ascii "https") (ascii "[::A]"), _, by rfl, by rfl, Spelling.cut_ofRest _ _,
      by decide, .lastColon (.inl ⟨ascii "::A", by decide, by rfl⟩)⟩
  have hletters : Respells (ascii "https://[::A]:") (ascii "HTTPS://[::a]:") :=
    ⟨.ofRest (ascii "https") (ascii "[::A]:"), _, by rfl, by rfl, Spelling.cut_ofRest _ _,
      by decide, @Spelling.Respelled.letters _ (ascii "HTTPS") (ascii "[::a]:") (by rfl) (by rfl)⟩
  have hslash : Respells (ascii "HTTPS://[::a]:") (ascii "HTTPS://[::a]:/") :=
    ⟨.ofRest (ascii "HTTPS") (ascii "[::a]:"), _, by rfl, by rfl, Spelling.cut_ofRest _ _,
      by decide, .lastSlash⟩
  have hquestion : Respells (ascii "HTTPS://[::a]:/") (ascii "HTTPS://[::a]:/?") :=
    ⟨.ofRest (ascii "HTTPS") (ascii "[::a]:/"), _, by rfl, by rfl, Spelling.cut_ofRest _ _,
      by decide, .emptyQuery (by decide) (by decide)⟩
  have hfragment : Respells (ascii "HTTPS://[::a]:/?") (ascii "HTTPS://[::a]:/?#x") :=
    ⟨.ofRest (ascii "HTTPS") (ascii "[::a]:/?"), _, by rfl, by rfl, Spelling.cut_ofRest _ _,
      by decide, @Spelling.Respelled.fragment _ (ascii "x") (by decide)
        (List.forall_mem_singleton.2 (by decide))⟩
  have hall := ((((Relation.ReflTransGen.single hcolon).tail hletters).tail hslash).tail
    hquestion).tail hfragment
  have hother := parse_of_respellings hparse hall
  exact ⟨hparse, hall, hother.1, (hother.2 .folder).1⟩

end Url

end LakeUpload
