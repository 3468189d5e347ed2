import LakeUpload.Destination.Parser
import Mathlib.Data.List.Basic

/-!
# The grammar of destinations

A text spells a destination with a scheme, an authority, a path and, where they are there, a query
and a fragment. The grammar says what each of these parts may look like and what it stands for.
Reading a text finds the destination that it spells, and refuses every text that spells none.
-/

namespace LakeUpload

open Bytes

namespace Url

/-! ## The parts of a spelling -/

/-- A text of digits, with any number of zeros in front, and its value. -/
inductive Numeral : Bytes → Nat → Prop where
  | digit {d : Nat} (hd : d < 10) : Numeral [UInt8.ofNat (48 + d)] d
  | more {text : Bytes} {n d : Nat} (h : Numeral text n) (hd : d < 10) :
      Numeral (text ++ [UInt8.ofNat (48 + d)]) (10 * n + d)

inductive PortSpelling : Bytes → Option UInt16 → Prop where
  | absent : PortSpelling [] none
  | value {text : Bytes} {n : Nat} (h : Numeral text n) (hn : n ≤ 65535) :
      PortSpelling text (some (UInt16.ofNat n))

/-- An authority, with the host and the port that it is made of. -/
inductive AuthoritySpelling : Bytes → Bytes → Option UInt16 → Prop where
  | bracketed {inner : Bytes} (hne : inner ≠ []) (hclosed : closeBracket ∉ inner) :
      AuthoritySpelling (openBracket :: inner ++ [closeBracket])
        (openBracket :: inner ++ [closeBracket]) none
  | bracketedPort {inner text : Bytes} {port : Option UInt16} (hne : inner ≠ [])
      (hclosed : closeBracket ∉ inner) (hport : PortSpelling text port) :
      AuthoritySpelling (openBracket :: inner ++ [closeBracket] ++ colon :: text)
        (openBracket :: inner ++ [closeBracket]) port
  | plain {host : Bytes} (hne : host ≠ []) (hopen : host.head? ≠ some openBracket)
      (hcolon : colon ∉ host) : AuthoritySpelling host host none
  /-- The colon of the port is the last one; the host may hold others. -/
  | plainPort {host text : Bytes} {port : Option UInt16} (hne : host ≠ [])
      (hopen : host.head? ≠ some openBracket) (hlast : colon ∉ text)
      (hport : PortSpelling text port) : AuthoritySpelling (host ++ colon :: text) host port

/-- A path with the names that stand between its slashes, empty ones left out. -/
inductive PathSpelling : Bytes → List Bytes → Prop where
  | empty : PathSpelling [] []
  | separator {path : Bytes} {names : List Bytes} (h : PathSpelling path names) :
      PathSpelling (slash :: path) names
  | last {name : Bytes} (hne : name ≠ []) (hslash : slash ∉ name) : PathSpelling name [name]
  | name {name path : Bytes} {names : List Bytes} (hne : name ≠ []) (hslash : slash ∉ name)
      (h : PathSpelling path names) : PathSpelling (name ++ slash :: path) (name :: names)

/-- What may follow a part, with the byte in front that ends that part. -/
def optional (c : UInt8) : Option Bytes → Bytes
  | none => []
  | some text => c :: text

structure Spelling where
  scheme : Bytes
  authority : Bytes
  path : Bytes
  query : Option Bytes
  fragment : Option Bytes

namespace Spelling

/-- What stands behind the scheme. -/
def rest (spelling : Spelling) : Bytes :=
  spelling.authority ++ spelling.path ++ optional question spelling.query ++
    optional hash spelling.fragment

def text (spelling : Spelling) : Bytes :=
  spelling.scheme ++ colon :: slash :: slash :: spelling.rest

/-- Each part ends before the first byte that can end it. -/
structure Cut (spelling : Spelling) : Prop where
  authority : ∀ b ∈ spelling.authority, b ≠ slash ∧ b ≠ question ∧ b ≠ hash
  path : ∀ b ∈ spelling.path, b ≠ question ∧ b ≠ hash
  start : spelling.path = [] ∨ spelling.path.head? = some slash
  query : ∀ query, spelling.query = some query → hash ∉ query

/-- The destination that a spelling stands for. -/
structure Names (spelling : Spelling) (url : Url) : Prop where
  shown : ∀ b ∈ spelling.text, 0x20 < b ∧ b ≠ 0x7f
  cut : spelling.Cut
  scheme : lower spelling.scheme = url.scheme.text
  authority : ∃ host, AuthoritySpelling spelling.authority host url.port ∧ url.host = lower host
  path : ∃ names, PathSpelling spelling.path names ∧ url.filesystem = names.headD [] ∧
    url.path = [slash].intercalate names.tail
  query : url.query = spelling.query.getD []

end Spelling

/-! ## Ports -/

theorem Numeral.append {text more : Bytes} {n : Nat} (h : Numeral text n)
    (hmore : more.all isDigit = true) : Numeral (text ++ more) (more.foldl digitStep n) := by
  induction more generalizing text n with
  | nil =>
      simpa using h
  | cons b rest ih =>
      obtain ⟨hb, hrest⟩ := Bool.and_eq_true_iff.1 hmore
      obtain ⟨d, hd, rfl⟩ := exists_digit_of_isDigit hb
      have hnext := ih (h.more hd) hrest
      rw [List.append_assoc, List.singleton_append] at hnext
      rw [List.foldl_cons, digitStep_ofNat n hd]
      exact hnext

theorem Numeral.eval {text : Bytes} {n : Nat} (h : Numeral text n) :
    text ≠ [] ∧ text.all isDigit = true ∧ text.foldl digitStep 0 = n := by
  induction h with
  | digit hd =>
      refine ⟨List.cons_ne_nil _ _, ?_, ?_⟩
      · rw [List.all_cons, isDigit_ofNat hd, List.all_nil, Bool.and_self]
      · rw [List.foldl_cons, List.foldl_nil, digitStep_ofNat 0 hd]
        omega
  | more h hd ih =>
      obtain ⟨-, hall, hfold⟩ := ih
      refine ⟨List.append_ne_nil_of_right_ne_nil _ (List.cons_ne_nil _ _), ?_, ?_⟩
      · rw [List.all_append, hall, List.all_cons, isDigit_ofNat hd, List.all_nil,
          Bool.and_self, Bool.and_self]
      · rw [List.foldl_append, hfold, List.foldl_cons, List.foldl_nil, digitStep_ofNat _ hd]

theorem numeral_of_digits {text : Bytes} (hne : text ≠ []) (hall : text.all isDigit = true) :
    Numeral text (text.foldl digitStep 0) := by
  cases text with
  | nil =>
      exact absurd rfl hne
  | cons b rest =>
      obtain ⟨hb, hrest⟩ := Bool.and_eq_true_iff.1 hall
      obtain ⟨d, hd, rfl⟩ := exists_digit_of_isDigit hb
      have hfirst : Numeral [UInt8.ofNat (48 + d)] d := .digit hd
      have hstep : digitStep 0 (UInt8.ofNat (48 + d)) = d := by
        rw [digitStep_ofNat 0 hd]
        omega
      rw [List.foldl_cons, hstep]
      exact hfirst.append hrest

theorem ofDigits?_eq_some_iff {text : Bytes} {n : Nat} :
    ofDigits? text = some n ↔ Numeral text n := by
  constructor
  · intro h
    unfold ofDigits? at h
    split at h
    · rename_i hdigits
      cases h
      exact numeral_of_digits hdigits.1 hdigits.2
    · cases h
  · intro h
    obtain ⟨hne, hall, hvalue⟩ := h.eval
    rw [ofDigits?, if_pos ⟨hne, hall⟩, hvalue]

theorem readPort_eq_ok_iff {text : Bytes} {port : Option UInt16} :
    readPort text = .ok port ↔ PortSpelling text port := by
  constructor
  · intro h
    unfold readPort at h
    split at h
    · rename_i hnil
      cases h
      rw [hnil]
      exact .absent
    · split at h
      · rename_i value hvalue
        split at h
        · cases h
          exact .value (ofDigits?_eq_some_iff.1 hvalue) (by omega)
        · cases h
      · cases h
  · intro h
    cases h with
    | absent =>
        rfl
    | @value _ n hnumeral hn =>
        have hdigits := ofDigits?_eq_some_iff.2 hnumeral
        have hne : text ≠ [] := by
          rintro rfl
          cases hdigits
        have hlt : n < 65536 := by omega
        simp [readPort, hne, hdigits, hlt]

/-! ## Authorities -/

/-- A reading that goes on with the port succeeds where the port is one. -/
theorem map_readPort_eq_ok_iff {text host : Bytes} {found : Bytes × Option UInt16} :
    (readPort text).map (fun port => (host, port)) = .ok found ↔
      host = found.1 ∧ PortSpelling text found.2 := by
  cases hread : readPort text with
  | error flaw =>
      have hnone : ¬ PortSpelling text found.2 := by
        intro hport
        rw [readPort_eq_ok_iff.2 hport] at hread
        cases hread
      simp [Except.map, hnone]
  | ok port =>
      have hport : PortSpelling text found.2 ↔ port = found.2 := by
        rw [← readPort_eq_ok_iff, hread, Except.ok.injEq]
      rw [hport]
      simp [Except.map, Prod.ext_iff]

section

variable {inner : Bytes} (hne : inner ≠ []) (hclosed : closeBracket ∉ inner)
include hclosed

theorem cutFirst_closed (after : Bytes) :
    cutFirst closeBracket (openBracket :: inner ++ closeBracket :: after) =
      (openBracket :: inner, some after) := by
  apply cutFirst_append
  rw [List.mem_cons, not_or]
  exact ⟨by decide, hclosed⟩

include hne

theorem readBracketed_closed :
    readBracketed (openBracket :: inner ++ [closeBracket]) =
      .ok (openBracket :: inner ++ [closeBracket], none) := by
  have hlength : (openBracket :: inner).length ≠ 1 := by simpa using hne
  simp only [readBracketed, cutFirst_closed hclosed [], hlength, if_false]

theorem readBracketed_closed_append (b : UInt8) (text : Bytes) :
    readBracketed (openBracket :: inner ++ closeBracket :: b :: text) =
      if b = colon then
        (readPort text).map fun port => (openBracket :: inner ++ [closeBracket], port)
      else .error .afterHost := by
  have hlength : (openBracket :: inner).length ≠ 1 := by simpa using hne
  simp only [readBracketed, cutFirst_closed hclosed (b :: text), hlength, if_false]

end

/-- The text between the brackets of an authority that is read. -/
theorem closed_of_readBracketed {rest host : Bytes} {port : Option UInt16}
    (h : readBracketed (openBracket :: rest) = .ok (host, port)) :
    ∃ inner after, rest = inner ++ closeBracket :: after ∧ inner ≠ [] ∧ closeBracket ∉ inner := by
  cases hcut : (cutFirst closeBracket rest).2 with
  | none =>
      have hopen : cutFirst closeBracket (openBracket :: rest) =
          (openBracket :: (cutFirst closeBracket rest).1, none) := by
        rw [cutFirst, if_neg (by decide), hcut]
      rw [readBracketed, hopen] at h
      cases h
  | some after =>
      refine ⟨(cutFirst closeBracket rest).1, after, append_of_cutFirst hcut, ?_,
        cutFirst_fst_not_mem closeBracket rest⟩
      intro hnil
      have hopen : cutFirst closeBracket (openBracket :: rest) = ([openBracket], some after) := by
        rw [cutFirst, if_neg (by decide), hcut, hnil]
      rw [readBracketed, hopen] at h
      cases h

theorem authoritySpelling_of_readBracketed {rest host : Bytes} {port : Option UInt16}
    (h : readBracketed (openBracket :: rest) = .ok (host, port)) :
    AuthoritySpelling (openBracket :: rest) host port := by
  obtain ⟨inner, after, rfl, hne, hclosed⟩ := closed_of_readBracketed h
  rw [← List.cons_append] at h ⊢
  cases after with
  | nil =>
      rw [readBracketed_closed hne hclosed] at h
      cases h
      exact .bracketed hne hclosed
  | cons b text =>
      rw [readBracketed_closed_append hne hclosed] at h
      split at h
      · rename_i hb
        obtain ⟨rfl, hport⟩ := map_readPort_eq_ok_iff.1 h
        rw [hb]
        simpa using AuthoritySpelling.bracketedPort hne hclosed hport
      · cases h

theorem authoritySpelling_of_readPlain {authority host : Bytes} {port : Option UInt16}
    (hopen : authority.head? ≠ some openBracket) (h : readPlain authority = .ok (host, port)) :
    AuthoritySpelling authority host port := by
  unfold readPlain at h
  split at h
  · rename_i hcut
    split at h
    · cases h
    · rename_i hne
      cases h
      exact .plain hne hopen (cutLast_eq_none_iff.1 hcut)
  · rename_i before text hcut
    obtain ⟨rfl, hlast⟩ := append_of_cutLast hcut
    split at h
    · cases h
    · rename_i found hport
      split at h
      · cases h
      · rename_i hne
        cases h
        rw [List.head?_append_of_ne_nil _ hne] at hopen
        exact .plainPort hne hopen hlast (readPort_eq_ok_iff.1 hport)

theorem readAuthority_eq_ok_iff {authority host : Bytes} {port : Option UInt16} :
    readAuthority authority = .ok (host, port) ↔ AuthoritySpelling authority host port := by
  constructor
  · intro h
    unfold readAuthority at h
    split at h
    · rename_i hopen
      obtain ⟨rest, rfl⟩ := List.head?_eq_some_iff.1 hopen
      exact authoritySpelling_of_readBracketed h
    · rename_i hopen
      exact authoritySpelling_of_readPlain hopen h
  · intro h
    cases h with
    | bracketed hne hclosed =>
        rw [readAuthority, if_pos (by simp), readBracketed_closed hne hclosed]
    | bracketedPort hne hclosed hport =>
        rw [readAuthority, if_pos (by simp), List.append_assoc, List.singleton_append,
          readBracketed_closed_append hne hclosed, if_pos rfl]
        exact map_readPort_eq_ok_iff.2 ⟨rfl, hport⟩
    | plain hne hopen hcolon =>
        rw [readAuthority, if_neg hopen]
        simp [readPlain, cutLast_eq_none_iff.2 hcolon, hne]
    | plainPort hne hopen hlast hport =>
        rw [readAuthority, if_neg (by rwa [List.head?_append_of_ne_nil _ hne])]
        simp [readPlain, cutLast_append hlast, readPort_eq_ok_iff.2 hport, hne]

/-! ## Paths -/

theorem join_eq_intercalate (c : UInt8) (pieces : List Bytes) :
    join c pieces = [c].intercalate pieces := by
  induction pieces with
  | nil =>
      rfl
  | cons piece rest ih =>
      cases rest with
      | nil =>
          simp [join]
      | cons next others =>
          show piece ++ c :: join c (next :: others) = _
          rw [ih, List.intercalate_cons_cons, List.append_assoc, List.singleton_append]

theorem PathSpelling.segments_eq {path : Bytes} {names : List Bytes} (h : PathSpelling path names) :
    segments path = names := by
  induction h with
  | empty =>
      rfl
  | separator h ih =>
      rw [segments, split, if_pos rfl, List.filter_cons_of_neg (by simp)]
      exact ih
  | last hne hslash =>
      rw [segments, split_of_not_mem hslash, List.filter_cons_of_pos (by simpa using hne),
        List.filter_nil]
  | name hne hslash h ih =>
      rw [segments, split_append hslash, List.filter_cons_of_pos (by simpa using hne)]
      exact congrArg _ ih

theorem pathSpelling_join {pieces : List Bytes} (hslash : ∀ piece ∈ pieces, slash ∉ piece) :
    PathSpelling (join slash pieces) (pieces.filter (· ≠ [])) := by
  induction pieces with
  | nil =>
      exact .empty
  | cons piece rest ih =>
      have hpiece := hslash piece List.mem_cons_self
      have hrest := ih fun other hother => hslash other (List.mem_cons_of_mem piece hother)
      by_cases hnil : piece = []
      · rw [List.filter_cons_of_neg (by simpa using hnil), hnil]
        cases rest with
        | nil =>
            exact .empty
        | cons next others =>
            exact hrest.separator
      · rw [List.filter_cons_of_pos (by simpa using hnil)]
        cases rest with
        | nil =>
            exact .last hnil hpiece
        | cons next others =>
            exact .name hnil hpiece hrest

theorem pathSpelling_segments (path : Bytes) : PathSpelling path (segments path) := by
  have hjoin := pathSpelling_join fun piece hpiece => (mem_split (c := slash) (s := path) hpiece).1
  rwa [join_split] at hjoin

/-! ## Cutting a spelling into its parts -/

theorem append_optional_cutFirst (c : UInt8) (s : Bytes) :
    (cutFirst c s).1 ++ optional c (cutFirst c s).2 = s := by
  cases hcut : (cutFirst c s).2 with
  | none =>
      rw [optional, List.append_nil, cutFirst_fst_of_none hcut]
  | some after =>
      rw [optional, ← append_of_cutFirst hcut]

theorem cutFirst_append_optional {c : UInt8} {s : Bytes} (hc : c ∉ s) (after : Option Bytes) :
    cutFirst c (s ++ optional c after) = (s, after) := by
  cases after with
  | none =>
      rw [optional, List.append_nil, cutFirst_of_not_mem hc]
  | some after =>
      exact cutFirst_append hc after

/-- What ends an authority is the slash that a path starts with. -/
theorem takeWhile_append_path {authority path : Bytes} (hauthority : slash ∉ authority)
    (hslash : path = [] ∨ path.head? = some slash) :
    (authority ++ path).takeWhile (· != slash) = authority ∧
      (authority ++ path).dropWhile (· != slash) = path := by
  have hinside : ∀ b ∈ authority, (b != slash) = true := by
    intro b hb
    have hne : b ≠ slash := fun heq => hauthority (heq ▸ hb)
    simpa using hne
  rw [List.takeWhile_append_of_pos hinside, List.dropWhile_append_of_pos hinside]
  cases path with
  | nil =>
      simp
  | cons b rest =>
      have hb : b = slash := by simpa using hslash
      simp [hb]

namespace Spelling

theorem Cut.ofText_rest {spelling : Spelling} (h : spelling.Cut) :
    Pieces.ofText spelling.rest =
      ⟨spelling.authority, spelling.path, spelling.query.getD []⟩ := by
  have hquestion : question ∉ spelling.authority ++ spelling.path := by
    intro hmem
    rcases List.mem_append.1 hmem with hmem | hmem
    · exact (h.authority _ hmem).2.1 rfl
    · exact (h.path _ hmem).1 rfl
  have hhash : hash ∉ spelling.authority ++ spelling.path ++ optional question spelling.query := by
    intro hmem
    rcases List.mem_append.1 hmem with hmem | hmem
    · rcases List.mem_append.1 hmem with hmem | hmem
      · exact (h.authority _ hmem).2.2 rfl
      · exact (h.path _ hmem).2 rfl
    · cases hquery : spelling.query with
      | none =>
          rw [hquery] at hmem
          cases hmem
      | some query =>
          rw [hquery] at hmem
          rcases List.mem_cons.1 hmem with heq | hmem
          · exact absurd heq (by decide)
          · exact h.query query hquery hmem
  have hslash : slash ∉ spelling.authority := fun hmem => (h.authority _ hmem).1 rfl
  obtain ⟨htake, hdrop⟩ := takeWhile_append_path hslash h.start
  simp only [Pieces.ofText, rest, cutFirst_append_optional hhash,
    cutFirst_append_optional hquestion, htake, hdrop]

/-- The spelling that a text is cut into. -/
def ofRest (scheme rest : Bytes) : Spelling :=
  let shown := (cutFirst hash rest).1
  let front := (cutFirst question shown).1
  { scheme
    authority := front.takeWhile (· != slash)
    path := front.dropWhile (· != slash)
    query := (cutFirst question shown).2
    fragment := (cutFirst hash rest).2 }

theorem rest_ofRest (scheme text : Bytes) : (ofRest scheme text).rest = text := by
  simp only [rest, ofRest, List.takeWhile_append_dropWhile, append_optional_cutFirst]

theorem cut_ofRest (scheme text : Bytes) : (ofRest scheme text).Cut := by
  have hhash := cutFirst_fst_not_mem hash text
  have hquestion := cutFirst_fst_not_mem question (cutFirst hash text).1
  have hfront := cutFirst_fst_subset question (cutFirst hash text).1
  refine ⟨?_, ?_, ?_, ?_⟩
  · intro b hb
    have hslash := List.all_eq_true.1 List.all_takeWhile b hb
    have hmem := (List.takeWhile_prefix _).subset hb
    refine ⟨by simpa using hslash, ?_, ?_⟩
    · rintro rfl
      exact hquestion hmem
    · rintro rfl
      exact hhash (hfront hmem)
  · intro b hb
    have hmem := (List.dropWhile_suffix _).subset hb
    constructor
    · rintro rfl
      exact hquestion hmem
    · rintro rfl
      exact hhash (hfront hmem)
  · have hhead := List.head?_dropWhile_not (· != slash)
      (cutFirst question (cutFirst hash text).1).1
    cases hpath : (ofRest scheme text).path with
    | nil =>
        exact .inl rfl
    | cons b rest =>
        rw [show ((cutFirst question (cutFirst hash text).1).1.dropWhile (· != slash)) = b :: rest
          from hpath] at hhead
        right
        simpa using hhead
  · intro query hquery hmem
    apply hhash
    rw [append_of_cutFirst (c := question) hquery]
    exact List.mem_append_right _ (List.mem_cons_of_mem _ hmem)

end Spelling

/-! ## Whole destinations -/

theorem append_of_cutScheme {text name rest : Bytes} (h : cutScheme text = some (name, rest)) :
    text = name ++ colon :: slash :: slash :: rest := by
  induction text generalizing name with
  | nil =>
      cases h
  | cons b tail ih =>
      unfold cutScheme at h
      split at h
      · rename_i hcut
        cases h
        obtain ⟨rfl, htake⟩ := hcut
        rw [List.nil_append, ← List.take_append_drop 2 tail, htake]
        simp
      · obtain ⟨⟨front, back⟩, hparts, heq⟩ := Option.map_eq_some_iff.1 h
        cases heq
        rw [List.cons_append, ← ih hparts]

/-- The name of a scheme has letters only. -/
theorem not_mem_scheme {b : UInt8} (hletter : isLetter b = false) {name : Bytes} {scheme : Scheme}
    (h : lower name = scheme.text) : b ∉ name := by
  have hall : scheme.text.all isLetter = true := by
    cases scheme <;> decide
  rw [← mem_lower_iff hletter, h]
  intro hmem
  rw [List.all_eq_true.1 hall b hmem] at hletter
  cases hletter

theorem blank_or_control_eq_false_iff {b : UInt8} :
    (isBlank b || isControl b) = false ↔ 0x20 < b ∧ b ≠ 0x7f := by
  simp only [isBlank, isControl, Bool.or_eq_false_iff, Bool.and_eq_false_iff,
    decide_eq_false_iff_not, beq_eq_false_iff_ne, ne_eq, ← UInt8.toNat_inj, UInt8.le_iff_toNat_le,
    UInt8.lt_iff_toNat_lt, UInt8.reduceToNat]
  omega

theorem ofPieces_eq_ok_iff {scheme : Scheme} {pieces : Pieces} {url : Url} :
    ofPieces scheme pieces = .ok url ↔
      scheme = url.scheme ∧
        (∃ host, AuthoritySpelling pieces.authority host url.port ∧ url.host = lower host) ∧
        (∃ names, PathSpelling pieces.path names ∧ url.filesystem = names.headD [] ∧
          url.path = [slash].intercalate names.tail) ∧
        url.query = pieces.query := by
  constructor
  · intro h
    unfold ofPieces at h
    split at h
    · cases h
    · rename_i host port hauthority
      cases h
      refine ⟨rfl, ⟨host, readAuthority_eq_ok_iff.1 hauthority, rfl⟩, ?_, rfl⟩
      exact ⟨segments pieces.path, pathSpelling_segments pieces.path, rfl,
        join_eq_intercalate slash _⟩
  · rintro ⟨rfl, ⟨host, hauthority, hhost⟩, ⟨names, hpath, hfilesystem, hrest⟩, hquery⟩
    rw [ofPieces, readAuthority_eq_ok_iff.2 hauthority]
    simp only [hpath.segments_eq, join_eq_intercalate, ← hhost, ← hfilesystem, ← hrest, ← hquery]

/-- Reading a spelling comes down to its authority. -/
theorem Spelling.Cut.read_text {spelling : Spelling} (hcut : spelling.Cut) {scheme : Scheme}
    (hscheme : lower spelling.scheme = scheme.text)
    (hshown : ∀ b ∈ spelling.text, 0x20 < b ∧ b ≠ 0x7f) :
    read spelling.text =
      ofPieces scheme ⟨spelling.authority, spelling.path, spelling.query.getD []⟩ := by
  have hclean : (spelling.text.any fun b => isBlank b || isControl b) = false := by
    rw [List.any_eq_false]
    intro b hb
    simpa using blank_or_control_eq_false_iff.2 (hshown b hb)
  have hcolon : colon ∉ spelling.scheme := by
    rw [← mem_lower_iff (by decide), hscheme]
    cases scheme <;> decide
  have hname : spelling.scheme ≠ [] := by
    intro hnil
    rw [hnil] at hscheme
    cases scheme <;> cases hscheme
  rw [read, if_neg (by simp [text]), hclean, text, cutScheme_append hcolon]
  simp only [Bool.false_eq_true, if_false, hname, hscheme, Scheme.ofText?_text, hcut.ofText_rest]

theorem parts_of_read {text : Bytes} {url : Url} (h : read text = .ok url) :
    (∀ b ∈ text, 0x20 < b ∧ b ≠ 0x7f) ∧
      ∃ name rest, text = name ++ colon :: slash :: slash :: rest ∧
        lower name = url.scheme.text := by
  unfold read at h
  split at h
  · cases h
  · split at h
    · cases h
    · rename_i hclean
      split at h
      · cases h
      · rename_i name rest hcut
        split at h
        · cases h
        · split at h
          · cases h
          · rename_i scheme hscheme
            have hsame : scheme = url.scheme := (ofPieces_eq_ok_iff.1 h).1
            refine ⟨?_, name, rest, append_of_cutScheme hcut, ?_⟩
            · rw [Bool.not_eq_true, List.any_eq_false] at hclean
              intro b hb
              exact blank_or_control_eq_false_iff.1 (by simpa using hclean b hb)
            · rw [← hsame, Scheme.text_of_ofText? hscheme]

theorem Spelling.Cut.names_of_read {spelling : Spelling} (hcut : spelling.Cut) {url : Url}
    (hscheme : lower spelling.scheme = url.scheme.text)
    (hshown : ∀ b ∈ spelling.text, 0x20 < b ∧ b ≠ 0x7f) (h : read spelling.text = .ok url) :
    spelling.Names url := by
  rw [hcut.read_text hscheme hshown] at h
  obtain ⟨-, hauthority, hpath, hquery⟩ := ofPieces_eq_ok_iff.1 h
  exact ⟨hshown, hcut, hscheme, hauthority, hpath, hquery⟩

theorem read_eq_ok_iff_spelling {text : Bytes} {url : Url} :
    read text = .ok url ↔ ∃ spelling : Spelling, spelling.text = text ∧ spelling.Names url := by
  constructor
  · intro h
    obtain ⟨hshown, name, rest, rfl, hscheme⟩ := parts_of_read h
    have htext : (Spelling.ofRest name rest).text = name ++ colon :: slash :: slash :: rest := by
      rw [Spelling.text, Spelling.rest_ofRest]
      rfl
    rw [← htext] at h hshown
    exact ⟨_, htext, (Spelling.cut_ofRest name rest).names_of_read hscheme hshown h⟩
  · rintro ⟨spelling, rfl, h⟩
    rw [h.cut.read_text h.scheme h.shown]
    exact ofPieces_eq_ok_iff.2 ⟨rfl, h.authority, h.path, h.query⟩

/-- The texts that are read are those that the grammar gives a destination, and they are read as
that destination. -/
theorem parse_eq_ok_iff_spelling {text : Bytes} {url : Url} :
    parse text = .ok url ↔ ∃ spelling : Spelling, spelling.text = text ∧ spelling.Names url :=
  parse_eq_ok_iff.trans read_eq_ok_iff_spelling

end Url

end LakeUpload
