import LakeUpload.Redaction.Path
import Mathlib.Computability.Language

/-!
# Texts that are paths

`pathTexts` is the language of all paths, put together as a pattern is: from classes of bytes, by
one text behind another, by alternatives and by repetition. The scanner that goes over a text byte
by byte finds the longest path that starts it.
-/

namespace LakeUpload

open Bytes (ascii slash backslash colon dot)
open scoped Computability

namespace Redaction

/-! ## The pattern -/

/-- The texts of one byte, which is one of these. -/
def oneOf (bytes : Bytes) : Language UInt8 := {s | ∃ b ∈ bytes, s = [b]}

/-- One text of the language or more of them, one behind another. -/
def many (l : Language UInt8) : Language UInt8 := l * l∗

def letters : Bytes := ascii "ABCDEFGHIJKLMNOPQRSTUVWXYZabcdefghijklmnopqrstuvwxyz"

def nameBytes : Bytes := letters ++ ascii "0123456789._-"

def names : Language UInt8 := many (oneOf nameBytes)

/-- Names, each with a backslash behind it or none. -/
def pieces : Language UInt8 := names * (1 + oneOf [backslash])

/-- Names, each with a slash in front. -/
def slashedPaths : Language UInt8 := many (oneOf [slash] * names)

/-- A letter, a colon, a backslash and pieces behind them. -/
def drivePaths : Language UInt8 :=
  oneOf letters * (oneOf [colon] * (oneOf [backslash] * many pieces))

def pathTexts : Language UInt8 := slashedPaths + drivePaths

/-! ## Classes of bytes -/

theorem mem_iff_toNat_mem (b : UInt8) (bytes : Bytes) :
    b ∈ bytes ↔ b.toNat ∈ bytes.map UInt8.toNat :=
  (List.mem_map_of_injective fun _ _ => UInt8.toNat_inj.1).symm

theorem mem_letters_iff (b : UInt8) : b ∈ letters ↔ Bytes.isLetter b = true := by
  have hcodes : letters.map UInt8.toNat = List.range' 0x41 26 ++ List.range' 0x61 26 := by
    decide
  rw [mem_iff_toNat_mem, hcodes]
  simp only [List.mem_append, List.mem_range'_1, Bytes.isLetter, Bytes.isUpper, Bytes.isLower,
    Bool.or_eq_true, Bool.and_eq_true, decide_eq_true_eq, UInt8.le_iff_toNat_le,
    UInt8.reduceToNat]
  omega

theorem mem_nameBytes_iff (b : UInt8) : b ∈ nameBytes ↔ isNameByte b = true := by
  have hothers : (ascii "0123456789._-").map UInt8.toNat =
      List.range' 0x30 10 ++ [0x2e, 0x5f, 0x2d] := by decide
  rw [nameBytes, List.mem_append, mem_letters_iff, mem_iff_toNat_mem b (ascii _), hothers]
  simp only [List.mem_append, List.mem_range'_1, List.mem_cons, List.not_mem_nil, or_false,
    isNameByte, Bytes.isLetter, Bytes.isUpper, Bytes.isLower, Bytes.isDigit, dot, Bool.or_eq_true,
    Bool.and_eq_true, decide_eq_true_eq, beq_iff_eq, UInt8.le_iff_toNat_le, ← UInt8.toNat_inj,
    UInt8.reduceToNat]
  omega

theorem cons_mem_oneOf_mul {bytes : Bytes} {l : Language UInt8} {b : UInt8} {s : Bytes} :
    b :: s ∈ oneOf bytes * l ↔ b ∈ bytes ∧ s ∈ l := by
  rw [Language.mem_mul]
  constructor
  · intro h
    obtain ⟨first, hfirst, rest, hrest, happend⟩ := h
    obtain ⟨c, hc, rfl⟩ := hfirst
    obtain ⟨rfl, rfl⟩ := List.cons.inj happend
    exact ⟨hc, hrest⟩
  · intro h
    exact ⟨[b], ⟨b, h.1, rfl⟩, s, h.2, rfl⟩

theorem nil_not_mem_oneOf_mul (bytes : Bytes) (l : Language UInt8) : [] ∉ oneOf bytes * l := by
  rw [Language.mem_mul]
  intro h
  obtain ⟨first, hfirst, rest, -, happend⟩ := h
  obtain ⟨c, -, rfl⟩ := hfirst
  cases happend

theorem cons_mem_one_add {l : Language UInt8} {b : UInt8} {s : Bytes} :
    b :: s ∈ 1 + l ↔ b :: s ∈ l := by
  rw [Language.mem_add, Language.mem_one]
  simp

/-! ## The longest start -/

/-- The first `n` bytes are the longest start of the text that the language has. -/
structure Longest (l : Language UInt8) (s : Bytes) (n : Nat) : Prop where
  le : n ≤ s.length
  mem : s.take n ∈ l
  max : ∀ t, t <+: s → t ∈ l → t.length ≤ n

section

variable {l l' : Language UInt8} {b : UInt8} {s : Bytes} {n : Nat}

theorem longest_nil (hnil : [] ∈ l) : Longest l [] 0 := by
  constructor
  · exact Nat.le_refl 0
  · exact hnil
  · intro t ht _
    rw [List.prefix_nil.1 ht, List.length_nil]

theorem longest_zero (hnil : [] ∈ l) (h : ∀ t, t <+: s → b :: t ∉ l) : Longest l (b :: s) 0 := by
  constructor
  · exact Nat.zero_le _
  · exact hnil
  · intro t ht hl
    cases List.prefix_cons_iff.1 ht with
    | inl hempty =>
        rw [hempty, List.length_nil]
    | inr hcons =>
        obtain ⟨t', rfl, ht'⟩ := hcons
        exact absurd hl (h t' ht')

/-- A byte in front leaves a language to go on with. -/
theorem Longest.cons (hlongest : Longest l' s n) (h : ∀ t, b :: t ∈ l ↔ t ∈ l') :
    Longest l (b :: s) (1 + n) := by
  have hle := hlongest.le
  constructor
  · rw [List.length_cons]
    omega
  · rw [Nat.add_comm, List.take_succ_cons, h]
    exact hlongest.mem
  · intro t ht hl
    cases List.prefix_cons_iff.1 ht with
    | inl hempty =>
        rw [hempty, List.length_nil]
        omega
    | inr hcons =>
        obtain ⟨t', rfl, ht'⟩ := hcons
        have hmax := hlongest.max t' ht' ((h t').1 hl)
        rw [List.length_cons]
        omega

theorem Longest.one_add (hlongest : Longest l s n) : Longest (1 + l) s n := by
  constructor
  · exact hlongest.le
  · exact .inr hlongest.mem
  · intro t ht hl
    cases hl with
    | inl hempty =>
        rw [(Language.mem_one t).1 hempty, List.length_nil]
        exact Nat.zero_le n
    | inr hmem =>
        exact hlongest.max t ht hmem

theorem longest_one_add_zero (h : ∀ t, t <+: s → t ∉ l) : Longest (1 + l) s 0 := by
  constructor
  · exact Nat.zero_le _
  · exact .inl rfl
  · intro t ht hl
    cases hl with
    | inl hempty =>
        rw [(Language.mem_one t).1 hempty, List.length_nil]
    | inr hmem =>
        exact absurd hmem (h t ht)

theorem Longest.of_ne_zero (hlongest : Longest (1 + l) s n) (hn : n ≠ 0) : Longest l s n := by
  constructor
  · exact hlongest.le
  · cases (Language.mem_add 1 l _).1 hlongest.mem with
    | inl hnil =>
        have hlength := congrArg List.length ((Language.mem_one _).1 hnil)
        have hle := hlongest.le
        rw [List.length_take, List.length_nil] at hlength
        omega
    | inr hmem =>
        exact hmem
  · intro t ht hl
    exact hlongest.max t ht ((Language.mem_add 1 l t).2 (.inr hl))

theorem Longest.not_mem_of_zero (hlongest : Longest (1 + l) s 0) (hnil : [] ∉ l) {t : Bytes}
    (ht : t <+: s) : t ∉ l := by
  intro hl
  have hlength := hlongest.max t ht ((Language.mem_add 1 l t).2 (.inr hl))
  rw [List.length_eq_zero_iff.1 (Nat.le_zero.1 hlength)] at hl
  exact hnil hl

/-- A language with the empty text serves as well for a text whose first byte is in the other. -/
theorem Longest.congr (hlongest : Longest l (b :: s) n) (hb : [b] ∈ l) (hnil : [] ∉ l')
    (h : ∀ t, b :: t ∈ l' ↔ b :: t ∈ l) : Longest l' (b :: s) n := by
  have hpos : 1 ≤ n := hlongest.max [b] ⟨s, rfl⟩ hb
  constructor
  · exact hlongest.le
  · have hmem := hlongest.mem
    obtain ⟨m, rfl⟩ := Nat.exists_eq_add_of_le' hpos
    rw [List.take_succ_cons] at hmem ⊢
    exact (h _).2 hmem
  · intro t ht hl
    cases List.prefix_cons_iff.1 ht with
    | inl hempty =>
        rw [hempty] at hl
        exact absurd hl hnil
    | inr hcons =>
        obtain ⟨t', rfl, -⟩ := hcons
        exact hlongest.max _ ht ((h t').1 hl)

end

/-! ## Names behind slashes -/

/-- What may stand behind a byte of a name. -/
def behindName : Language UInt8 := (oneOf nameBytes)∗ * (oneOf [slash] * names)∗

theorem slashedPaths_eq :
    slashedPaths = oneOf [slash] * (oneOf nameBytes * behindName) := by
  simp only [slashedPaths, names, many, behindName, mul_assoc]

theorem behindName_eq : behindName = 1 + slashedPaths + oneOf nameBytes * behindName := by
  calc behindName
      = (1 + oneOf nameBytes * (oneOf nameBytes)∗) * (oneOf [slash] * names)∗ := by
        rw [Language.one_add_self_mul_kstar_eq_kstar, behindName]
    _ = (oneOf [slash] * names)∗ + oneOf nameBytes * behindName := by
        rw [add_mul, one_mul, mul_assoc, behindName]
    _ = 1 + slashedPaths + oneOf nameBytes * behindName := by
        rw [slashedPaths, many, Language.one_add_self_mul_kstar_eq_kstar]

theorem nil_mem_behindName : [] ∈ behindName := by
  rw [behindName_eq]
  exact .inl (.inl rfl)

theorem cons_mem_slashedPaths {b : UInt8} {t : Bytes} :
    b :: t ∈ slashedPaths ↔ b = slash ∧ t ∈ oneOf nameBytes * behindName := by
  rw [slashedPaths_eq, cons_mem_oneOf_mul, List.mem_singleton]

theorem cons_mem_behindName {b : UInt8} {t : Bytes} :
    b :: t ∈ behindName ↔
      b :: t ∈ slashedPaths ∨ (isNameByte b = true ∧ t ∈ behindName) := by
  rw [behindName_eq, Language.mem_add, Language.mem_add, cons_mem_oneOf_mul, mem_nameBytes_iff,
    Language.mem_one, ← behindName_eq]
  simp

theorem isNameByte_of_cons_mem {b : UInt8} {t : Bytes}
    (h : b :: t ∈ oneOf nameBytes * behindName) : isNameByte b = true :=
  (mem_nameBytes_iff b).1 (cons_mem_oneOf_mul.1 h).1

/-- Where a slash stands, the two states of the scanner go on alike. -/
theorem longest_slash {rest : Bytes} {n : Nat} {l : Language UInt8}
    (hnil : [] ∈ l) (hl : ∀ t, slash :: t ∈ l ↔ slash :: t ∈ slashedPaths)
    (hrest : Longest behindName rest n) :
    Longest l (slash :: rest) (if rest.head?.any isNameByte then 1 + n else 0) := by
  have hcons : ∀ t, slash :: t ∈ l ↔ t ∈ oneOf nameBytes * behindName := by
    intro t
    rw [hl, cons_mem_slashedPaths, eq_self, true_and]
  cases rest with
  | nil =>
      apply longest_zero hnil
      intro t ht
      rw [List.prefix_nil.1 ht, hcons]
      exact nil_not_mem_oneOf_mul _ _
  | cons c rest =>
      cases hc : isNameByte c with
      | true =>
          simp only [List.head?_cons, Option.any_some, hc, if_true]
          have hbehind : ∀ t, c :: t ∈ oneOf nameBytes * behindName ↔ c :: t ∈ behindName := by
            intro t
            have hne : c ≠ slash := by
              intro heq
              rw [heq] at hc
              cases hc
            rw [cons_mem_behindName, cons_mem_oneOf_mul, mem_nameBytes_iff, cons_mem_slashedPaths]
            simp [hc, hne]
          have hone : [c] ∈ behindName :=
            cons_mem_behindName.2 (.inr ⟨hc, nil_mem_behindName⟩)
          exact (hrest.congr hone (nil_not_mem_oneOf_mul _ _) hbehind).cons hcons
      | false =>
          simp only [List.head?_cons, Option.any_some, hc]
          apply longest_zero hnil
          intro t ht
          rw [hcons]
          cases List.prefix_cons_iff.1 ht with
          | inl hempty =>
              rw [hempty]
              exact nil_not_mem_oneOf_mul _ _
          | inr hprefix =>
              obtain ⟨t', rfl, -⟩ := hprefix
              intro h
              rw [isNameByte_of_cons_mem h] at hc
              cases hc

theorem longest_slashedLength (s : Bytes) :
    Longest behindName s (slashedLength true s) ∧
      Longest (1 + slashedPaths) s (slashedLength false s) := by
  induction s with
  | nil =>
      exact ⟨longest_nil nil_mem_behindName, longest_nil (.inl rfl)⟩
  | cons b rest ih =>
      by_cases hslash : b = slash
      · subst hslash
        have hname : isNameByte slash = false := by decide
        have hbehind : ∀ t, slash :: t ∈ behindName ↔ slash :: t ∈ slashedPaths := by
          intro t
          simp [cons_mem_behindName, hname]
        simp only [slashedLength, hname, Bool.and_false, Bool.false_eq_true, if_false,
          BEq.rfl, Bool.true_and]
        exact ⟨longest_slash nil_mem_behindName hbehind ih.1, longest_slash (.inl rfl)
          (fun _ => cons_mem_one_add) ih.1⟩
      · have hfree : ∀ t, b :: t ∉ slashedPaths := by
          intro t h
          exact hslash (cons_mem_slashedPaths.1 h).1
        have hbeq : (b == slash) = false := beq_eq_false_iff_ne.2 hslash
        have hfalse : Longest (1 + slashedPaths) (b :: rest) 0 := by
          apply longest_zero (.inl rfl)
          intro t _ h
          exact hfree t (cons_mem_one_add.1 h)
        cases hname : isNameByte b with
        | true =>
            simp only [slashedLength, hname, hbeq, Bool.and_self, Bool.false_and, if_true,
              Bool.false_eq_true, if_false]
            refine ⟨ih.1.cons ?_, hfalse⟩
            intro t
            simp [cons_mem_behindName, hfree t, hname]
        | false =>
            simp only [slashedLength, hname, hbeq, Bool.and_false, Bool.false_and,
              Bool.false_eq_true, if_false]
            refine ⟨longest_zero nil_mem_behindName ?_, hfalse⟩
            intro t _
            simp [cons_mem_behindName, hfree t, hname]

/-! ## Pieces behind a drive -/

/-- What may stand behind a byte of a name in a piece. -/
def behindPiece : Language UInt8 :=
  (oneOf nameBytes)∗ * ((1 + oneOf [backslash]) * pieces∗)

theorem many_pieces_eq : many pieces = oneOf nameBytes * behindPiece := by
  simp only [pieces, names, many, behindPiece, mul_assoc]

theorem kstar_pieces_eq : pieces∗ = 1 + oneOf nameBytes * behindPiece := by
  rw [← many_pieces_eq, many, Language.one_add_self_mul_kstar_eq_kstar]

theorem behindPiece_eq :
    behindPiece = 1 + oneOf nameBytes * behindPiece + oneOf [backslash] * pieces∗ := by
  calc behindPiece
      = (1 + oneOf nameBytes * (oneOf nameBytes)∗) * ((1 + oneOf [backslash]) * pieces∗) := by
        rw [Language.one_add_self_mul_kstar_eq_kstar, behindPiece]
    _ = (pieces∗ + oneOf [backslash] * pieces∗) + oneOf nameBytes * behindPiece := by
        rw [add_mul, one_mul, mul_assoc, ← behindPiece, add_mul, one_mul]
    _ = (1 + oneOf nameBytes * behindPiece + oneOf [backslash] * pieces∗) +
          oneOf nameBytes * behindPiece := by
        rw [← kstar_pieces_eq]
    _ = 1 + oneOf nameBytes * behindPiece + oneOf [backslash] * pieces∗ := by
        rw [add_right_comm, add_assoc 1, add_idem]

theorem cons_mem_kstar_pieces {b : UInt8} {t : Bytes} :
    b :: t ∈ pieces∗ ↔ isNameByte b = true ∧ t ∈ behindPiece := by
  rw [kstar_pieces_eq, Language.mem_add, cons_mem_oneOf_mul, mem_nameBytes_iff, Language.mem_one]
  simp

theorem nil_mem_behindPiece : [] ∈ behindPiece := by
  rw [behindPiece_eq]
  exact .inl (.inl rfl)

theorem cons_mem_behindPiece {b : UInt8} {t : Bytes} :
    b :: t ∈ behindPiece ↔
      (isNameByte b = true ∧ t ∈ behindPiece) ∨ (b = backslash ∧ t ∈ pieces∗) := by
  rw [behindPiece_eq, Language.mem_add, Language.mem_add, cons_mem_oneOf_mul, cons_mem_oneOf_mul,
    mem_nameBytes_iff, Language.mem_one, ← behindPiece_eq]
  simp

theorem longest_backslashedLength (s : Bytes) :
    Longest behindPiece s (backslashedLength true s) ∧
      Longest pieces∗ s (backslashedLength false s) := by
  induction s with
  | nil =>
      exact ⟨longest_nil nil_mem_behindPiece, longest_nil (Language.nil_mem_kstar _)⟩
  | cons b rest ih =>
      cases hname : isNameByte b with
      | true =>
          have hne : b ≠ backslash := by
            intro heq
            rw [heq] at hname
            cases hname
          simp only [backslashedLength, hname, if_true]
          refine ⟨ih.1.cons ?_, ih.1.cons ?_⟩
          · intro t
            simp [cons_mem_behindPiece, hname, hne]
          · intro t
            simp [cons_mem_kstar_pieces, hname]
      | false =>
          have hfalse : Longest pieces∗ (b :: rest) 0 := by
            apply longest_zero (Language.nil_mem_kstar _)
            intro t _
            simp [cons_mem_kstar_pieces, hname]
          by_cases hback : b = backslash
          · rw [hback] at hfalse hname ⊢
            simp only [backslashedLength, hname, Bool.false_eq_true, if_false, BEq.rfl,
              Bool.and_self, if_true, Bool.false_and]
            refine ⟨ih.2.cons ?_, hfalse⟩
            intro t
            simp [cons_mem_behindPiece, hname]
          · simp only [backslashedLength, hname, beq_eq_false_iff_ne.2 hback, Bool.and_false,
              Bool.false_eq_true, if_false]
            refine ⟨longest_zero nil_mem_behindPiece ?_, hfalse⟩
            intro t _
            simp [cons_mem_behindPiece, hname, hback]

/-! ## The longest path -/

theorem mem_drivePaths_iff {s : Bytes} :
    s ∈ drivePaths ↔ ∃ drive rest, s = drive :: colon :: backslash :: rest ∧
      Bytes.isLetter drive = true ∧ rest ∈ many pieces := by
  constructor
  · intro h
    match s, h with
    | [], h => exact absurd h (nil_not_mem_oneOf_mul _ _)
    | [a], h => exact absurd (cons_mem_oneOf_mul.1 h).2 (nil_not_mem_oneOf_mul _ _)
    | [a, b], h =>
        have hb := (cons_mem_oneOf_mul.1 h).2
        exact absurd (cons_mem_oneOf_mul.1 hb).2 (nil_not_mem_oneOf_mul _ _)
    | a :: b :: c :: rest, h =>
        obtain ⟨ha, hb⟩ := cons_mem_oneOf_mul.1 h
        obtain ⟨hb, hc⟩ := cons_mem_oneOf_mul.1 hb
        obtain ⟨hc, hrest⟩ := cons_mem_oneOf_mul.1 hc
        rw [List.mem_singleton.1 hb, List.mem_singleton.1 hc]
        exact ⟨a, rest, rfl, (mem_letters_iff a).1 ha, hrest⟩
  · intro h
    obtain ⟨drive, rest, rfl, hdrive, hrest⟩ := h
    apply cons_mem_oneOf_mul.2
    refine ⟨(mem_letters_iff drive).2 hdrive, ?_⟩
    apply cons_mem_oneOf_mul.2
    refine ⟨List.mem_singleton_self _, ?_⟩
    exact cons_mem_oneOf_mul.2 ⟨List.mem_singleton_self _, hrest⟩

theorem longest_driveLength (s : Bytes) : Longest (1 + drivePaths) s (driveLength s) := by
  unfold driveLength
  split
  · rename_i drive b c rest
    have hpieces : Longest (1 + many pieces) rest (backslashedLength false rest) := by
      rw [many, Language.one_add_self_mul_kstar_eq_kstar]
      exact (longest_backslashedLength rest).2
    have hnil : [] ∉ many pieces := by
      rw [many_pieces_eq]
      exact nil_not_mem_oneOf_mul _ _
    split
    · rename_i hcond
      simp only [Bool.and_eq_true, beq_iff_eq, bne_iff_ne] at hcond
      obtain ⟨⟨⟨hdrive, rfl⟩, rfl⟩, hlength⟩ := hcond
      have hmany := hpieces.of_ne_zero hlength
      have hthree : 3 + backslashedLength false rest =
          1 + (1 + (1 + backslashedLength false rest)) := by omega
      rw [hthree]
      apply Longest.one_add
      refine ((hmany.cons (l := oneOf [backslash] * many pieces) ?_).cons
        (l := oneOf [colon] * (oneOf [backslash] * many pieces)) ?_).cons ?_
      · intro t
        simp [cons_mem_oneOf_mul]
      · intro t
        simp [cons_mem_oneOf_mul]
      · intro t
        rw [drivePaths, cons_mem_oneOf_mul, mem_letters_iff, hdrive, eq_self, true_and]
    · rename_i hcond
      apply longest_one_add_zero
      intro t ht hmem
      obtain ⟨drive', rest', rfl, hdrive, hrest⟩ := mem_drivePaths_iff.1 hmem
      simp only [List.cons_prefix_cons] at ht
      obtain ⟨rfl, rfl, rfl, ht⟩ := ht
      simp only [hdrive, BEq.rfl, Bool.and_self, Bool.true_and, bne_iff_ne, ne_eq,
        Decidable.not_not] at hcond
      rw [hcond] at hpieces
      exact hpieces.not_mem_of_zero hnil ht hrest
  · rename_i hshort
    apply longest_one_add_zero
    intro t ht hmem
    obtain ⟨drive, rest, rfl, -, -⟩ := mem_drivePaths_iff.1 hmem
    obtain ⟨more, happend⟩ := ht
    exact hshort drive colon backslash (rest ++ more) happend.symm

theorem nil_not_mem_slashedPaths : [] ∉ slashedPaths := by
  rw [slashedPaths_eq]
  exact nil_not_mem_oneOf_mul _ _

theorem nil_not_mem_pathTexts : [] ∉ pathTexts := by
  intro h
  cases h with
  | inl hslashed =>
      exact nil_not_mem_slashedPaths hslashed
  | inr hdrive =>
      exact nil_not_mem_oneOf_mul _ _ hdrive

/-- The two kinds of path begin with different bytes. -/
theorem not_mem_drivePaths_of_slashed {s t : Bytes} {n : Nat} (h : s.take n ∈ slashedPaths)
    (ht : t <+: s) : t ∉ drivePaths := by
  intro hdrive
  obtain ⟨drive, rest, rfl, hletter, -⟩ := mem_drivePaths_iff.1 hdrive
  obtain ⟨more, rfl⟩ := ht
  cases n with
  | zero =>
      exact nil_not_mem_slashedPaths h
  | succ n =>
      rw [List.cons_append, List.take_succ_cons] at h
      rw [(cons_mem_slashedPaths.1 h).1] at hletter
      cases hletter

theorem longest_pathLength (s : Bytes) : Longest (1 + pathTexts) s (pathLength s) := by
  have hslashed := (longest_slashedLength s).2
  have hdrive := longest_driveLength s
  unfold pathLength
  split
  · rename_i hzero
    rw [hzero] at hslashed
    constructor
    · exact hdrive.le
    · exact hdrive.mem.imp_right .inr
    · intro t ht hmem
      apply hdrive.max t ht
      cases hmem with
      | inl hempty =>
          exact .inl hempty
      | inr hpath =>
          exact .inr (hpath.resolve_left (hslashed.not_mem_of_zero nil_not_mem_slashedPaths ht))
  · rename_i hne
    have hmem := (hslashed.of_ne_zero hne).mem
    constructor
    · exact hslashed.le
    · exact .inr (.inl hmem)
    · intro t ht htext
      apply hslashed.max t ht
      cases htext with
      | inl hempty =>
          exact .inl hempty
      | inr hpath =>
          exact .inr (hpath.resolve_right (not_mem_drivePaths_of_slashed hmem ht))

end Redaction

end LakeUpload
