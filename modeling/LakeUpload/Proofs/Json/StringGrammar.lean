import LakeUpload.Proofs.Json.Printed

/-!
# What stands between the quotes of a string

The grammar of strings relates what stands between the quotes to what it stands for. The reader of
this library is exactly this grammar (`readString_eq_some_iff`). An escaped text is one of the
spellings of that text, so every reader that keeps to the grammar gives it back, and the quote that
ends it cannot be found anywhere else.
-/

namespace LakeUpload

open Bytes (ascii quote backslash slash)

namespace Json

/-- The letters behind a backslash, and the bytes that they stand for. -/
def letters : List (UInt8 × UInt8) :=
  [(quote, quote), (backslash, backslash), (slash, slash), (0x62, 0x08), (0x66, 0x0c), (0x6e, 0x0a),
    (0x72, 0x0d), (0x74, 0x09)]

/-- Four hexadecimal digits and their number. -/
inductive CodeUnit : Bytes → Nat → Prop where
  | digits {a b c d : UInt8} {i j k l : Nat} (ha : hexValue? a = some i) (hb : hexValue? b = some j)
      (hc : hexValue? c = some k) (hd : hexValue? d = some l) :
      CodeUnit [a, b, c, d] (((i * 16 + j) * 16 + k) * 16 + l)

/-- One byte or one escape, and what it stands for. A number that is no code point of its own makes
one with a second number. -/
inductive Element : Bytes → Bytes → Prop where
  | plain {b : UInt8} (hb : PlainByte b) : Element [b] [b]
  | letter {l b : UInt8} (hl : (l, b) ∈ letters) : Element [backslash, l] [b]
  | unit {digits : Bytes} {code : Nat} (hdigits : CodeUnit digits code)
      (hcode : ¬ (0xd800 ≤ code ∧ code < 0xe000)) :
      Element (backslash :: 0x75 :: digits) (utf8 code)
  | pair {digits digits' : Bytes} {high low : Nat} (hdigits : CodeUnit digits high)
      (hhigh : 0xd800 ≤ high ∧ high < 0xdc00) (hdigits' : CodeUnit digits' low)
      (hlow : 0xdc00 ≤ low ∧ low < 0xe000) :
      Element (backslash :: 0x75 :: (digits ++ backslash :: 0x75 :: digits'))
        (utf8 (0x10000 + (high - 0xd800) * 1024 + (low - 0xdc00)))

/-- What stands between two quotes, and what it stands for. -/
inductive StandsFor : Bytes → Bytes → Prop where
  | nil : StandsFor [] []
  | cons {element out body s : Bytes} (helement : Element element out) (hbody : StandsFor body s) :
      StandsFor (element ++ body) (out ++ s)

/-! ## The reader and the grammar -/

theorem letterEscape?_eq_some_iff {l b : UInt8} : letterEscape? l = some b ↔ (l, b) ∈ letters := by
  constructor
  · intro h
    unfold letterEscape? at h
    repeat' split at h
    · rename_i hself
      cases h
      rcases hself with rfl | rfl | rfl <;> decide
    all_goals cases h
    all_goals rename_i heq; subst heq; decide
  · intro h
    have hall : letters.all (fun pair => letterEscape? pair.1 == some pair.2) = true := by decide
    exact beq_iff_eq.1 (List.all_eq_true.1 hall (l, b) h)

theorem readUnit_eq_some_iff {s rest : Bytes} {code : Nat} :
    readUnit s = some (code, rest) ↔ ∃ digits, s = digits ++ rest ∧ CodeUnit digits code := by
  constructor
  · intro h
    unfold readUnit at h
    split at h
    · simp only [bind, Option.bind_eq_some_iff, pure, Option.some.injEq, Prod.mk.injEq] at h
      obtain ⟨_, ha, _, hb, _, hc, _, hd, rfl, rfl⟩ := h
      exact ⟨_, rfl, .digits ha hb hc hd⟩
    · cases h
  · rintro ⟨_, rfl, ha, hb, hc, hd⟩
    simp [readUnit, ha, hb, hc, hd]

theorem readString_element {element out : Bytes} (h : Element element out) (rest : Bytes) :
    readString (element ++ rest) = (readString rest).map fun r => (out ++ r.1, r.2) := by
  have hletter : letterEscape? 0x75 = none := by decide
  cases h with
  | plain hb =>
      exact readString_plain hb.1 hb.2.1 hb.2.2 rest
  | letter hl =>
      exact readString_escape_of (readEscape_of_letter (letterEscape?_eq_some_iff.2 hl) rest)
  | unit hdigits hcode =>
      rename_i digits code
      have hunit := readUnit_eq_some_iff.2 ⟨digits, Eq.refl (digits ++ rest), hdigits⟩
      have hhigh : ¬ (0xd800 ≤ code ∧ code < 0xdc00) := by omega
      have hlow : ¬ (0xdc00 ≤ code ∧ code < 0xe000) := by omega
      apply readString_escape_of
      simp [readEscape, readCodePoint, hletter, hunit, hhigh, hlow]
  | pair hdigits hhigh hdigits' hlow =>
      rename_i digits digits' high low
      have hunit := readUnit_eq_some_iff.2
        ⟨digits, Eq.refl (digits ++ backslash :: 0x75 :: (digits' ++ rest)), hdigits⟩
      have hunit' := readUnit_eq_some_iff.2 ⟨digits', Eq.refl (digits' ++ rest), hdigits'⟩
      have hmark : ascii "\\u" = [backslash, 0x75] := by rfl
      apply readString_escape_of
      simp [readEscape, readCodePoint, hletter, hunit, hhigh, hunit', hmark, hlow]

theorem readString_of_standsFor {body s : Bytes} (h : StandsFor body s) (rest : Bytes) :
    readString (body ++ quote :: rest) = some (s, rest) := by
  induction h with
  | nil =>
      exact readString_quote rest
  | cons helement _ ih =>
      rw [List.append_assoc, readString_element helement, ih]
      rfl

theorem element_of_readCodePoint {s out rest : Bytes} (h : readCodePoint s = some (out, rest)) :
    ∃ used, s = used ++ rest ∧ Element (backslash :: 0x75 :: used) out := by
  unfold readCodePoint at h
  split at h
  · cases h
  · rename_i code after hunit
    obtain ⟨digits, rfl, hdigits⟩ := readUnit_eq_some_iff.1 hunit
    split at h
    · rename_i hhigh
      split at h
      · cases h
      · rename_i low after' hunit'
        split at h
        · rename_i hpair
          simp only [Option.some.injEq, Prod.mk.injEq] at h
          obtain ⟨rfl, rfl⟩ := h
          obtain ⟨digits', happend, hdigits'⟩ := readUnit_eq_some_iff.1 hunit'
          have hafter : after = backslash :: 0x75 :: (digits' ++ after') := by
            have hsplit := List.take_append_drop 2 after
            rw [hpair.1, happend] at hsplit
            exact hsplit.symm
          refine ⟨_, ?_, .pair hdigits hhigh hdigits' hpair.2⟩
          rw [hafter, List.append_assoc, List.cons_append, List.cons_append]
        · cases h
    · split at h
      · cases h
      · cases h
        exact ⟨digits, rfl, .unit hdigits (by omega)⟩

theorem element_of_readEscape {s out rest : Bytes} (h : readEscape s = some (out, rest)) :
    ∃ used, s = used ++ rest ∧ Element (backslash :: used) out := by
  unfold readEscape at h
  split at h
  · cases h
  · rename_i b tail
    split at h
    · rename_i c hletter
      cases h
      exact ⟨[b], rfl, .letter (letterEscape?_eq_some_iff.1 hletter)⟩
    · split at h
      · rename_i hcode
        obtain ⟨used, rfl, helement⟩ := element_of_readCodePoint h
        exact ⟨b :: used, rfl, hcode ▸ helement⟩
      · cases h

theorem exists_of_readString {s out rest : Bytes} (h : readString s = some (out, rest)) :
    ∃ body, s = body ++ quote :: rest ∧ StandsFor body out := by
  fun_induction readString s generalizing out with
  | case1 | case3 | case5 =>
      cases h
  | case2 tail =>
      cases h
      exact ⟨[], rfl, .nil⟩
  | case4 tail more tail' hescape _ ih =>
      obtain ⟨read, hread, heq⟩ := Option.map_eq_some_iff.1 h
      cases heq
      obtain ⟨body, rfl, hbody⟩ := ih hread
      obtain ⟨used, rfl, helement⟩ := element_of_readEscape hescape
      exact ⟨_, by simp, .cons helement hbody⟩
  | case6 b tail hquote hbackslash hcontrol ih =>
      obtain ⟨read, hread, heq⟩ := Option.map_eq_some_iff.1 h
      cases heq
      obtain ⟨body, rfl, hbody⟩ := ih hread
      exact ⟨_, rfl, .cons (.plain ⟨hquote, hbackslash, hcontrol⟩) hbody⟩

/-- The reader accepts what the grammar does up to the first closing quote, and nothing else. -/
theorem readString_eq_some_iff {text s rest : Bytes} :
    readString text = some (s, rest) ↔ ∃ body, text = body ++ quote :: rest ∧ StandsFor body s := by
  constructor
  · exact exists_of_readString
  · rintro ⟨body, rfl, hbody⟩
    exact readString_of_standsFor hbody rest

/-- There is one way only to read a string off the front of a text. -/
theorem StandsFor.unique {body body' s s' rest rest' : Bytes} (h : StandsFor body s)
    (h' : StandsFor body' s') (heq : body' ++ quote :: rest' = body ++ quote :: rest) :
    body' = body ∧ s' = s ∧ rest' = rest := by
  have hread := readString_of_standsFor h' rest'
  rw [heq, readString_of_standsFor h rest] at hread
  cases hread
  exact ⟨List.append_cancel_right heq, rfl, rfl⟩

/-! ## Escaped texts -/

theorem plainByte_of_letterOf? {b : UInt8} (hletter : letterOf? b = none) (hcontrol : ¬ b < 0x20) :
    PlainByte b := by
  refine ⟨?_, ?_, hcontrol⟩
  · rintro rfl
    revert hletter
    decide
  · rintro rfl
    revert hletter
    decide

theorem element_escapeByte (b : UInt8) : Element (escapeByte b) [b] := by
  unfold escapeByte
  split
  · rename_i letter hletter
    exact .letter (letterEscape?_eq_some_iff.1 (letterEscape?_of_letterOf? hletter))
  · rename_i hletter
    split
    · rename_i hcontrol
      have hread := readEscape_control b.toNat hcontrol []
      rw [UInt8.ofNat_toNat] at hread
      obtain ⟨used, hused, helement⟩ := element_of_readEscape hread
      rw [List.append_nil] at hused
      rw [← hused] at helement
      exact helement
    · rename_i hcontrol
      exact .plain (plainByte_of_letterOf? hletter hcontrol)

theorem standsFor_escape (s : Bytes) : StandsFor (escape s) s := by
  induction s with
  | nil =>
      exact .nil
  | cons b s ih =>
      exact .cons (element_escapeByte b) ih

/-- A reader that keeps to the grammar: started behind the opening quote, it gives what the string
stands for, and what comes behind the closing quote. Texts outside the grammar are left to it. -/
def ReadsStrings (read : Bytes → Option (Bytes × Bytes)) : Prop :=
  ∀ {body s : Bytes}, StandsFor body s → ∀ rest, read (body ++ quote :: rest) = some (s, rest)

theorem readsStrings_readString : ReadsStrings readString := fun hbody _ =>
  readString_eq_some_iff.2 ⟨_, rfl, hbody⟩

/-- Every reader gives an escaped text back, and goes up to the quote behind it and no further. No
other string can be read off the same bytes, so an escaped text is never left early, and neither two
texts nor two texts with something behind them come out alike. -/
theorem escape_undone {read : Bytes → Option (Bytes × Bytes)} (hread : ReadsStrings read)
    (s rest : Bytes) :
    read (escape s ++ quote :: rest) = some (s, rest) ∧ (∀ b ∈ escape s, ¬ b < 0x20) ∧
      (∀ body t rest', StandsFor body t → body ++ quote :: rest' = escape s ++ quote :: rest →
        body = escape s ∧ t = s ∧ rest' = rest) ∧
      (∀ t, escape t = escape s → t = s) ∧
      ∀ t rest', escape t ++ quote :: rest' = escape s ++ quote :: rest → t = s ∧ rest' = rest := by
  have hescape := standsFor_escape s
  refine ⟨hread hescape rest, printed_escape s, ?_, ?_, ?_⟩
  · intro body t rest' hbody heq
    exact hescape.unique hbody heq
  · intro t heq
    have hquoted : escape t ++ quote :: rest = escape s ++ quote :: rest := by rw [heq]
    exact (escape_quote_inj hquoted).1
  · intro t rest' heq
    exact escape_quote_inj heq

/-- A newline, a control without a letter, a byte beyond ASCII, a backslash and a quote. -/
def roughText : Bytes := [0x0a, 0x01, 0xff, backslash, quote]

/-- The last quote of the text does not end it, and the one behind the end is left alone. -/
theorem roughText_undone :
    ReadsStrings readString ∧
      escape roughText = ascii "\\n\\u0001" ++ 0xff :: ascii "\\\\\\\"" ∧
      readString (escape roughText ++ quote :: [quote]) = some (roughText, [quote]) := by
  have hescape : escape roughText = ascii "\\n\\u0001" ++ 0xff :: ascii "\\\\\\\"" := by rfl
  exact ⟨readsStrings_readString, hescape,
    (escape_undone readsStrings_readString roughText [quote]).1⟩

end Json

end LakeUpload
