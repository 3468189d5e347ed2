import LakeUpload.Proofs.Redaction.Signatures

/-!
# What redaction leaves

A text is clean if no key in it has a value but the word that stands for one. Redaction gives the
only clean text that comes of replacing whole values by that word; a clean text is left as it is.
Texts can be redacted piece by piece, as long as no signature reaches over the seam.
-/

namespace LakeUpload

open Bytes (ascii lower ampersand question quote)

namespace Signature

/-! ## Ends of values -/

/-- No value goes on into this text. -/
def Ends (s : Bytes) : Prop := s.head?.any isValueByte = false

theorem takeWhile_eq_nil_iff {s : Bytes} : s.takeWhile isValueByte = [] ↔ Ends s := by
  cases s with
  | nil =>
      simp [Ends]
  | cons b rest =>
      cases hb : isValueByte b <;> simp [Ends, hb]

theorem takeWhile_value {v s : Bytes} (hv : ∀ b ∈ v, isValueByte b = true) (hs : Ends s) :
    (v ++ s).takeWhile isValueByte = v := by
  rw [List.takeWhile_append_of_pos hv, takeWhile_eq_nil_iff.2 hs, List.append_nil]

theorem ends_dropWhile {p : UInt8 → Bool} (hp : ∀ b, isValueByte b = true → p b = true)
    (s : Bytes) : Ends (s.dropWhile p) := by
  have hhead := List.head?_dropWhile_not p s
  unfold Ends
  cases hrest : (s.dropWhile p).head? with
  | none =>
      rfl
  | some b =>
      have hb : p b = false := by simpa [hrest] using hhead
      simpa [hb] using mt (hp b)

theorem ends_rest (s : Bytes) : Ends (rest s) := ends_dropWhile (fun _ hb => hb) _

theorem Ends.append {s t : Bytes} (hs : Ends s) (ht : s = [] → Ends t) : Ends (s ++ t) := by
  cases s with
  | nil =>
      exact ht rfl
  | cons b rest =>
      exact hs

theorem Ends.not_value {v s : Bytes} (h : Ends (v ++ s)) : ¬ IsValue v := by
  intro hv
  have hnil := takeWhile_eq_nil_iff.2 h
  rw [List.takeWhile_append_of_pos hv.all] at hnil
  exact hv.ne_nil (List.append_eq_nil_iff.1 hnil).1

/-- A text that starts with a signature falls into key, value and what stands behind it. -/
theorem exists_of_startsAt {s : Bytes} (h : startsAt s = true) :
    ∃ key v, s = key ++ (v ++ rest s) ∧ isKey key = true ∧ IsValue v := by
  simp only [startsAt, Bool.and_eq_true, bne_iff_ne] at h
  refine ⟨s.take keyLength, value s, ?_, h.1, h.2, List.all_eq_true.1 List.all_takeWhile⟩
  rw [value, rest, List.takeWhile_append_dropWhile, List.take_append_drop]

theorem redact_signature {key v s : Bytes} (hkey : isKey key = true) (hv : IsValue v)
    (hs : Ends s) : redact (key ++ (v ++ s)) = key ++ (redacted ++ redact s) := by
  have hlength := length_of_isKey hkey
  have hvalue : value (key ++ (v ++ s)) = v := by
    rw [value, List.drop_left' hlength, takeWhile_value hv.all hs]
  have hrest : rest (key ++ (v ++ s)) = s := by
    rw [← drop_value, hvalue, ← List.drop_drop, List.drop_left' hlength, List.drop_left]
  rw [redact_of_startsAt (startsAt_signature hkey hv s), List.take_left' hlength, drop_value, hrest,
    List.append_assoc]

theorem not_startsAt {b : UInt8} (hb : b ≠ question ∧ b ≠ ampersand) (s : Bytes) :
    startsAt (b :: s) = false := by
  simp [startsAt, isKey, keyLength, hb.1, hb.2]

/-- Induction as a text is redacted: over its signatures, and over the bytes between them. -/
@[elab_as_elim]
theorem signature_induction {motive : Bytes → Prop} (nil : motive [])
    (cons : ∀ b s, startsAt (b :: s) = false → motive s → motive (b :: s))
    (signature : ∀ key v s, isKey key = true → IsValue v → Ends s → motive s →
      motive (key ++ (v ++ s))) (s : Bytes) : motive s := by
  induction hn : s.length using Nat.strongRecOn generalizing s with
  | ind n ih =>
      cases hstart : startsAt s with
      | true =>
          have hrest := ih _ (hn ▸ length_rest_lt hstart) (rest s) rfl
          obtain ⟨key, v, hs, hkey, hv⟩ := exists_of_startsAt hstart
          rw [hs]
          exact signature key v (rest s) hkey hv (ends_rest s) hrest
      | false =>
          cases s with
          | nil =>
              exact nil
          | cons b s =>
              exact cons b s hstart (ih s.length (by simp [← hn]) s rfl)

/-! ## Replaced values -/

/-- The second text is the first with whole values, each right behind a key, replaced by the word
that stands for them. -/
inductive Replaced : Bytes → Bytes → Prop where
  | nil : Replaced [] []
  | keep (b : UInt8) {s r : Bytes} (h : Replaced s r) : Replaced (b :: s) (b :: r)
  | value {key v s r : Bytes} (hkey : isKey key = true) (hv : IsValue v) (hs : Ends s)
      (h : Replaced s r) : Replaced (key ++ (v ++ s)) (key ++ (redacted ++ r))

theorem isValue_redacted : IsValue redacted := by decide

theorem Replaced.sameButValues {s r : Bytes} (h : Replaced s r) : SameButValues s r := by
  induction h with
  | nil =>
      exact .nil
  | keep b _ ih =>
      exact .cons b ih
  | value hkey hv _ _ ih =>
      exact .value hkey hv isValue_redacted ih

theorem replaced_redact (s : Bytes) : Replaced s (redact s) := by
  induction s using signature_induction with
  | nil =>
      exact .nil
  | cons b s hstart ih =>
      rw [redact_cons hstart]
      exact .keep b ih
  | signature key v s hkey hv hends ih =>
      rw [redact_signature hkey hv hends]
      exact .value hkey hv hends ih

theorem redact_redact (s : Bytes) : redact (redact s) = redact s :=
  (replaced_redact s).sameButValues.redact_eq.symm

theorem ends_redact {s : Bytes} (hs : Ends s) : Ends (redact s) := by
  unfold Ends
  rw [← (replaced_redact s).sameButValues.head?]
  exact hs

/-! ## Clean texts -/

/-- Behind every key stands no value, or the word that stands for one. -/
def Clean (s : Bytes) : Prop :=
  ∀ front key back, s = front ++ (key ++ back) → isKey key = true →
    back.takeWhile isValueByte = [] ∨ back.takeWhile isValueByte = redacted

theorem clean_nil : Clean [] := by
  intro front key back heq hkey
  have hkeyNil : key = [] := by simp_all
  subst hkeyNil
  cases hkey

theorem Clean.of_append (front : Bytes) {s : Bytes} (h : Clean (front ++ s)) : Clean s := by
  intro before key back hs hkey
  exact h (front ++ before) key back (by rw [hs, List.append_assoc]) hkey

theorem Clean.cons {b : UInt8} {s : Bytes} (hs : Clean s)
    (hfirst : startsAt (b :: s) = true → value (b :: s) = redacted) : Clean (b :: s) := by
  intro front key back heq hkey
  cases front with
  | nil =>
      have hvalue : value (b :: s) = back.takeWhile isValueByte := by
        rw [heq, List.nil_append, value, List.drop_left' (length_of_isKey hkey)]
      by_cases hnone : back.takeWhile isValueByte = []
      · exact .inl hnone
      · have hstart : startsAt (b :: s) = true := by
          rw [startsAt, hvalue, heq, List.nil_append, List.take_left' (length_of_isKey hkey), hkey]
          simpa using hnone
        exact .inr (hvalue.symm.trans (hfirst hstart))
  | cons _ front =>
      exact hs front key back (List.cons.inj heq).2 hkey

theorem Clean.append {front s : Bytes} (hs : Clean s)
    (hfront : ∀ b ∈ front, b ≠ question ∧ b ≠ ampersand) : Clean (front ++ s) := by
  induction front with
  | nil =>
      exact hs
  | cons b front ih =>
      have hrest := ih fun c hc => hfront c (List.mem_cons_of_mem b hc)
      refine hrest.cons fun hstart => ?_
      rw [not_startsAt (hfront b List.mem_cons_self)] at hstart
      cases hstart

/-- No key begins in the word, and no value reaches over it. -/
theorem Clean.signature {key s : Bytes} (hkey : isKey key = true) (hends : Ends s)
    (hs : Clean s) : Clean (key ++ (redacted ++ s)) := by
  have hall : redacted.all (fun b => b != question && b != ampersand) = true := by decide
  have hword : ∀ b ∈ redacted, b ≠ question ∧ b ≠ ampersand := by
    simpa only [List.all_eq_true, Bool.and_eq_true, bne_iff_ne] using hall
  have hlength := length_of_isKey hkey
  obtain ⟨b, name, rfl, -, hname⟩ := isKey_iff.1 hkey
  refine ((hs.append hword).append fun c => not_separator_of_mem_name hname).cons fun _ => ?_
  rw [← List.cons_append, value, List.drop_left' hlength,
    takeWhile_value isValue_redacted.all hends]

theorem redact_of_clean {s : Bytes} (hs : Clean s) : redact s = s := by
  induction s using signature_induction with
  | nil =>
      rfl
  | cons b s hstart ih =>
      rw [redact_cons hstart, ih (hs.of_append [b])]
  | signature key v s hkey hv hends ih =>
      have hrest : Clean s := by
        rw [← List.append_assoc] at hs
        exact hs.of_append (key ++ v)
      have hword := hs [] key _ rfl hkey
      rw [takeWhile_value hv.all hends] at hword
      rw [redact_signature hkey hv hends, ih hrest, hword.resolve_left hv.ne_nil]

/-- A key alone has no value. -/
theorem redact_key {key : Bytes} (hkey : isKey key = true) : redact key = key := by
  refine redact_of_clean fun front key' back heq hkey' => .inl ?_
  have hlength := congrArg List.length heq
  simp only [List.length_append, length_of_isKey hkey, length_of_isKey hkey'] at hlength
  have hback : back = [] := List.length_eq_zero_iff.1 (by omega)
  rw [hback, List.takeWhile_nil]

theorem clean_redact (s : Bytes) : Clean (redact s) := by
  induction s using signature_induction with
  | nil =>
      exact clean_nil
  | cons b s hstart ih =>
      rw [redact_cons hstart]
      refine ih.cons fun hagain => ?_
      -- behind the kept byte only values have changed, so no signature starts there now
      have hsame := (SameButValues.cons b (replaced_redact s).sameButValues).startsAt_eq
      rw [← hsame, hstart] at hagain
      cases hagain
  | signature key v s hkey hv hends ih =>
      rw [redact_signature hkey hv hends]
      exact .signature hkey (ends_redact hends) ih

/-! ## Texts put together -/

/-- A text that ends in a key or in the value behind one, so that more of a value may follow. -/
def Open (s : Bytes) : Prop :=
  ∃ front key v, s = front ++ (key ++ v) ∧ isKey key = true ∧ ∀ b ∈ v, isValueByte b = true

/-- Neither a key nor a value reaches from the first text into the second. -/
def Apart (s t : Bytes) : Prop := Ends t ∨ (¬ Open s ∧ t.head? = some question)

theorem Open.append_left (front : Bytes) {s : Bytes} (h : Open s) : Open (front ++ s) := by
  obtain ⟨before, key, v, rfl, hkey, hv⟩ := h
  exact ⟨front ++ before, key, v, by rw [List.append_assoc], hkey, hv⟩

theorem open_signature {key v : Bytes} (hkey : isKey key = true)
    (hv : ∀ b ∈ v, isValueByte b = true) : Open (key ++ v) :=
  ⟨[], key, v, rfl, hkey, hv⟩

theorem Apart.of_append (front : Bytes) {s t : Bytes} (h : Apart (front ++ s) t) : Apart s t :=
  h.imp_right fun hopen => ⟨mt (Open.append_left front) hopen.1, hopen.2⟩

theorem Apart.ends_of_open {s t : Bytes} (h : Apart s t) (hopen : Open s) : Ends t :=
  h.resolve_right fun hnone => hnone.1 hopen

/-- The second text does not go on with the name of a key. -/
theorem Apart.head_not_mem_name {s t : Bytes} {b : UInt8} {name : Bytes} (h : Apart s (b :: t))
    (hname : lower name = ascii "sig=") : b ∉ name := by
  intro hb
  rcases h with hends | ⟨-, hquestion⟩
  · have hvalue := isValueByte_of_mem_name hname hb
    simp [Ends, hvalue] at hends
  · exact (not_separator_of_mem_name hname hb).1 (Option.some.inj hquestion)

theorem startsAt_append {s t : Bytes} (hs : s ≠ []) (h : Apart s t) :
    startsAt (s ++ t) = startsAt s := by
  rw [Bool.eq_iff_iff]
  constructor
  · intro hstart
    obtain ⟨key, v, heq, hkey, hv⟩ := exists_of_startsAt hstart
    generalize rest (s ++ t) = back at heq
    have hseam (hsame : s = key) (ht : t = v ++ back) : False := by
      subst hsame ht
      have hopen : Open (s ++ []) := open_signature hkey nofun
      rw [List.append_nil] at hopen
      exact (h.ends_of_open hopen).not_value hv
    rcases List.append_eq_append_iff.1 heq with ⟨inside, hinside, ht⟩ | ⟨behind, hbehind, hvalue⟩
    · cases inside with
      | nil =>
          exact (hseam (by simpa using hinside.symm) (by simpa using ht)).elim
      | cons b inside =>
          obtain ⟨first, name, rfl, -, hname⟩ := isKey_iff.1 hkey
          obtain ⟨c, s, rfl⟩ := List.exists_cons_of_ne_nil hs
          obtain ⟨-, rfl⟩ := List.cons.inj hinside
          rw [ht] at h
          exact (h.head_not_mem_name hname (by simp)).elim
    · cases behind with
      | nil =>
          exact (hseam (by simpa using hbehind) (by simpa using hvalue.symm)).elim
      | cons b behind =>
          obtain ⟨c, more, rfl⟩ := List.exists_cons_of_ne_nil hv.ne_nil
          obtain ⟨rfl, -⟩ := List.cons.inj hvalue
          have hfirst : IsValue [c] := ⟨List.cons_ne_nil _ _, by simpa using hv.all c⟩
          rw [hbehind]
          exact startsAt_signature hkey hfirst behind
  · intro hstart
    obtain ⟨key, v, heq, hkey, hv⟩ := exists_of_startsAt hstart
    rw [heq, List.append_assoc, List.append_assoc]
    exact startsAt_signature hkey hv _

/-- Texts are redacted one by one where nothing reaches from one into the other. -/
theorem redact_append {s t : Bytes} (h : Apart s t) : redact (s ++ t) = redact s ++ redact t := by
  induction s using signature_induction with
  | nil =>
      rfl
  | cons b s hstart ih =>
      have hagain : startsAt (b :: (s ++ t)) = false :=
        (startsAt_append (List.cons_ne_nil b s) h).trans hstart
      rw [redact_cons hstart, List.cons_append, redact_cons hagain, ih (h.of_append [b]),
        List.cons_append]
  | signature key v s hkey hv hends ih =>
      have hrest : Apart s t := by
        rw [← List.append_assoc] at h
        exact h.of_append (key ++ v)
      have hseam : Ends (s ++ t) := hends.append fun hnil => by
        rw [hnil, List.append_nil] at h
        exact h.ends_of_open (open_signature hkey hv.all)
      rw [List.append_assoc, List.append_assoc, redact_signature hkey hv hseam,
        redact_signature hkey hv hends, ih hrest]
      simp only [List.append_assoc]

/-! ## Masked URLs -/

/-- The text that redaction makes of another, and that nothing else can make of it. -/
structure RedactsTo (s r : Bytes) : Prop where
  clean : Clean r
  replaced : Replaced s r
  unique : ∀ r', Clean r' → Replaced s r' → r' = r

theorem redactsTo_redact (s : Bytes) : RedactsTo s (redact s) where
  clean := clean_redact s
  replaced := replaced_redact s
  unique r' hclean hreplaced := by
    rw [hreplaced.sameButValues.redact_eq, redact_of_clean hclean]

end Signature

namespace Redaction

/-- Masking a URL redacts it, does so in one go, and changes nothing where no key has a value. -/
theorem hideUrl_redacts {config : Config} (hsignatures : config.signatures = true) (url : Bytes) :
    Signature.RedactsTo url (hideUrl config url) ∧
      ((∀ front key back, url = front ++ (key ++ back) → Signature.isKey key = true →
        back.takeWhile Signature.isValueByte = []) → hideUrl config url = url) ∧
      hideUrl config (hideUrl config url) = hideUrl config url := by
  simp only [hideUrl, hsignatures, if_true]
  refine ⟨Signature.redactsTo_redact url, fun hnone => ?_, Signature.redact_redact url⟩
  refine Signature.redact_of_clean fun front key back heq hkey => ?_
  exact .inl (hnone front key back heq hkey)

/-- A key without a value, a value that holds a key, a value that ends at a quote, and one that is
the word already. -/
def signedText : Bytes :=
  ascii "?sig=&SIG=a?Sig=b\"c&sig=d e?sig=REDACTED"

theorem signedText_redacts :
    Config.all.signatures = true ∧
      hideUrl .all signedText = ascii "?sig=&SIG=REDACTED\"c&sig=REDACTED e?sig=REDACTED" ∧
      Signature.RedactsTo signedText (hideUrl .all signedText) ∧
      hideUrl .all (hideUrl .all signedText) = hideUrl .all signedText :=
  have hredacts := hideUrl_redacts (show Config.all.signatures = true from rfl) signedText
  ⟨rfl, by decide, hredacts.1, hredacts.2.2⟩

end Redaction

end LakeUpload
