import LakeUpload.Json.Reader
import LakeUpload.Json.Writer

/-!
# Strings that need no escapes

A text that is put between quotes as it is comes back from a reader exactly if it is plain: without
quotes, backslashes and control bytes. A text with a backslash cannot come back by accident, for no
escape is as short as what it stands for, so that the first quote always moves to the front.
-/

namespace LakeUpload

open Bytes (ascii quote backslash isDigit)

namespace Json

/-- A byte that stands for itself between quotes. -/
def PlainByte (b : UInt8) : Prop := b ≠ quote ∧ b ≠ backslash ∧ ¬ b < 0x20

def Plain (s : Bytes) : Prop := ∀ b ∈ s, PlainByte b

instance (b : UInt8) : Decidable (PlainByte b) :=
  inferInstanceAs (Decidable (_ ∧ _ ∧ _))

instance (s : Bytes) : Decidable (Plain s) :=
  decidable_of_iff (s.all fun b => decide (PlainByte b)) (by simp [Plain])

theorem plain_cons {b : UInt8} {s : Bytes} : Plain (b :: s) ↔ PlainByte b ∧ Plain s :=
  List.forall_mem_cons

/-- What a reader gave can be told from what it was made part of. -/
theorem eq_some_of_map {α β : Type} {f : α → β} (hf : ∀ a a', f a = f a' → a = a')
    {read : Option (α × Bytes)} {a : α} {rest : Bytes}
    (h : (read.map fun r => (f r.1, r.2)) = some (f a, rest)) : read = some (a, rest) := by
  obtain ⟨found, hfound, heq⟩ := Option.map_eq_some_iff.1 h
  obtain ⟨hvalue, hrest⟩ := Prod.mk.inj heq
  rw [hfound, ← hf _ _ hvalue, ← hrest]

/-- A plain text is read up to the quote behind it. -/
theorem readString_of_plain {s : Bytes} (h : Plain s) (rest : Bytes) :
    readString (s ++ quote :: rest) = some (s, rest) := by
  induction s with
  | nil =>
      exact readString_quote rest
  | cons b s ih =>
      obtain ⟨⟨hquote, hbackslash, hcontrol⟩, hs⟩ := plain_cons.1 h
      rw [List.cons_append, readString_plain hquote hbackslash hcontrol, ih hs]
      rfl

/-! ## What an escape uses up -/

/-- What a reader used up for what it gave: not less, and no quote unless it gave one. -/
def UsesUp (s out rest : Bytes) : Prop :=
  ∃ used, s = used ++ rest ∧ out.length ≤ used.length ∧ (out.head? = some quote ∨ quote ∉ used)

theorem hexValue?_quote : hexValue? quote = none := by decide

theorem exists_of_readUnit {s rest : Bytes} {unit : Nat} (h : readUnit s = some (unit, rest)) :
    ∃ used, s = used ++ rest ∧ used.length = 4 ∧ quote ∉ used := by
  unfold readUnit at h
  split at h
  · rename_i a b c d tail
    simp only [bind, Option.bind_eq_some_iff, pure, Option.some.injEq, Prod.mk.injEq] at h
    obtain ⟨_, ha, _, hb, _, hc, _, hd, -, rfl⟩ := h
    refine ⟨[a, b, c, d], rfl, rfl, ?_⟩
    intro hmem
    simp only [List.mem_cons, List.not_mem_nil, or_false] at hmem
    rcases hmem with rfl | rfl | rfl | rfl <;> simp [hexValue?_quote] at *
  · cases h

theorem length_utf8_le (code : Nat) : (utf8 code).length ≤ 4 := by
  unfold utf8
  split
  · simp
  · split
    · simp
    · split <;> simp

theorem usesUp_of_readCodePoint {s out rest : Bytes} (h : readCodePoint s = some (out, rest)) :
    UsesUp s out rest := by
  unfold readCodePoint at h
  cases hunit : readUnit s with
  | none =>
      simp [hunit] at h
  | some read =>
      obtain ⟨used, hs, hlength, hquote⟩ := exists_of_readUnit hunit
      simp only [hunit] at h
      split at h
      · cases hlow : readUnit (read.2.drop 2) with
        | none =>
            simp [hlow] at h
        | some second =>
            obtain ⟨usedLow, hsLow, hlengthLow, hquoteLow⟩ := exists_of_readUnit hlow
            simp only [hlow] at h
            split at h
            · rename_i hpair
              simp only [Option.some.injEq, Prod.mk.injEq] at h
              obtain ⟨rfl, rfl⟩ := h
              refine ⟨used ++ (ascii "\\u" ++ usedLow), ?_, ?_, .inr ?_⟩
              · rw [hs, ← hpair.1, List.append_assoc, List.append_assoc, ← hsLow,
                  List.take_append_drop]
              · have hle := length_utf8_le (0x10000 + (read.1 - 0xd800) * 1024 +
                  (second.1 - 0xdc00))
                simp only [List.length_append]
                omega
              · have hescape : quote ∉ ascii "\\u" := by decide
                simp [hquote, hescape, hquoteLow]
            · cases h
      · split at h
        · cases h
        · simp only [Option.some.injEq, Prod.mk.injEq] at h
          obtain ⟨rfl, rfl⟩ := h
          have hle := length_utf8_le read.1
          exact ⟨used, hs, by omega, .inr hquote⟩

theorem usesUp_of_readEscape {s out rest : Bytes} (h : readEscape s = some (out, rest)) :
    UsesUp s out rest := by
  cases s with
  | nil =>
      cases h
  | cons b tail =>
      cases hletter : letterEscape? b with
      | some c =>
          rw [readEscape_of_letter hletter] at h
          simp only [Option.some.injEq, Prod.mk.injEq] at h
          obtain ⟨rfl, rfl⟩ := h
          refine ⟨[b], rfl, by simp, ?_⟩
          by_cases hquote : b = quote
          · subst hquote
            cases hletter
            exact .inl rfl
          · exact .inr (by simpa using Ne.symm hquote)
      | none =>
          by_cases hcode : b = 0x75
          · simp only [readEscape, hletter] at h
            rw [if_pos hcode] at h
            obtain ⟨used, hs, hlength, hquote⟩ := usesUp_of_readCodePoint h
            refine ⟨b :: used, by rw [hs]; rfl, ?_, ?_⟩
            · simp only [List.length_cons]
              omega
            · refine hquote.imp_right fun hused => ?_
              have hletter : quote ≠ b := by
                rw [hcode]
                decide
              simp [hletter, hused]
          · simp [readEscape, hletter, hcode] at h

/-! ## The first quote -/

/-- How many bytes stand before the first quote. -/
def untilQuote (s : Bytes) : Nat := (s.takeWhile (· != quote)).length

theorem untilQuote_quote (s : Bytes) : untilQuote (quote :: s) = 0 := by
  simp [untilQuote]

theorem untilQuote_cons {b : UInt8} (h : b ≠ quote) (s : Bytes) :
    untilQuote (b :: s) = untilQuote s + 1 := by
  simp [untilQuote, h]

theorem untilQuote_append_of_not_mem {s : Bytes} (h : quote ∉ s) (t : Bytes) :
    untilQuote (s ++ t) = s.length + untilQuote t := by
  induction s with
  | nil =>
      simp
  | cons b s ih =>
      have hb : b ≠ quote := fun heq => h (by simp [heq])
      have hs : quote ∉ s := fun hmem => h (by simp [hmem])
      rw [List.cons_append, untilQuote_cons hb, ih hs, List.length_cons]
      omega

theorem untilQuote_append_le (s t : Bytes) : untilQuote (s ++ t) ≤ s.length + untilQuote t := by
  induction s with
  | nil =>
      simp
  | cons b s ih =>
      by_cases hb : b = quote
      · rw [hb, List.cons_append, untilQuote_quote]
        exact Nat.zero_le _
      · rw [List.cons_append, untilQuote_cons hb, List.length_cons]
        omega

/-- A quote behind a text does not come before one inside it. -/
theorem untilQuote_append_quote (s t : Bytes) : untilQuote (s ++ quote :: t) = untilQuote s := by
  induction s with
  | nil =>
      exact untilQuote_quote t
  | cons b s ih =>
      by_cases hb : b = quote
      · rw [hb, List.cons_append, untilQuote_quote, untilQuote_quote]
      · rw [List.cons_append, untilQuote_cons hb, untilQuote_cons hb, ih]

theorem untilQuote_escape_lt {s out rest more : Bytes} (h : UsesUp s out rest)
    (hmore : untilQuote more ≤ untilQuote rest) :
    untilQuote (out ++ more) < untilQuote (backslash :: s) := by
  obtain ⟨used, rfl, hlength, hquote⟩ := h
  rw [untilQuote_cons (by decide)]
  rcases hquote with hhead | hused
  · cases out with
    | nil =>
        cases hhead
    | cons b out =>
        have hb : b = quote := by simpa using hhead
        rw [hb, List.cons_append, untilQuote_quote]
        exact Nat.succ_pos _
  · have hle := untilQuote_append_le out more
    rw [untilQuote_append_of_not_mem hused]
    omega

theorem untilQuote_readString_le {s out rest : Bytes} (h : readString s = some (out, rest)) :
    untilQuote out ≤ untilQuote s := by
  fun_induction readString s generalizing out with
  | case1 | case3 | case5 =>
      cases h
  | case2 tail =>
      cases h
      exact Nat.zero_le _
  | case4 tail more tail' hescape _ ih =>
      obtain ⟨read, hread, heq⟩ := Option.map_eq_some_iff.1 h
      cases heq
      exact Nat.le_of_lt (untilQuote_escape_lt (usesUp_of_readEscape hescape) (ih hread))
  | case6 b tail hquote _ _ ih =>
      obtain ⟨read, hread, heq⟩ := Option.map_eq_some_iff.1 h
      cases heq
      rw [untilQuote_cons hquote, untilQuote_cons hquote]
      exact Nat.succ_le_succ (ih hread)

/-- An escape moves the first quote to the front. -/
theorem untilQuote_readString_lt {s out rest : Bytes}
    (h : readString (backslash :: s) = some (out, rest)) :
    untilQuote out < untilQuote (backslash :: s) := by
  cases hescape : readEscape s with
  | none =>
      rw [readString] at h
      have hne : ¬ (backslash = quote) := by decide
      simp only [hne, if_false, if_true] at h
      split at h
      · cases h
      · rename_i hsome
        rw [hescape] at hsome
        cases hsome
  | some read =>
      obtain ⟨first, after⟩ := read
      rw [readString_escape_of hescape] at h
      obtain ⟨more, hmore, heq⟩ := Option.map_eq_some_iff.1 h
      cases heq
      exact untilQuote_escape_lt (usesUp_of_readEscape hescape) (untilQuote_readString_le hmore)

/-- A text between quotes comes back only if it is plain. -/
theorem plain_of_readString {s rest out : Bytes}
    (h : readString (s ++ quote :: rest) = some (s, out)) : Plain s := by
  induction s with
  | nil =>
      intro b hb
      cases hb
  | cons b s ih =>
      by_cases hquote : b = quote
      · rw [hquote, List.cons_append, readString_quote] at h
        cases h
      · by_cases hbackslash : b = backslash
        · subst hbackslash
          have hlt : untilQuote (backslash :: s) < untilQuote (backslash :: s ++ quote :: rest) :=
            untilQuote_readString_lt h
          rw [untilQuote_append_quote] at hlt
          exact absurd hlt (Nat.lt_irrefl _)
        · by_cases hcontrol : b < 0x20
          · rw [List.cons_append, readString] at h
            simp [hquote, hbackslash, hcontrol] at h
          · rw [List.cons_append, readString_plain hquote hbackslash hcontrol] at h
            have hrest := eq_some_of_map (fun _ _ heq => (List.cons.inj heq).2) h
            exact plain_cons.2 ⟨⟨hquote, hbackslash, hcontrol⟩, ih hrest⟩

end Json

end LakeUpload
