/-!
# Byte strings

All text here is a list of bytes, and only the ASCII range has letters, digits, blanks and
controls. `cutFirst` and `cutLast` split a text at a separator; `split` and `join` undo each
other on pieces without it.
-/

namespace LakeUpload

abbrev Bytes := List UInt8

namespace Bytes

/-- The bytes of an ASCII literal. -/
def ascii (s : String) : Bytes :=
  s.toList.map Char.toUInt8

/-! ## Named bytes -/

abbrev slash : UInt8 := 0x2f
abbrev backslash : UInt8 := 0x5c
abbrev colon : UInt8 := 0x3a
abbrev dot : UInt8 := 0x2e
abbrev quote : UInt8 := 0x22
abbrev question : UInt8 := 0x3f
abbrev ampersand : UInt8 := 0x26
abbrev hash : UInt8 := 0x23
abbrev equals : UInt8 := 0x3d
abbrev comma : UInt8 := 0x2c
abbrev openBracket : UInt8 := 0x5b
abbrev closeBracket : UInt8 := 0x5d
abbrev openBrace : UInt8 := 0x7b
abbrev closeBrace : UInt8 := 0x7d
abbrev newline : UInt8 := 0x0a

/-! ## Classes of bytes -/

def isDigit (b : UInt8) : Bool := 0x30 ≤ b && b ≤ 0x39

def isUpper (b : UInt8) : Bool := 0x41 ≤ b && b ≤ 0x5a

def isLower (b : UInt8) : Bool := 0x61 ≤ b && b ≤ 0x7a

def isLetter (b : UInt8) : Bool := isUpper b || isLower b

/-- Space, tab, newline, vertical tab, form feed and carriage return. -/
def isBlank (b : UInt8) : Bool := b == 0x20 || (0x09 ≤ b && b ≤ 0x0d)

def isControl (b : UInt8) : Bool := b < 0x20 || b == 0x7f

def lowerByte (b : UInt8) : UInt8 := if isUpper b then b + 0x20 else b

/-- The text with every ASCII capital letter made small. -/
def lower (s : Bytes) : Bytes := s.map lowerByte

theorem lower_length (s : Bytes) : (lower s).length = s.length := by
  simp [lower]

theorem lower_append (s t : Bytes) : lower (s ++ t) = lower s ++ lower t := by
  simp [lower]

theorem isLower_lowerByte {b : UInt8} (h : isUpper b = true) : isLower (lowerByte b) = true := by
  rw [lowerByte, if_pos h]
  simp only [isUpper, isLower, Bool.and_eq_true, decide_eq_true_eq, UInt8.le_iff_toNat_le,
    UInt8.toNat_add, UInt8.reduceToNat] at h ⊢
  omega

theorem not_isUpper_of_isLower {b : UInt8} (h : isLower b = true) : isUpper b = false := by
  simp only [isUpper, isLower, Bool.and_eq_true, Bool.and_eq_false_iff, decide_eq_true_eq,
    decide_eq_false_iff_not, UInt8.le_iff_toNat_le, UInt8.reduceToNat] at h ⊢
  omega

theorem isUpper_of_isDigit {b : UInt8} (h : isDigit b = true) : isUpper b = false := by
  simp only [isDigit, isUpper, Bool.and_eq_true, Bool.and_eq_false_iff, decide_eq_true_eq,
    decide_eq_false_iff_not, UInt8.le_iff_toNat_le, UInt8.reduceToNat] at h ⊢
  omega

theorem lowerByte_of_not_isUpper {b : UInt8} (h : isUpper b = false) : lowerByte b = b := by
  simp [lowerByte, h]

theorem lowerByte_lowerByte (b : UInt8) : lowerByte (lowerByte b) = lowerByte b := by
  cases hb : isUpper b with
  | false =>
      rw [lowerByte_of_not_isUpper hb, lowerByte_of_not_isUpper hb]
  | true =>
      exact lowerByte_of_not_isUpper (not_isUpper_of_isLower (isLower_lowerByte hb))

theorem lower_lower (s : Bytes) : lower (lower s) = lower s := by
  simp [lower, lowerByte_lowerByte]

/-- Only letters change, and they stay letters. -/
theorem lowerByte_eq_iff {b c : UInt8} (hc : isLetter c = false) : lowerByte b = c ↔ b = c := by
  obtain ⟨hupper, hlower⟩ := Bool.or_eq_false_iff.1 hc
  cases hb : isUpper b with
  | false =>
      rw [lowerByte_of_not_isUpper hb]
  | true =>
      constructor
      · intro h
        rw [← h, isLower_lowerByte hb] at hlower
        cases hlower
      · intro h
        rw [h, hupper] at hb
        cases hb

theorem mem_lower_iff {c : UInt8} (hc : isLetter c = false) {s : Bytes} : c ∈ lower s ↔ c ∈ s := by
  simp [lower, lowerByte_eq_iff hc]

theorem forall_mem_lower_iff {p : UInt8 → Prop} (hp : ∀ b, p (lowerByte b) ↔ p b) {s : Bytes} :
    (∀ b ∈ lower s, p b) ↔ ∀ b ∈ s, p b := by
  simp [lower, hp]

theorem exists_append_of_lower_eq {s front back : Bytes} (h : lower s = lower (front ++ back)) :
    ∃ front' back',
      s = front' ++ back' ∧ lower front' = lower front ∧ lower back' = lower back := by
  rw [lower_append] at h
  exact List.map_eq_append_iff.1 h

theorem exists_cons_of_lower_eq {c : UInt8} (hc : isLetter c = false) {s back : Bytes}
    (h : lower s = lower (c :: back)) : ∃ back', s = c :: back' ∧ lower back' = lower back := by
  obtain ⟨b, back', rfl, hb, hback⟩ := List.map_eq_cons_iff.1 h
  have hself : lowerByte c = c := (lowerByte_eq_iff hc).2 rfl
  rw [hself, lowerByte_eq_iff hc] at hb
  exact ⟨back', by rw [hb], hback⟩

/-- A text without letters can be written in one way only. -/
theorem eq_of_lower_eq {s t : Bytes} (ht : ∀ b ∈ t, isLetter b = false) (h : lower s = lower t) :
    s = t := by
  induction t generalizing s with
  | nil =>
      simpa [lower] using h
  | cons b rest ih =>
      obtain ⟨back, rfl, hback⟩ := exists_cons_of_lower_eq (ht b List.mem_cons_self) h
      rw [ih (fun c hc => ht c (List.mem_cons_of_mem b hc)) hback]

/-! ## Cutting at a separator -/

/-- The part before the first `c`, and the part after it if there is one. -/
def cutFirst (c : UInt8) : Bytes → Bytes × Option Bytes
  | [] => ([], none)
  | b :: rest =>
      if b = c then ([], some rest)
      else (b :: (cutFirst c rest).1, (cutFirst c rest).2)

/-- A part without `c` stays in front of the cut. -/
theorem cutFirst_append_of_not_mem {c : UInt8} {s : Bytes} (hc : c ∉ s) (t : Bytes) :
    cutFirst c (s ++ t) = (s ++ (cutFirst c t).1, (cutFirst c t).2) := by
  induction s with
  | nil =>
      rfl
  | cons b rest ih =>
      have hb : b ≠ c := fun h => hc (by simp [h])
      have hrest : c ∉ rest := fun h => hc (by simp [h])
      simp [cutFirst, hb, ih hrest]

theorem cutFirst_of_not_mem {c : UInt8} {s : Bytes} (hc : c ∉ s) :
    cutFirst c s = (s, none) := by
  simpa [cutFirst] using cutFirst_append_of_not_mem hc []

theorem cutFirst_append {c : UInt8} {s : Bytes} (hc : c ∉ s) (t : Bytes) :
    cutFirst c (s ++ c :: t) = (s, some t) := by
  simp [cutFirst_append_of_not_mem hc, cutFirst]

theorem cutFirst_fst_not_mem (c : UInt8) (s : Bytes) : c ∉ (cutFirst c s).1 := by
  induction s with
  | nil =>
      simp [cutFirst]
  | cons b rest ih =>
      by_cases hb : b = c
      · simp [cutFirst, hb]
      · simp [cutFirst, hb, ih, Ne.symm hb]

theorem append_of_cutFirst {c : UInt8} {s t : Bytes} (h : (cutFirst c s).2 = some t) :
    s = (cutFirst c s).1 ++ c :: t := by
  induction s with
  | nil =>
      simp [cutFirst] at h
  | cons b rest ih =>
      by_cases hb : b = c
      · simp only [cutFirst, hb, if_true, Option.some.injEq] at h
        simp [cutFirst, hb, h]
      · simp only [cutFirst, hb, if_false] at h
        simp only [cutFirst, hb, if_false, List.cons_append, ← ih h]

theorem cutFirst_fst_of_none {c : UInt8} {s : Bytes} (h : (cutFirst c s).2 = none) :
    (cutFirst c s).1 = s := by
  induction s with
  | nil =>
      rfl
  | cons b rest ih =>
      by_cases hb : b = c
      · simp [cutFirst, hb] at h
      · simp only [cutFirst, hb, if_false] at h
        simp only [cutFirst, hb, if_false, ih h]

theorem cutFirst_fst_subset (c : UInt8) (s : Bytes) : (cutFirst c s).1 ⊆ s := by
  intro b hb
  cases h : (cutFirst c s).2 with
  | none =>
      rwa [cutFirst_fst_of_none h] at hb
  | some t =>
      rw [append_of_cutFirst h]
      exact List.mem_append_left _ hb

/-- The parts around the last byte with a property, if there is one. -/
def cutLastBy (p : UInt8 → Bool) : Bytes → Option (Bytes × Bytes)
  | [] => none
  | b :: rest =>
      match cutLastBy p rest with
      | some (before, after) => some (b :: before, after)
      | none => if p b then some ([], rest) else none

theorem cutLastBy_eq_none_iff {p : UInt8 → Bool} {s : Bytes} :
    cutLastBy p s = none ↔ ∀ b ∈ s, p b = false := by
  induction s with
  | nil =>
      simp [cutLastBy]
  | cons b rest ih =>
      cases hrest : cutLastBy p rest with
      | none =>
          have hnone := ih.1 hrest
          cases hb : p b with
          | false =>
              simpa [cutLastBy, hrest, hb] using hnone
          | true =>
              simp [cutLastBy, hrest, hb]
      | some parts =>
          have hsome : ¬ ∀ b ∈ rest, p b = false := by
            intro h
            simp [ih.2 h] at hrest
          simp only [cutLastBy, hrest, reduceCtorEq, List.forall_mem_cons, false_iff]
          exact fun h => hsome h.2

theorem cutLastBy_append {p : UInt8 → Bool} {c : UInt8} {t : Bytes} (hc : p c = true)
    (ht : ∀ b ∈ t, p b = false) (s : Bytes) : cutLastBy p (s ++ c :: t) = some (s, t) := by
  induction s with
  | nil =>
      simp [cutLastBy, cutLastBy_eq_none_iff.2 ht, hc]
  | cons b rest ih =>
      simp [cutLastBy, ih]

theorem append_of_cutLastBy {p : UInt8 → Bool} {s before after : Bytes}
    (h : cutLastBy p s = some (before, after)) :
    ∃ c, p c = true ∧ s = before ++ c :: after ∧ ∀ b ∈ after, p b = false := by
  induction s generalizing before with
  | nil =>
      cases h
  | cons b rest ih =>
      unfold cutLastBy at h
      split at h
      · rename_i front back hrest
        cases h
        obtain ⟨c, hc, happend, hafter⟩ := ih hrest
        exact ⟨c, hc, by rw [happend, List.cons_append], hafter⟩
      · rename_i hrest
        split at h
        · rename_i hb
          cases h
          exact ⟨b, hb, rfl, cutLastBy_eq_none_iff.1 hrest⟩
        · cases h

/-- The parts around the last `c`, if there is one. -/
def cutLast (c : UInt8) (s : Bytes) : Option (Bytes × Bytes) := cutLastBy (· == c) s

theorem cutLast_eq_none_iff {c : UInt8} {s : Bytes} : cutLast c s = none ↔ c ∉ s := by
  unfold cutLast
  rw [cutLastBy_eq_none_iff]
  constructor
  · intro h hmem
    simpa using h c hmem
  · intro h b hb
    have hne : b ≠ c := fun heq => h (heq ▸ hb)
    simpa using hne

theorem cutLast_append {c : UInt8} {t : Bytes} (hc : c ∉ t) (s : Bytes) :
    cutLast c (s ++ c :: t) = some (s, t) := by
  apply cutLastBy_append (by simp)
  intro b hb
  have hne : b ≠ c := fun heq => hc (heq ▸ hb)
  simpa using hne

theorem append_of_cutLast {c : UInt8} {s before after : Bytes}
    (h : cutLast c s = some (before, after)) : s = before ++ c :: after ∧ c ∉ after := by
  obtain ⟨d, hd, happend, hafter⟩ := append_of_cutLastBy h
  have hdc : d = c := by simpa using hd
  refine ⟨hdc ▸ happend, ?_⟩
  intro hmem
  have hself := hafter c hmem
  simp at hself

/-- Slash or backslash. -/
def isSeparator (b : UInt8) : Bool := b == slash || b == backslash

/-! ## Pieces between separators -/

/-- The pieces between the occurrences of `c`, empty ones included. -/
def split (c : UInt8) : Bytes → List Bytes
  | [] => [[]]
  | b :: rest =>
      if b = c then [] :: split c rest
      else
        match split c rest with
        | [] => [[b]]
        | piece :: pieces => (b :: piece) :: pieces

/-- The pieces with one `c` between any two neighbours. -/
def join (c : UInt8) : List Bytes → Bytes
  | [] => []
  | [piece] => piece
  | piece :: pieces => piece ++ c :: join c pieces

theorem split_ne_nil (c : UInt8) (s : Bytes) : split c s ≠ [] := by
  cases s with
  | nil =>
      simp [split]
  | cons b rest =>
      unfold split
      split
      · simp
      · split <;> simp

theorem split_append_cons (c : UInt8) (s t : Bytes) :
    split c (s ++ c :: t) = split c s ++ split c t := by
  induction s with
  | nil =>
      simp [split]
  | cons b rest ih =>
      by_cases hb : b = c
      · simp [split, hb, ih]
      · cases hrest : split c rest with
        | nil =>
            exact absurd hrest (split_ne_nil c rest)
        | cons piece pieces =>
            simp [split, hb, ih, hrest]

theorem split_of_not_mem {c : UInt8} {s : Bytes} (hc : c ∉ s) : split c s = [s] := by
  induction s with
  | nil =>
      rfl
  | cons b rest ih =>
      have hb : b ≠ c := fun h => hc (by simp [h])
      have hrest : c ∉ rest := fun h => hc (by simp [h])
      simp [split, hb, ih hrest]

theorem split_append {c : UInt8} {s : Bytes} (hc : c ∉ s) (t : Bytes) :
    split c (s ++ c :: t) = s :: split c t := by
  rw [split_append_cons, split_of_not_mem hc, List.singleton_append]

theorem split_join {c : UInt8} {pieces : List Bytes} (hne : pieces ≠ [])
    (hc : ∀ piece ∈ pieces, c ∉ piece) : split c (join c pieces) = pieces := by
  induction pieces with
  | nil =>
      exact absurd rfl hne
  | cons piece rest ih =>
      have hpiece : c ∉ piece := hc piece (by simp)
      cases rest with
      | nil =>
          simpa [join] using split_of_not_mem hpiece
      | cons next others =>
          have htail := ih (by simp) (fun p hp => hc p (by simp [hp]))
          simp [join, split_append hpiece, htail]

theorem join_split (c : UInt8) (s : Bytes) : join c (split c s) = s := by
  induction s with
  | nil =>
      rfl
  | cons b rest ih =>
      cases hsplit : split c rest with
      | nil =>
          exact absurd hsplit (split_ne_nil c rest)
      | cons piece pieces =>
          rw [hsplit] at ih
          by_cases hb : b = c
          · simp [split, hb, hsplit, join, ih]
          · rw [split, if_neg hb, hsplit, ← ih]
            cases pieces <;> rfl

theorem mem_split {c : UInt8} {s piece : Bytes} (h : piece ∈ split c s) :
    c ∉ piece ∧ ∀ b ∈ piece, b ∈ s := by
  induction s generalizing piece with
  | nil =>
      simp only [split, List.mem_singleton] at h
      simp [h]
  | cons b rest ih =>
      unfold split at h
      split at h
      · rcases List.mem_cons.1 h with hfirst | hrest
        · simp [hfirst]
        · obtain ⟨hout, hin⟩ := ih hrest
          exact ⟨hout, fun a ha => List.mem_cons_of_mem b (hin a ha)⟩
      · rename_i hb
        cases hsplit : split c rest with
        | nil =>
            exact absurd hsplit (split_ne_nil c rest)
        | cons first others =>
            rw [hsplit] at h ih
            rcases List.mem_cons.1 h with hfirst | hrest
            · obtain ⟨hout, hin⟩ := ih List.mem_cons_self
              rw [hfirst]
              refine ⟨?_, ?_⟩
              · simp [Ne.symm hb, hout]
              · intro a ha
                rcases List.mem_cons.1 ha with rfl | ha
                · exact List.mem_cons_self
                · exact List.mem_cons_of_mem b (hin a ha)
            · obtain ⟨hout, hin⟩ := ih (List.mem_cons_of_mem first hrest)
              exact ⟨hout, fun a ha => List.mem_cons_of_mem b (hin a ha)⟩

theorem mem_join {c b : UInt8} {pieces : List Bytes} (h : b ∈ join c pieces) :
    b = c ∨ ∃ piece ∈ pieces, b ∈ piece := by
  induction pieces with
  | nil =>
      cases h
  | cons piece rest ih =>
      cases rest with
      | nil =>
          exact .inr ⟨piece, List.mem_cons_self, h⟩
      | cons next others =>
          rcases List.mem_append.1 h with hpiece | hrest
          · exact .inr ⟨piece, List.mem_cons_self, hpiece⟩
          · rcases List.mem_cons.1 hrest with hb | hrest
            · exact .inl hb
            · rcases ih hrest with hb | ⟨later, hlater, hb⟩
              · exact .inl hb
              · exact .inr ⟨later, List.mem_cons_of_mem piece hlater, hb⟩

/-- The part of the text up to its first zero byte. -/
def untilZero (s : Bytes) : Bytes := s.takeWhile (· != 0)

end Bytes

end LakeUpload
