import LakeUpload.Redaction.Masker

/-!
# Texts that differ in signatures only

`SameButValues` holds of two texts that are made of the same bytes but for the values of
signatures, which may differ in every byte and in length. Redaction makes such texts equal, wherever
they stand in a longer text. `Alike` is the same for values that a destination can hold too, so that
such texts are also read alike.
-/

namespace LakeUpload

open Bytes (ascii isBlank isControl isLetter lower ampersand question hash quote equals)

namespace Signature

/-- What a signature can be: bytes, one at least, none of which ends it. -/
structure IsValue (v : Bytes) : Prop where
  ne_nil : v ≠ []
  all : ∀ b ∈ v, isValueByte b = true

instance (v : Bytes) : Decidable (IsValue v) :=
  decidable_of_iff (v ≠ [] ∧ v.all isValueByte = true)
    ⟨fun h => ⟨h.1, List.all_eq_true.1 h.2⟩, fun h => ⟨h.ne_nil, List.all_eq_true.2 h.all⟩⟩

/-- Texts of the same bytes, but for the values behind some of the keys. A value need not be taken
whole: what stands behind it may go on with it. -/
inductive SameButValues : Bytes → Bytes → Prop where
  | nil : SameButValues [] []
  | cons (b : UInt8) {s s' : Bytes} (h : SameButValues s s') : SameButValues (b :: s) (b :: s')
  | value {key v v' s s' : Bytes} (hkey : isKey key = true) (hv : IsValue v) (hv' : IsValue v')
      (h : SameButValues s s') : SameButValues (key ++ (v ++ s)) (key ++ (v' ++ s'))

/-- A byte that a signature may hold in a URL: it ends neither the parameter nor the query. -/
def isSecret (b : UInt8) : Bool := isValueByte b && b != hash && !isControl b

/-- What can stand as the value of a signature. -/
structure Secret (v : Bytes) : Prop where
  ne_nil : v ≠ []
  all : ∀ b ∈ v, isSecret b = true

instance (v : Bytes) : Decidable (Secret v) :=
  decidable_of_iff (v ≠ [] ∧ v.all isSecret = true)
    ⟨fun h => ⟨h.1, List.all_eq_true.1 h.2⟩, fun h => ⟨h.ne_nil, List.all_eq_true.2 h.all⟩⟩

/-- Texts that differ in this way, by values that a destination can hold too. -/
inductive Alike : Bytes → Bytes → Prop where
  | nil : Alike [] []
  | cons (b : UInt8) {s s' : Bytes} (h : Alike s s') : Alike (b :: s) (b :: s')
  | value {key v v' s s' : Bytes} (hkey : isKey key = true) (hv : Secret v) (hv' : Secret v')
      (h : Alike s s') : Alike (key ++ (v ++ s)) (key ++ (v' ++ s'))

/-! ## Keys and values -/

theorem isKey_iff {key : Bytes} : isKey key = true ↔
    ∃ b name, key = b :: name ∧ (b = question ∨ b = ampersand) ∧ lower name = ascii "sig=" := by
  cases key with
  | nil =>
      simp [isKey]
  | cons b name =>
      simp only [isKey, Bool.and_eq_true, Bool.or_eq_true, beq_iff_eq, List.cons.injEq]
      constructor
      · intro h
        exact ⟨b, name, ⟨rfl, rfl⟩, h⟩
      · rintro ⟨_, _, ⟨rfl, rfl⟩, h⟩
        exact h

theorem length_of_isKey {key : Bytes} (h : isKey key = true) : key.length = keyLength := by
  obtain ⟨b, name, rfl, -, hname⟩ := isKey_iff.1 h
  have hlength := congrArg List.length hname
  rw [Bytes.lower_length] at hlength
  rw [List.length_cons, hlength]
  rfl

/-- The name of a key has no bytes but letters and the equals sign. -/
theorem mem_name {b : UInt8} {name : Bytes} (hname : lower name = ascii "sig=") (hb : b ∈ name) :
    isLetter b = true ∨ b = equals := by
  cases hletter : isLetter b with
  | true =>
      exact .inl rfl
  | false =>
      have hall : (ascii "sig=").all (fun b => isLetter b || b == equals) = true := by decide
      rw [← Bytes.mem_lower_iff hletter, hname] at hb
      simpa [hletter] using List.all_eq_true.1 hall b hb

theorem isValueByte_of_isLetter {b : UInt8} (h : isLetter b = true) : isValueByte b = true := by
  simp only [isLetter, Bytes.isUpper, Bytes.isLower, isValueByte, isBlank, ampersand, quote,
    Bool.not_eq_true', Bool.or_eq_false_iff, Bool.and_eq_false_iff, Bool.or_eq_true,
    Bool.and_eq_true, decide_eq_true_eq, decide_eq_false_iff_not, beq_eq_false_iff_ne, ne_eq,
    UInt8.le_iff_toNat_le, ← UInt8.toNat_inj, UInt8.reduceToNat] at h ⊢
  omega

theorem isValueByte_of_mem_name {b : UInt8} {name : Bytes} (hname : lower name = ascii "sig=")
    (hb : b ∈ name) : isValueByte b = true := by
  rcases mem_name hname hb with hletter | rfl
  · exact isValueByte_of_isLetter hletter
  · decide

/-- No key begins inside the name of a key. -/
theorem not_separator_of_mem_name {b : UInt8} {name : Bytes} (hname : lower name = ascii "sig=")
    (hb : b ∈ name) : b ≠ question ∧ b ≠ ampersand := by
  rcases mem_name hname hb with hletter | rfl
  · refine ⟨?_, ?_⟩ <;> rintro rfl <;> cases hletter
  · decide

theorem isValueByte_of_isSecret {b : UInt8} (h : isSecret b = true) : isValueByte b = true := by
  simp only [isSecret, Bool.and_eq_true] at h
  exact h.1.1

theorem not_isSecret_hash : isSecret hash = false := by decide

theorem isShown_of_isSecret {b : UInt8} (h : isSecret b = true) :
    (isBlank b || isControl b) = false := by
  simp only [isSecret, isValueByte, Bool.and_eq_true, Bool.not_eq_true', Bool.or_eq_false_iff] at h
  simp [h.1.1.2, h.2]

theorem Secret.isValue {v : Bytes} (hv : Secret v) : IsValue v :=
  ⟨hv.ne_nil, fun b hb => isValueByte_of_isSecret (hv.all b hb)⟩

theorem dropWhile_value {v : Bytes} (hv : IsValue v) (s : Bytes) :
    (v ++ s).dropWhile isValueByte = s.dropWhile isValueByte := by
  rw [List.dropWhile_append_of_pos hv.all]

/-- What stands behind the value of the key that starts the text. -/
def rest (s : Bytes) : Bytes := (s.drop keyLength).dropWhile isValueByte

theorem drop_value (s : Bytes) : s.drop (keyLength + (value s).length) = rest s := by
  have hparts : value s ++ rest s = s.drop keyLength := List.takeWhile_append_dropWhile
  rw [← List.drop_drop, ← hparts, List.drop_left]

theorem value_ne_nil_iff (s : Bytes) :
    (value s != []) = (s.drop keyLength).head?.any isValueByte := by
  unfold value
  cases s.drop keyLength with
  | nil =>
      rfl
  | cons b more =>
      cases hb : isValueByte b with
      | true =>
          simp [hb]
      | false =>
          simp [hb]

theorem startsAt_signature {key v : Bytes} (hkey : isKey key = true) (hv : IsValue v) (s : Bytes) :
    startsAt (key ++ (v ++ s)) = true := by
  have hlength := length_of_isKey hkey
  obtain ⟨b, more, rfl⟩ := List.exists_cons_of_ne_nil hv.ne_nil
  have hb : isValueByte b = true := hv.all b List.mem_cons_self
  simp [startsAt, value_ne_nil_iff, List.take_left' hlength, List.drop_left' hlength, hkey, hb]

theorem length_rest_lt {s : Bytes} (h : startsAt s = true) : (rest s).length < s.length := by
  have hne : s ≠ [] := by
    rintro rfl
    cases h
  have hpos := List.length_pos_iff.2 hne
  rw [← drop_value, List.length_drop, keyLength]
  omega

/-! ## Texts of the same bytes but for values -/

namespace SameButValues

variable {s s' : Bytes}

theorem refl (s : Bytes) : SameButValues s s := by
  induction s with
  | nil =>
      exact .nil
  | cons b rest ih =>
      exact .cons b ih

theorem symm (h : SameButValues s s') : SameButValues s' s := by
  induction h with
  | nil =>
      exact .nil
  | cons b _ ih =>
      exact .cons b ih
  | value hkey hv hv' _ ih =>
      exact .value hkey hv' hv ih

theorem append_left (front : Bytes) (h : SameButValues s s') :
    SameButValues (front ++ s) (front ++ s') := by
  induction front with
  | nil =>
      exact h
  | cons b _ ih =>
      exact .cons b ih

theorem head? (h : SameButValues s s') : s.head? = s'.head? := by
  cases h with
  | nil =>
      rfl
  | cons b _ =>
      rfl
  | value hkey _ _ _ =>
      obtain ⟨b, name, rfl, -, -⟩ := isKey_iff.1 hkey
      rfl

theorem eq_nil_iff (h : SameButValues s s') : s = [] ↔ s' = [] := by
  rw [← List.head?_eq_none_iff, h.head?, List.head?_eq_none_iff]

/-- Both texts go on like that behind a part in which no key begins. -/
theorem drop {n : Nat} (h : SameButValues s s')
    (hpart : ∀ b ∈ s.take n, b ≠ question ∧ b ≠ ampersand) :
    s'.take n = s.take n ∧ SameButValues (s.drop n) (s'.drop n) := by
  induction n generalizing s s' with
  | zero =>
      exact ⟨rfl, h⟩
  | succ n ih =>
      cases h with
      | nil =>
          exact ⟨rfl, .nil⟩
      | cons b h =>
          have hrest := ih h fun c hc => hpart c (List.mem_cons_of_mem b hc)
          exact ⟨congrArg (b :: ·) hrest.1, hrest.2⟩
      | value hkey _ _ _ =>
          obtain ⟨b, name, rfl, hb, -⟩ := isKey_iff.1 hkey
          obtain ⟨hquestion, hampersand⟩ := hpart b (by simp)
          rcases hb with rfl | rfl
          · exact absurd rfl hquestion
          · exact absurd rfl hampersand

theorem dropWhile (h : SameButValues s s') :
    SameButValues (s.dropWhile isValueByte) (s'.dropWhile isValueByte) := by
  induction h with
  | nil =>
      exact .nil
  | cons b h ih =>
      cases hb : isValueByte b with
      | true =>
          simpa [hb] using ih
      | false =>
          simpa [hb] using cons b h
  | value hkey hv hv' h ih =>
      obtain ⟨b, name, rfl, hb, hname⟩ := isKey_iff.1 hkey
      rcases hb with rfl | rfl
      · -- all of the key belongs to the run of value bytes
        have hkeyBytes : ∀ b ∈ question :: name, isValueByte b = true :=
          List.forall_mem_cons.2 ⟨by decide, fun b => isValueByte_of_mem_name hname⟩
        rw [List.dropWhile_append_of_pos hkeyBytes, List.dropWhile_append_of_pos hkeyBytes,
          dropWhile_value hv, dropWhile_value hv']
        exact ih
      · -- the run ends in front of the key
        exact value hkey hv hv' h

/-- Where one text starts with a signature, the other starts with one too, under the same key. -/
theorem startsAt (h : SameButValues s s') (hstart : startsAt s = true) :
    Signature.startsAt s' = true ∧ s'.take keyLength = s.take keyLength ∧
      SameButValues (rest s) (rest s') := by
  cases h with
  | nil =>
      simp [Signature.startsAt, isKey] at hstart
  | @cons b s s' h =>
      simp only [Signature.startsAt, Bool.and_eq_true, value_ne_nil_iff] at hstart ⊢
      obtain ⟨b, name, hkey, -, hname⟩ := isKey_iff.1 hstart.1
      obtain ⟨rfl, rfl⟩ := List.cons.inj hkey
      obtain ⟨htake, hdrop⟩ := h.drop fun c => not_separator_of_mem_name hname
      have htake' : (b :: s').take keyLength = (b :: s).take keyLength := congrArg (b :: ·) htake
      refine ⟨⟨?_, ?_⟩, htake', hdrop.dropWhile⟩
      · rw [htake']
        exact hstart.1
      · rw [← hstart.2]
        exact congrArg (Option.any isValueByte) hdrop.head?.symm
  | @value key v v' s s' hkey hv hv' h =>
      have hlength := length_of_isKey hkey
      refine ⟨startsAt_signature hkey hv' s', ?_, ?_⟩
      · rw [List.take_left' hlength, List.take_left' hlength]
      · simp only [rest, List.drop_left' hlength, dropWhile_value hv, dropWhile_value hv']
        exact h.dropWhile

theorem startsAt_eq (h : SameButValues s s') : Signature.startsAt s = Signature.startsAt s' := by
  rw [Bool.eq_iff_iff]
  exact ⟨fun hstart => (h.startsAt hstart).1, fun hstart => (h.symm.startsAt hstart).1⟩

/-- Redaction leaves nothing of what the texts differ in. -/
theorem redact_eq (h : SameButValues s s') : redact s = redact s' := by
  induction hn : s.length using Nat.strongRecOn generalizing s s' with
  | ind n ih =>
      cases hstart : Signature.startsAt s with
      | true =>
          obtain ⟨hstart', htake, hrest⟩ := h.startsAt hstart
          have hshorter : (rest s).length < n := hn ▸ length_rest_lt hstart
          rw [redact_of_startsAt hstart, redact_of_startsAt hstart', htake, drop_value, drop_value,
            ih _ hshorter hrest rfl]
      | false =>
          have hstart' := h.startsAt_eq.symm.trans hstart
          cases h with
          | nil =>
              rfl
          | cons b h =>
              rw [redact_cons hstart, redact_cons hstart', ih _ (by simp [← hn]) h rfl]
          | value hkey hv _ _ =>
              rw [startsAt_signature hkey hv] at hstart
              cases hstart

end SameButValues

/-! ## Alike texts -/

namespace Alike

variable {s s' t t' : Bytes}

theorem sameButValues (h : Alike s s') : SameButValues s s' := by
  induction h with
  | nil =>
      exact .nil
  | cons b _ ih =>
      exact .cons b ih
  | value hkey hv hv' _ ih =>
      exact .value hkey hv.isValue hv'.isValue ih

theorem refl (s : Bytes) : Alike s s := by
  induction s with
  | nil =>
      exact .nil
  | cons b rest ih =>
      exact .cons b ih

theorem symm (h : Alike s s') : Alike s' s := by
  induction h with
  | nil =>
      exact .nil
  | cons b _ ih =>
      exact .cons b ih
  | value hkey hv hv' _ ih =>
      exact .value hkey hv' hv ih

theorem append (h : Alike s s') (ht : Alike t t') : Alike (s ++ t) (s' ++ t') := by
  induction h with
  | nil =>
      exact ht
  | cons b _ ih =>
      exact .cons b ih
  | value hkey hv hv' _ ih =>
      simp only [List.append_assoc]
      exact .value hkey hv hv' ih

theorem append_left (front : Bytes) (h : Alike s s') : Alike (front ++ s) (front ++ s') :=
  (refl front).append h

theorem append_right (h : Alike s s') (back : Bytes) : Alike (s ++ back) (s' ++ back) :=
  h.append (refl back)

theorem eq_nil_iff (h : Alike s s') : s = [] ↔ s' = [] := h.sameButValues.eq_nil_iff

/-- A signature takes more than one byte. -/
theorem eq_singleton {b : UInt8} (h : Alike [b] s') : s' = [b] := by
  generalize hs : [b] = s at h
  cases h with
  | nil =>
      cases hs
  | cons b h =>
      obtain ⟨rfl, rfl⟩ := List.cons.inj hs
      rw [h.eq_nil_iff.1 rfl]
  | value hkey _ _ _ =>
      have hlength := congrArg List.length hs
      rw [List.length_append, length_of_isKey hkey, List.length_singleton, keyLength] at hlength
      omega

theorem any_eq (h : Alike s s') {p : UInt8 → Bool} (hp : ∀ b, isSecret b = true → p b = false) :
    s.any p = s'.any p := by
  have hsecret : ∀ {v : Bytes}, Secret v → v.any p = false := by
    intro v hv
    exact List.any_eq_false.2 fun b hb => by simp [hp b (hv.all b hb)]
  induction h with
  | nil =>
      rfl
  | cons b _ ih =>
      simp only [List.any_cons, ih]
  | value _ hv hv' _ ih =>
      simp only [List.any_append, hsecret hv, hsecret hv', ih]

theorem hash_not_mem_signature {key v : Bytes} (hkey : isKey key = true) (hv : Secret v) :
    hash ∉ key ++ v := by
  obtain ⟨b, name, rfl, hb, hname⟩ := isKey_iff.1 hkey
  have hfirst : hash ≠ b := by
    rcases hb with rfl | rfl <;> decide
  have hsecond : hash ∉ name := fun hmem => by
    rcases mem_name hname hmem with hletter | hequals
    · cases hletter
    · cases hequals
  have hthird : hash ∉ v := by
    intro hmem
    have hsecret := hv.all hash hmem
    simp [not_isSecret_hash] at hsecret
  simp [hfirst, hsecond, hthird]

theorem beforeHash (h : Alike s s') :
    Alike (Bytes.cutFirst hash s).1 (Bytes.cutFirst hash s').1 := by
  induction h with
  | nil =>
      exact .nil
  | cons b _ ih =>
      by_cases hb : b = hash
      · simp [Bytes.cutFirst, hb, refl]
      · simpa [Bytes.cutFirst, hb] using cons b ih
  | value hkey hv hv' _ ih =>
      rw [← List.append_assoc, ← List.append_assoc,
        Bytes.cutFirst_append_of_not_mem (hash_not_mem_signature hkey hv),
        Bytes.cutFirst_append_of_not_mem (hash_not_mem_signature hkey hv')]
      simpa using value hkey hv hv' ih

end Alike

end Signature

namespace Redaction

variable {config : Config} {s s' : Bytes}

theorem hideUrl_eq_nil_iff (config : Config) (s : Bytes) : hideUrl config s = [] ↔ s = [] := by
  unfold hideUrl
  split
  · cases hstart : Signature.startsAt s with
    | true =>
        have hne : s ≠ [] := by
          rintro rfl
          cases hstart
        simp [Signature.redact_of_startsAt hstart, hne, Signature.keyLength]
    | false =>
        cases s with
        | nil =>
            simp [Signature.redact_nil]
        | cons b rest =>
            simp [Signature.redact_cons hstart]
  · rfl

theorem hideUrl_eq_of_sameButValues (hsignatures : config.signatures = true)
    (h : Signature.SameButValues s s') : hideUrl config s = hideUrl config s' := by
  simp only [hideUrl, hsignatures, if_true, h.redact_eq]

theorem hideMessage_eq_of_sameButValues (hsignatures : config.signatures = true)
    (h : Signature.SameButValues s s') : hideMessage config s = hideMessage config s' := by
  simp only [hideMessage, hideUrl_eq_of_sameButValues hsignatures h]

end Redaction

end LakeUpload
