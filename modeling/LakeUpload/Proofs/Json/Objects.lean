import LakeUpload.Proofs.Json.Strings

/-!
# Written objects read back

`Spelled` says when a written value comes back from a reader: the value is read whatever follows
it, if and only if a condition holds. `Spells` puts the members of an object together, whose
conditions add up, and `read?_eq_some_iff` is what all of it comes to for a whole text.
-/

namespace LakeUpload

open Bytes (ascii quote backslash colon comma openBrace closeBrace isDigit decimal decimalInt)

namespace Json

/-- The text does not start with anything that a number could go on with. -/
def Stops (rest : Bytes) : Prop :=
  ∀ b, rest.head? = some b → isDigit b = false ∧ b ≠ Bytes.dot ∧ b ≠ 0x65 ∧ b ≠ 0x45

theorem stops_nil : Stops [] := nofun

theorem stops_comma (rest : Bytes) : Stops (comma :: rest) := by
  rintro b ⟨⟩
  decide

theorem stops_closeBrace (rest : Bytes) : Stops (closeBrace :: rest) := by
  rintro b ⟨⟩
  decide

/-- A written value that a reader gives back if and only if it is clean. -/
structure Spelled (text : Bytes) (value : Value) (clean : Prop) : Prop where
  read : clean → ∀ {depth rest}, text.length < depth → Stops rest →
    readValue depth (text ++ rest) = some (value, rest)
  clean : ∀ {depth rest out}, text.length < depth → Stops rest →
    readValue depth (text ++ rest) = some (value, out) → clean

theorem Spelled.read?_eq_some_iff {text : Bytes} {value : Value} {clean : Prop}
    (h : Spelled text value clean) : read? text = some value ↔ clean := by
  have hdepth : text.length < text.length + 1 := Nat.lt_succ_self _
  constructor
  · intro hread
    unfold read? at hread
    split at hread
    · rename_i found rest hfound
      split at hread
      · cases hread
        have hread : readValue (text.length + 1) (text ++ []) = some (value, rest) := by
          rw [List.append_nil]
          exact hfound
        exact h.clean hdepth stops_nil hread
      · cases hread
    · cases hread
  · intro hclean
    have hread := h.read hclean hdepth stops_nil
    rw [List.append_nil] at hread
    simp [read?, hread, skip]

/-! ## Texts -/

theorem skip_cons {b : UInt8} (h : isBlank b = false) (rest : Bytes) :
    skip (b :: rest) = b :: rest := by
  simp [skip, h]

theorem readValue_quoted (depth : Nat) (s rest : Bytes) :
    readValue (depth + 1) (quoted s ++ rest) =
      (readString (s ++ quote :: rest)).map fun r => (.text r.1, r.2) := by
  have hquoted : quoted s ++ rest = quote :: (s ++ quote :: rest) := by
    simp [quoted]
  rw [hquoted, readValue, skip_cons (by decide)]
  simp

theorem spelled_quoted (s : Bytes) : Spelled (quoted s) (.text s) (Plain s) where
  read hplain {depth rest} hdepth _ := by
    obtain ⟨depth, rfl⟩ := Nat.exists_eq_add_of_lt hdepth
    rw [readValue_quoted, readString_of_plain hplain]
    rfl
  clean {depth rest out} hdepth _ hread := by
    obtain ⟨depth, rfl⟩ := Nat.exists_eq_add_of_lt hdepth
    rw [readValue_quoted] at hread
    exact plain_of_readString (eq_some_of_map (fun _ _ => Value.text.inj) hread)

theorem spelled_escape (s : Bytes) : Spelled (quoted (escape s)) (.text s) True where
  read _ {depth rest} hdepth _ := by
    obtain ⟨depth, rfl⟩ := Nat.exists_eq_add_of_lt hdepth
    rw [readValue_quoted, readString_escape]
    rfl
  clean _ _ _ := trivial

/-! ## Numbers -/

theorem eq_zero_of_head?_decimal {n : Nat} (h : (decimal n).head? = some 0x30) : n = 0 := by
  induction n using Nat.strongRecOn with
  | ind n ih =>
      rw [Bytes.decimal_eq] at h
      by_cases hn : n < 10
      · match n, hn with
        | 0, _ => rfl
        | 1, _ | 2, _ | 3, _ | 4, _ | 5, _ | 6, _ | 7, _ | 8, _ | 9, _ => revert h; decide
      · rw [if_neg hn] at h
        have hhead : (decimal (n / 10)).head? = some 0x30 := by
          cases hdecimal : decimal (n / 10) with
          | nil =>
              exact absurd hdecimal (Bytes.decimal_ne_nil _)
          | cons b rest =>
              rwa [hdecimal] at h
        have hzero := ih (n / 10) (by omega) hhead
        omega

theorem readDigits_decimal (n : Nat) {rest : Bytes} (hrest : Stops rest) :
    readDigits (decimal n ++ rest) = some (n, rest) := by
  have hall : ∀ b ∈ decimal n, isDigit b = true := List.all_eq_true.1 (Bytes.decimal_all_digits n)
  have htake : (decimal n ++ rest).takeWhile isDigit = decimal n := by
    rw [List.takeWhile_append_of_pos hall]
    cases rest with
    | nil =>
        simp
    | cons b rest =>
        simp [(hrest b rfl).1]
  have hdrop : (decimal n ++ rest).dropWhile isDigit = rest := by
    rw [List.dropWhile_append_of_pos hall]
    cases rest with
    | nil =>
        rfl
    | cons b rest =>
        simp [(hrest b rfl).1]
  have hzeros : ¬ ((decimal n).length > 1 ∧ (decimal n).head? = some 0x30) := by
    rintro ⟨hlength, hhead⟩
    rw [eq_zero_of_head?_decimal hhead] at hlength
    revert hlength
    decide
  unfold readDigits
  simp only [htake, hdrop, if_neg hzeros, Bytes.ofDigits?_decimal, Option.map_some]

theorem minus_not_mem_decimal (n : Nat) : 0x2d ∉ decimal n := by
  intro hmem
  have hdigit := List.all_eq_true.1 (Bytes.decimal_all_digits n) _ hmem
  revert hdigit
  decide

theorem readNumber_decimalInt (n : Int) {rest : Bytes} (hrest : Stops rest) :
    readNumber (decimalInt n ++ rest) = some (n, rest) := by
  have hkeep : (rest.head?.all fun b => b != Bytes.dot && b != 0x65 && b != 0x45) = true := by
    cases rest with
    | nil =>
        rfl
    | cons b rest =>
        obtain ⟨-, hdot, hsmall, hcapital⟩ := hrest b rfl
        simp [hdot, hsmall, hcapital]
  by_cases hneg : n < 0
  · obtain ⟨m, hm⟩ : ∃ m, n.natAbs = m := ⟨_, rfl⟩
    have habs : n = -(m : Int) := by omega
    rw [decimalInt, if_pos hneg, hm, List.cons_append, habs]
    simp [readNumber, readDigits_decimal _ hrest, hkeep]
  · have habs : (n.natAbs : Int) = n := by omega
    rw [decimalInt, if_neg hneg]
    have hread := readDigits_decimal n.natAbs hrest
    cases hdecimal : decimal n.natAbs with
    | nil =>
        exact absurd hdecimal (Bytes.decimal_ne_nil _)
    | cons b digits =>
        have hminus : b ≠ 0x2d := by
          rintro rfl
          exact minus_not_mem_decimal n.natAbs (by simp [hdecimal])
        rw [hdecimal] at hread
        rw [List.cons_append] at hread ⊢
        simp [readNumber, hminus, hread, habs, hkeep]

/-- A number starts like no other value. -/
theorem decimalInt_eq_cons (n : Int) : ∃ b digits, decimalInt n = b :: digits ∧ b ≠ quote ∧
    b ≠ openBrace ∧ isBlank b = false := by
  by_cases hneg : n < 0
  · exact ⟨0x2d, decimal n.natAbs, by rw [decimalInt, if_pos hneg], by decide⟩
  · cases hdecimal : decimal n.natAbs with
    | nil =>
        exact absurd hdecimal (Bytes.decimal_ne_nil _)
    | cons b digits =>
        have hdigit := List.all_eq_true.1 (Bytes.decimal_all_digits n.natAbs) b (by simp [hdecimal])
        refine ⟨b, digits, by rw [decimalInt, if_neg hneg, hdecimal], ?_, ?_, ?_⟩
        · rintro rfl
          revert hdigit
          decide
        · rintro rfl
          revert hdigit
          decide
        · obtain ⟨d, hd, rfl⟩ := Bytes.exists_digit_of_isDigit hdigit
          match d, hd with
          | 0, _ | 1, _ | 2, _ | 3, _ | 4, _ | 5, _ | 6, _ | 7, _ | 8, _ | 9, _ => rfl

theorem spelled_decimalInt (n : Int) : Spelled (decimalInt n) (.number n) True where
  read _ {depth rest} hdepth hrest := by
    obtain ⟨depth, rfl⟩ := Nat.exists_eq_add_of_lt hdepth
    have hnumber := readNumber_decimalInt n hrest
    obtain ⟨b, digits, htext, hquote, hbrace, hblank⟩ := decimalInt_eq_cons n
    rw [htext, List.cons_append] at hnumber ⊢
    rw [readValue, skip_cons hblank]
    simp [hquote, hbrace, hnumber]
  clean _ _ _ := trivial

/-! ## Objects -/

theorem readMembers_member (depth : Nat) {name : Bytes} (hname : Plain name) (text rest : Bytes) :
    readMembers (depth + 1) (member name text ++ rest) =
      match readValue depth (text ++ rest) with
      | none => none
      | some (value, rest) =>
          match skip rest with
          | [] => none
          | d :: rest =>
              if d = closeBrace then some ([(name, value)], rest)
              else if d = comma then
                (readMembers depth rest).map fun r => ((name, value) :: r.1, r.2)
              else none := by
  have hmember : member name text ++ rest =
      quote :: (name ++ quote :: (colon :: (text ++ rest))) := by
    simp [member, quoted]
  have hcolon := skip_cons (show isBlank colon = false by decide) (text ++ rest)
  rw [hmember, readMembers, skip_cons (by decide)]
  simp only [if_true, readString_of_plain hname]
  rewrite [hcolon]
  exact if_pos rfl

/-- Written members, with what they stand for and when they are read as that. -/
inductive Spells : List Bytes → List (Bytes × Value) → Prop → Prop where
  | nil : Spells [] [] True
  | cons {name text : Bytes} {value : Value} {clean others : Prop} {ms : List Bytes}
      {fields : List (Bytes × Value)} (hname : Plain name) (hvalue : Spelled text value clean)
      (hrest : Spells ms fields others) :
      Spells (member name text :: ms) ((name, value) :: fields) (clean ∧ others)

theorem Spells.append {ms ms' : List Bytes} {fields fields' : List (Bytes × Value)}
    {clean clean' : Prop} (h : Spells ms fields clean) (h' : Spells ms' fields' clean') :
    Spells (ms ++ ms') (fields ++ fields') (clean ∧ clean') := by
  induction h with
  | nil =>
      simpa using h'
  | cons hname hvalue _ ih =>
      simpa [and_assoc] using Spells.cons hname hvalue ih

section

variable {name text : Bytes} {value : Value} {clean : Prop} {depth : Nat} {rest : Bytes}

/-- The last member is read up to the closing brace. -/
theorem readMembers_last (hname : Plain name)
    (hvalue : readValue depth (text ++ closeBrace :: rest) = some (value, closeBrace :: rest)) :
    readMembers (depth + 1) (member name text ++ closeBrace :: rest) =
      some ([(name, value)], rest) := by
  rw [readMembers_member depth hname, hvalue]
  simp [skip_cons (show isBlank closeBrace = false by decide)]

/-- Any other member is read up to the comma behind it. -/
theorem readMembers_more (hname : Plain name)
    (hvalue : readValue depth (text ++ comma :: rest) = some (value, comma :: rest)) :
    readMembers (depth + 1) (member name text ++ comma :: rest) =
      (readMembers depth rest).map fun r => ((name, value) :: r.1, r.2) := by
  have hcomma : ¬ (comma = closeBrace) := by decide
  rw [readMembers_member depth hname, hvalue]
  simp only [skip_cons (show isBlank comma = false by decide), hcomma, if_false, if_true]

/-- Where a member is read as it is meant, its value was. -/
theorem exists_readValue_of_readMembers (hname : Plain name) {fields : List (Bytes × Value)}
    {out : Bytes}
    (h : readMembers (depth + 1) (member name text ++ rest) =
      some ((name, value) :: fields, out)) :
    ∃ more, readValue depth (text ++ rest) = some (value, more) := by
  rw [readMembers_member depth hname] at h
  split at h
  · cases h
  · rename_i found more hfound
    refine ⟨more, hfound.trans ?_⟩
    split at h
    · cases h
    · split at h
      · simp only [Option.some.injEq, Prod.mk.injEq, List.cons.injEq] at h
        rw [h.1.1.2]
      · split at h
        · obtain ⟨read, -, heq⟩ := Option.map_eq_some_iff.1 h
          simp only [Prod.mk.injEq, List.cons.injEq] at heq
          rw [heq.1.1.2]
        · cases h

end

theorem length_lt_of_member {name text : Bytes} {depth : Nat}
    (h : (member name text).length < depth + 1) : text.length < depth := by
  simp only [member, quoted, List.length_append, List.length_cons] at h
  omega

theorem members_cons (m : Bytes) {ms : List Bytes} (hne : ms ≠ []) :
    members (m :: ms) = m ++ comma :: members ms := by
  cases ms with
  | nil =>
      exact absurd rfl hne
  | cons m' ms =>
      rfl

section

variable {ms : List Bytes} {fields : List (Bytes × Value)} {clean : Prop}

theorem Spells.fields_nil (h : Spells [] fields clean) : fields = [] ∧ clean = True := by
  cases h
  exact ⟨rfl, rfl⟩

theorem Spells.readMembers_eq (h : Spells ms fields clean) (hclean : clean) (hne : ms ≠ [])
    {depth : Nat} (hdepth : (members ms).length < depth) (rest : Bytes) :
    readMembers depth (members ms ++ closeBrace :: rest) = some (fields, rest) := by
  induction h generalizing depth with
  | nil =>
      exact absurd rfl hne
  | @cons name text value clean others ms fields hname hvalue hrest ih =>
      obtain ⟨depth, rfl⟩ := Nat.exists_eq_succ_of_ne_zero (Nat.ne_zero_of_lt hdepth)
      by_cases hms : ms = []
      · subst hms
        rw [hrest.fields_nil.1]
        refine readMembers_last hname (hvalue.read hclean.1 ?_ (stops_closeBrace rest))
        exact length_lt_of_member hdepth
      · rw [members_cons _ hms] at hdepth ⊢
        rw [List.length_append, List.length_cons] at hdepth
        rw [List.append_assoc, List.cons_append]
        have hmember : (member name text).length < depth + 1 := by omega
        have htext := length_lt_of_member hmember
        rw [readMembers_more hname (hvalue.read hclean.1 htext (stops_comma _)),
          ih hclean.2 hms (by omega)]
        rfl

theorem Spells.clean_of_readMembers (h : Spells ms fields clean) {depth : Nat}
    (hdepth : (members ms).length < depth) {rest out : Bytes}
    (hread : readMembers depth (members ms ++ closeBrace :: rest) = some (fields, out)) :
    clean := by
  induction h generalizing depth out with
  | nil =>
      trivial
  | @cons name text value clean others ms fields hname hvalue hrest ih =>
      obtain ⟨depth, rfl⟩ := Nat.exists_eq_succ_of_ne_zero (Nat.ne_zero_of_lt hdepth)
      by_cases hms : ms = []
      · subst hms
        obtain ⟨more, hmore⟩ := exists_readValue_of_readMembers hname hread
        have hclean : clean :=
          hvalue.clean (length_lt_of_member hdepth) (stops_closeBrace rest) hmore
        exact ⟨hclean, hrest.fields_nil.2 ▸ trivial⟩
      · rw [members_cons _ hms] at hdepth hread
        rw [List.length_append, List.length_cons] at hdepth
        rw [List.append_assoc, List.cons_append] at hread
        have hmember : (member name text).length < depth + 1 := by omega
        have htext := length_lt_of_member hmember
        obtain ⟨more, hmore⟩ := exists_readValue_of_readMembers hname hread
        have hclean : clean := hvalue.clean htext (stops_comma _) hmore
        rw [readMembers_more hname (hvalue.read hclean htext (stops_comma _))] at hread
        have hothers := eq_some_of_map (fun _ _ heq => (List.cons.inj heq).2) hread
        exact ⟨hclean, ih (by omega) hothers⟩

end

theorem readValue_object (depth : Nat) {ms : List Bytes} (hne : ms ≠ [])
    {fields : List (Bytes × Value)} {clean : Prop} (h : Spells ms fields clean) (rest : Bytes) :
    readValue (depth + 1) (object ms ++ rest) =
      (readMembers depth (members ms ++ closeBrace :: rest)).map fun r => (.object r.1, r.2) := by
  have hobject : object ms ++ rest = openBrace :: (members ms ++ closeBrace :: rest) := by
    simp [object]
  obtain ⟨more, hmore⟩ : ∃ more, members ms ++ closeBrace :: rest = quote :: more := by
    cases h with
    | nil =>
        exact absurd rfl hne
    | @cons name text value clean others ms =>
        cases ms with
        | nil =>
            exact ⟨_, rfl⟩
        | cons m ms =>
            exact ⟨_, rfl⟩
  have hopen : ¬ (openBrace = quote) := by decide
  have hclose : ¬ (quote = closeBrace) := by decide
  rw [hobject, readValue, skip_cons (by decide), hmore]
  simp only [hopen, if_false, if_true, skip_cons (show isBlank quote = false by decide), hclose]

theorem length_lt_of_object {ms : List Bytes} {depth : Nat}
    (h : (object ms).length < depth + 1) : (members ms).length < depth := by
  simp only [object, List.length_append, List.length_cons] at h
  omega

/-- An object is read back if and only if its members are. -/
theorem Spells.spelled {ms : List Bytes} {fields : List (Bytes × Value)} {clean : Prop}
    (h : Spells ms fields clean) : Spelled (object ms) (.object fields) clean := by
  by_cases hne : ms = []
  · subst hne
    obtain ⟨rfl, rfl⟩ := h.fields_nil
    constructor
    · intro _ depth rest hdepth _
      obtain ⟨depth, rfl⟩ := Nat.exists_eq_succ_of_ne_zero (Nat.ne_zero_of_lt hdepth)
      have hobject : object [] ++ rest = openBrace :: closeBrace :: rest := rfl
      have hopen : ¬ (openBrace = quote) := by decide
      rw [hobject, readValue, skip_cons (by decide)]
      simp [hopen, skip_cons (show isBlank closeBrace = false by decide)]
    · intro depth rest out hdepth _ _
      trivial
  · constructor
    · intro hclean depth rest hdepth _
      obtain ⟨depth, rfl⟩ := Nat.exists_eq_succ_of_ne_zero (Nat.ne_zero_of_lt hdepth)
      have hmembers : (members ms).length < depth := length_lt_of_object hdepth
      rw [readValue_object depth hne h, h.readMembers_eq hclean hne hmembers]
      rfl
    · intro depth rest out hdepth _ hread
      obtain ⟨depth, rfl⟩ := Nat.exists_eq_succ_of_ne_zero (Nat.ne_zero_of_lt hdepth)
      have hmembers : (members ms).length < depth := length_lt_of_object hdepth
      rw [readValue_object depth hne h] at hread
      exact h.clean_of_readMembers hmembers (eq_some_of_map (fun _ _ => Value.object.inj) hread)

end Json

end LakeUpload
