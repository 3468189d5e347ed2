import LakeUpload.Proofs.Destination.Formed
import LakeUpload.Proofs.Redaction.Redacted

/-!
# Signatures in queries

Reading a destination and redacting it disagree about where a signature ends. For a query it ends at
the next ampersand, and a quote is a byte of it like any other; for redaction it ends at a quote as
well. So a signature is gone if it holds no quote, and otherwise all that stands behind its first
quote is still shown, and whether anything stands in front of that.
-/

namespace LakeUpload

open Bytes (ascii isBlank lower ampersand question quote)

namespace Signature

/-! ## Values with quotes -/

/-- The part of a value that redaction takes for a value. -/
def taken (v : Bytes) : Bytes := v.takeWhile (· != quote)

/-- What redaction shows of that part. -/
def word (v : Bytes) : Bytes := if v.head? = some quote then [] else redacted

/-- What redaction shows behind that part. -/
def left (v : Bytes) : Bytes := redact (v.dropWhile (· != quote))

theorem taken_eq_nil_iff {v : Bytes} (hv : v ≠ []) : taken v = [] ↔ v.head? = some quote := by
  obtain ⟨b, rest, rfl⟩ := List.exists_cons_of_ne_nil hv
  by_cases hb : b = quote <;> simp [taken, hb]

theorem left_of_quote_not_mem {v : Bytes} (hquote : quote ∉ v) : left v = [] := by
  have hall : ∀ b ∈ v, (b != quote) = true := fun b hb => bne_iff_ne.2 fun heq => hquote (heq ▸ hb)
  rw [left, ← List.append_nil v, List.dropWhile_append_of_pos hall, List.dropWhile_nil, redact_nil]

/-- A quote in front is what is left first. -/
theorem exists_left_of_quote {v : Bytes} (hquote : v.head? = some quote) :
    ∃ rest, left v = quote :: rest := by
  obtain ⟨rest, rfl⟩ := List.head?_eq_some_iff.1 hquote
  exact ⟨redact rest, redact_cons (not_startsAt (by decide) rest)⟩

theorem word_append_left_iff {v v' : Bytes} :
    word v ++ left v = word v' ++ left v' ↔
      left v = left v' ∧ (v.head? = some quote ↔ v'.head? = some quote) := by
  -- the word that stands for a value does not begin with a quote
  have hword {rest s : Bytes} : quote :: rest ≠ redacted ++ s := nofun
  by_cases hquote : v.head? = some quote <;> by_cases hquote' : v'.head? = some quote
  · simp [word, hquote, hquote']
  · obtain ⟨rest, hleft⟩ := exists_left_of_quote hquote
    simp [word, hquote, hquote', hleft, hword]
  · obtain ⟨rest, hleft⟩ := exists_left_of_quote hquote'
    simp [word, hquote, hquote', hleft, hword.symm]
  · simp [word, hquote, hquote']

/-! ## Parameters -/

/-- A query with a signature as one of its parameters, between the front and the back of it. -/
structure Parameter (query front name v back : Bytes) : Prop where
  query : query = front ++ (name ++ (v ++ back))
  starts : front = [] ∨ front.getLast? = some ampersand
  name : lower name = ascii "sig="
  ne_nil : v ≠ []
  ampersand_not_mem : ampersand ∉ v
  ends : back = [] ∨ back.head? = some ampersand

variable {query query' front name v v' back before : Bytes}

/-- A value of a query that is shown in full ends where redaction says, but for quotes. -/
theorem isValueByte_of_mem_taken (hamp : ampersand ∉ v) (hshown : ∀ b ∈ v, isBlank b = false) :
    ∀ b ∈ taken v, isValueByte b = true := by
  intro b hb
  have hmem : b ∈ v := (List.takeWhile_sublist _).subset hb
  have hquote : (b != quote) = true := List.all_eq_true.1 List.all_takeWhile b hb
  have hampersand : b ≠ ampersand := fun heq => hamp (heq ▸ hmem)
  simp [isValueByte, hshown b hmem, hampersand, bne_iff_ne.1 hquote]

/-- The text up to a value, with the part of it that redaction takes for a value. -/
def upTo (before front name v : Bytes) : Bytes :=
  before ++ question :: (front ++ (name ++ taken v))

namespace Parameter

theorem query_ne_nil (h : Parameter query front name v back) : query ≠ [] := by
  simp [h.query, h.ne_nil]

theorem redact_eq (h : Parameter query front name v back) (before : Bytes) :
    redact (before ++ question :: query) =
      redact (upTo before front name v) ++ (left v ++ redact back) := by
  have hback : Ends back := by
    rcases h.ends with hnil | hhead
    · rw [hnil]
      rfl
    · rw [Ends, hhead]
      rfl
  have hparts : taken v ++ v.dropWhile (· != quote) = v := List.takeWhile_append_dropWhile
  have hquote : ∀ b, isValueByte b = true → (b != quote) = true := by
    intro b hb
    refine bne_iff_ne.2 ?_
    rintro rfl
    cases hb
  have hrest : Ends (v.dropWhile (· != quote) ++ back) :=
    (ends_dropWhile hquote v).append fun _ => hback
  rw [left, ← redact_append (.inl hback), ← redact_append (.inl hrest)]
  simp only [upTo, List.append_assoc, List.cons_append, h.query]
  rw [← List.append_assoc (taken v), hparts]

/-- Behind a text that ends in a value, the first parameter is redacted as a part of that value. -/
theorem redact_upTo_of_open (hname : lower name = ascii "sig=")
    (hv : ∀ b ∈ taken v, isValueByte b = true) (hopen : Open before) :
    redact (upTo before [] name v) = redact (before ++ question :: name) := by
  obtain ⟨start, key, value, rfl, hkey, hvalue⟩ := hopen
  have hquestion : isValueByte question = true := by decide
  -- the value takes in the question mark, the name and what is taken behind it
  have hlong (more : Bytes) (hmore : ∀ b ∈ more, isValueByte b = true) :
      IsValue (value ++ question :: (name ++ more)) := by
    refine ⟨by simp, ?_⟩
    simp only [List.forall_mem_append, List.forall_mem_cons]
    exact ⟨hvalue, hquestion, fun b => isValueByte_of_mem_name hname, hmore⟩
  have hsame : SameButValues
      (start ++ (key ++ ((value ++ question :: (name ++ taken v)) ++ [])))
      (start ++ (key ++ ((value ++ question :: (name ++ [])) ++ []))) :=
    .append_left start (.value hkey (hlong _ hv) (hlong [] nofun) .nil)
  simpa [upTo] using hsame.redact_eq

/-- Elsewhere the key of the parameter is a key of the text. -/
theorem exists_key (hstarts : front = [] ∨ front.getLast? = some ampersand)
    (hname : lower name = ascii "sig=") (hopen : ¬ (front = [] ∧ Open before)) :
    ∃ start key, before ++ question :: (front ++ name) = start ++ key ∧ isKey key = true ∧
      ∀ more, Apart start (key ++ more) := by
  rcases hstarts with rfl | hlast
  · refine ⟨before, question :: name, rfl, isKey_iff.2 ⟨_, _, rfl, .inl rfl, hname⟩, fun more => ?_⟩
    exact .inr ⟨fun h => hopen ⟨rfl, h⟩, rfl⟩
  · obtain ⟨others, rfl⟩ := List.getLast?_eq_some_iff.1 hlast
    refine ⟨before ++ question :: others, ampersand :: name, by simp,
      isKey_iff.2 ⟨_, _, rfl, .inr rfl, hname⟩, fun more => ?_⟩
    exact .inl rfl

/-- The key of the parameter stays, and the part that is taken becomes the word for it. -/
theorem exists_redact_upTo (hstarts : front = [] ∨ front.getLast? = some ampersand)
    (hname : lower name = ascii "sig=") (hopen : ¬ (front = [] ∧ Open before)) :
    ∃ shown, ∀ v, v ≠ [] → (∀ b ∈ taken v, isValueByte b = true) →
      redact (upTo before front name v) = shown ++ word v := by
  obtain ⟨start, key, hbefore, hkey, hapart⟩ := exists_key hstarts hname hopen
  refine ⟨redact start ++ key, fun v hne hv => ?_⟩
  have hupTo : upTo before front name v = start ++ (key ++ taken v) := by
    rw [← List.append_assoc, ← hbefore]
    simp [upTo]
  rw [hupTo, redact_append (hapart _), List.append_assoc, word]
  congr 1
  by_cases hquote : v.head? = some quote
  · rw [(taken_eq_nil_iff hne).2 hquote, List.append_nil, redact_key hkey,
      if_pos hquote, List.append_nil]
  · have hvalue : IsValue (taken v) := ⟨mt (taken_eq_nil_iff hne).1 hquote, hv⟩
    have hsignature := redact_signature hkey hvalue (show Ends [] from rfl)
    rw [List.append_nil, redact_nil, List.append_nil] at hsignature
    rw [if_neg hquote, hsignature]

/-- Two queries that differ in one signature. -/
theorem redact_eq_iff (h : Parameter query front name v back)
    (h' : Parameter query' front name v' back)
    (hv : ∀ b ∈ v, isBlank b = false) (hv' : ∀ b ∈ v', isBlank b = false) (before : Bytes) :
    redact (before ++ question :: query) = redact (before ++ question :: query') ↔
      left v = left v' ∧
        ((v.head? = some quote ↔ v'.head? = some quote) ∨ front = [] ∧ Open before) := by
  have hbytes := isValueByte_of_mem_taken h.ampersand_not_mem hv
  have hbytes' := isValueByte_of_mem_taken h'.ampersand_not_mem hv'
  rw [h.redact_eq, h'.redact_eq, ← List.append_assoc, ← List.append_assoc,
    List.append_left_inj]
  by_cases hopen : front = [] ∧ Open before
  · obtain ⟨rfl, hbefore⟩ := hopen
    rw [redact_upTo_of_open h.name hbytes hbefore, redact_upTo_of_open h.name hbytes' hbefore,
      List.append_right_inj]
    simp [hbefore]
  · obtain ⟨shown, hshown⟩ := exists_redact_upTo h.starts h.name hopen
    rw [hshown v h.ne_nil hbytes, hshown v' h'.ne_nil hbytes', List.append_assoc,
      List.append_assoc, List.append_right_inj, word_append_left_iff]
    simp [hopen]

end Parameter

end Signature

namespace Url

open Signature (Parameter Open left)
open Redaction (hideUrl)

/-- The text of a destination up to its query. -/
def bareText (url : Url) : Bytes := { url with query := [] }.toText

theorem toText_eq_bareText {url : Url} (hquery : url.query ≠ []) :
    url.toText = url.bareText ++ question :: url.query := by
  simp [bareText, toText, queryText, hquery]

variable {front name v v' back : Bytes}

theorem isBlank_of_parameter {url : Url} (h : url.Formed)
    (hv : Parameter url.query front name v back) : ∀ b ∈ v, isBlank b = false := by
  intro b hb
  have hmem : b ∈ url.query := by
    rw [hv.query]
    simp [hb]
  have hshown := (h.query b hmem).1
  simp only [isShown, Bool.not_eq_true', Bool.or_eq_false_iff] at hshown
  exact hshown.1

/-- Of two destinations that differ in one signature the same is shown if the signature holds no
quote. In general it hangs on what stands behind the first quote, and on whether the signature
begins with one, unless a value in front of the query runs on into it. -/
theorem hideUrl_eq_iff_of_parameter {config : Redaction.Config}
    (hsignatures : config.signatures = true) {text text' : Bytes} {url url' : Url}
    (h : parse text = .ok url) (h' : parse text' = .ok url')
    (hothers : url' = { url with query := url'.query })
    (hv : Parameter url.query front name v back) (hv' : Parameter url'.query front name v' back) :
    (quote ∉ v → quote ∉ v' → hideUrl config url.toText = hideUrl config url'.toText) ∧
      (hideUrl config url.toText = hideUrl config url'.toText ↔
        left v = left v' ∧
          ((v.head? = some quote ↔ v'.head? = some quote) ∨ front = [] ∧ Open url.bareText)) := by
  have hformed := formed_of_read (parse_eq_ok_iff.1 h)
  have hformed' := formed_of_read (parse_eq_ok_iff.1 h')
  have hbare : url'.bareText = url.bareText := by
    rw [hothers]
    rfl
  have hredact := hv.redact_eq_iff hv' (isBlank_of_parameter hformed hv)
    (isBlank_of_parameter hformed' hv') url.bareText
  simp only [hideUrl, hsignatures, if_true, toText_eq_bareText hv.query_ne_nil,
    toText_eq_bareText hv'.query_ne_nil, hbare]
  refine ⟨fun hquote hquote' => hredact.2 ?_, hredact⟩
  rw [Signature.left_of_quote_not_mem hquote, Signature.left_of_quote_not_mem hquote']
  have hhead {s : Bytes} (hs : quote ∉ s) : s.head? ≠ some quote := fun heq =>
    hs (List.mem_of_mem_head? heq)
  exact ⟨rfl, .inl (iff_of_false (hhead hquote) (hhead hquote'))⟩

/-- A destination with a signature behind the version of the service. -/
def signedUrl (v : Bytes) : Url :=
  { scheme := .https, host := ascii "lake", filesystem := ascii "fs",
    query := ascii "sv=1&" ++ (ascii "Sig=" ++ (v ++ ascii "&se=2")) }

theorem parameter_signedUrl {v : Bytes} (hne : v ≠ []) (hampersand : ampersand ∉ v) :
    Parameter (signedUrl v).query (ascii "sv=1&") (ascii "Sig=") v (ascii "&se=2") :=
  ⟨rfl, .inr (by decide), by decide, hne, hampersand, .inr (by decide)⟩

/-- Behind the quotes stand signatures again, and these are gone. -/
theorem signedUrls_shown_alike :
    Redaction.Config.all.signatures = true ∧
      parse (ascii "HTTPS://lake/fs/?sv=1&Sig=ab\"?sig=c&se=2") =
        .ok (signedUrl (ascii "ab\"?sig=c")) ∧
      parse (ascii "https://LAKE/fs?sv=1&Sig=x\"?sig=yz&se=2#f") =
        .ok (signedUrl (ascii "x\"?sig=yz")) ∧
      hideUrl .all (signedUrl (ascii "ab\"?sig=c")).toText =
        hideUrl .all (signedUrl (ascii "x\"?sig=yz")).toText := by
  have hall : Redaction.Config.all.signatures = true := rfl
  have hurl : parse (ascii "HTTPS://lake/fs/?sv=1&Sig=ab\"?sig=c&se=2") =
      .ok (signedUrl (ascii "ab\"?sig=c")) := by rfl
  have hurl' : parse (ascii "https://LAKE/fs?sv=1&Sig=x\"?sig=yz&se=2#f") =
      .ok (signedUrl (ascii "x\"?sig=yz")) := by rfl
  have hshown := hideUrl_eq_iff_of_parameter hall hurl hurl' rfl
    (parameter_signedUrl (by decide) (by decide)) (parameter_signedUrl (by decide) (by decide))
  exact ⟨hall, hurl, hurl', hshown.2.2 ⟨by decide, .inl (by decide)⟩⟩

def onlySigned (v : Bytes) : Url :=
  { scheme := .https, host := ascii "lake", filesystem := ascii "fs", query := ascii "sig=" ++ v }

/-- A signature that begins with a quote is shown in full. -/
theorem not_always_shown_alike :
    ¬ ∀ (config : Redaction.Config) (text text' : Bytes) (url url' : Url)
      (front name v v' back : Bytes), config.signatures = true → parse text = .ok url →
      parse text' = .ok url' → url' = { url with query := url'.query } →
      Parameter url.query front name v back → Parameter url'.query front name v' back → v ≠ v' →
      hideUrl config url.toText = hideUrl config url'.toText := by
  intro hall
  have hparameter {v : Bytes} (hne : v ≠ []) (hampersand : ampersand ∉ v) :
      Parameter (onlySigned v).query [] (ascii "sig=") v [] :=
    ⟨by simp [onlySigned], .inl rfl, by decide, hne, hampersand, .inl rfl⟩
  have hshown := hall {} (ascii "https://lake/fs?sig=a") (ascii "https://lake/fs?sig=\"a")
    (onlySigned (ascii "a")) (onlySigned (ascii "\"a")) [] (ascii "sig=") (ascii "a")
    (ascii "\"a") [] rfl rfl rfl rfl (hparameter (by decide) (by decide))
    (hparameter (by decide) (by decide)) (by decide)
  exact absurd hshown (by decide)

end Url

end LakeUpload
