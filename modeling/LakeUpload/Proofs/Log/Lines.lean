import LakeUpload.Json.Reader
import LakeUpload.Log.Logger
import LakeUpload.Proofs.Redaction.Signatures

/-!
# What a logger writes about two transfers

Two transfers whose texts differ in signatures only make records that are alike. A logger that
hides signatures writes such records as the same line, but for one thing: a source is hidden as a
path and not as a URL. The lines of two records are the same exactly if the sources in them are
shown the same, and a difference stays, whatever is written behind it.
-/

namespace LakeUpload

open Bytes (ascii quote colon comma openBrace closeBrace newline)

namespace Log

/-! ## Records -/

/-- Details that differ in signatures only; their sources are the same, or are the given ones. -/
structure Details.Alike (source source' : Bytes) (d d' : Details) : Prop where
  transferId : d.transferId = d'.transferId
  source : d.source = d'.source ∨ d.source = source ∧ d'.source = source'
  destination : Signature.Alike d.destination d'.destination
  sourceSize : d.sourceSize = d'.sourceSize
  chunkSize : d.chunkSize = d'.chunkSize
  chunkCount : d.chunkCount = d'.chunkCount
  stage : d.stage = d'.stage
  errorMessage : Option.Rel Signature.Alike d.errorMessage d'.errorMessage

structure Record.Alike (source source' : Bytes) (r r' : Record) : Prop where
  level : r.level = r'.level
  category : r.category = r'.category
  message : Signature.Alike r.message r'.message
  details : Option.Rel (Details.Alike source source') r.details r'.details
  file : r.file = r'.file
  line : r.line = r'.line
  function : r.function = r'.function

structure Message.Alike (source source' : Bytes) (m m' : Message) : Prop where
  level : m.level = m'.level
  category : m.category = m'.category
  text : Signature.Alike m.text m'.text
  details : Option.Rel (Details.Alike source source') m.details m'.details
  site : m.site = m'.site

/-- The source that a listener is told of, as far as it is shown. -/
def Heard.shown (hide : Redaction.Config) (heard : Heard) : Option Bytes :=
  heard.details.map fun d => Redaction.hidePath hide d.source

/-- The source that a record tells of, as far as it is shown. -/
def Record.shown (hide : Redaction.Config) (r : Record) : Option Bytes :=
  r.details.map fun d => Redaction.hidePath hide d.source

variable {source source' : Bytes}

theorem Details.Alike.refl (d : Details) : d.Alike source source' d where
  transferId := rfl
  source := .inl rfl
  destination := .refl _
  sourceSize := rfl
  chunkSize := rfl
  chunkCount := rfl
  stage := rfl
  errorMessage := by
    cases d.errorMessage with
    | none =>
        exact .none
    | some message =>
        exact .some (.refl message)

theorem Message.Alike.refl (m : Message) : m.Alike source source' m where
  level := rfl
  category := rfl
  text := .refl _
  details := by
    cases m.details with
    | none =>
        exact .none
    | some d =>
        exact .some (.refl d)
  site := rfl

/-- Messages of one place make records of one place. -/
theorem Message.Alike.record {m m' : Message} (h : m.Alike source source' m')
    (places : Site → Location) : (m.record places).Alike source source' (m'.record places) where
  level := h.level
  category := congrArg Category.text h.category
  message := h.text
  details := h.details
  file := by
    simp only [Message.record, h.site]
  line := by
    simp only [Message.record, h.site]
  function := by
    simp only [Message.record, h.site]

theorem map_eq_of_rel {α β : Type} {related : α → α → Prop} {o o' : Option α} {f : α → β}
    (h : Option.Rel related o o') (hf : ∀ a a', related a a' → f a = f a') :
    o.map f = o'.map f := by
  cases h with
  | none =>
      rfl
  | some h =>
      exact congrArg some (hf _ _ h)

theorem none_or_some_of_rel {α : Type} {related : α → α → Prop} {o o' : Option α}
    (h : Option.Rel related o o') :
    (o = none ∧ o' = none) ∨ ∃ a a', o = some a ∧ o' = some a' ∧ related a a' := by
  cases h with
  | none =>
      exact .inl ⟨rfl, rfl⟩
  | some h =>
      exact .inr ⟨_, _, rfl, rfl, h⟩

/-! ## What a line is made of -/

/-- The members of an entry, in front of those that tell of the transfer. -/
def Record.heading (hide : Redaction.Config) (nanos : Int) (r : Record) : List Bytes :=
  [Json.member (ascii "timestamp") (Json.quoted (Stamp.zulu nanos)),
    Json.member (ascii "level") (Json.quoted r.level.name),
    Json.member (ascii "category") (Json.quoted r.category),
    Json.textMember (ascii "message") (Redaction.hideMessage hide r.message)]

/-- A line of text, up to the details. -/
def Record.words (hide : Redaction.Config) (nanos : Int) (r : Record) : Bytes :=
  Stamp.plain nanos ++ ascii " [" ++ r.level.name ++ ascii "] [" ++ r.category ++ ascii "] " ++
    Redaction.hideMessage hide r.message

theorem members_entry (hide : Redaction.Config) (nanos : Int) (r : Record) :
    (Logger.entry nanos r).members hide =
      r.heading hide nanos ++ (r.details.map (Details.members hide)).getD [] ++
        (Logger.entry nanos r).location.members := by
  unfold Logger.entry
  split <;> rfl

theorem textLine_eq (hide : Redaction.Config) (nanos : Int) (r : Record) :
    Logger.textLine hide nanos r =
      r.words hide nanos ++
        ((r.details.map (Details.members hide)).map
          fun ms => ascii " " ++ Json.object ms).getD [] := by
  unfold Logger.textLine
  cases r.details <;> rfl

theorem location_entry_congr (r r' : Record) (hfile : r.file = r'.file) (hline : r.line = r'.line)
    (hfunction : r.function = r'.function) (nanos : Int) :
    (Logger.entry nanos r).location = (Logger.entry nanos r').location := by
  simp only [Logger.entry, hfile, hline, hfunction]
  split <;> rfl

theorem Record.Alike.heading_eq {r r' : Record} (h : r.Alike source source' r')
    {hide : Redaction.Config} (hsignatures : hide.signatures = true) (nanos : Int) :
    r.heading hide nanos = r'.heading hide nanos := by
  simp only [Record.heading, h.level, h.category,
    Redaction.hideMessage_eq_of_sameButValues hsignatures h.message.sameButValues]

theorem Record.Alike.words_eq {r r' : Record} (h : r.Alike source source' r')
    {hide : Redaction.Config} (hsignatures : hide.signatures = true) (nanos : Int) :
    r.words hide nanos = r'.words hide nanos := by
  simp only [Record.words, h.level, h.category,
    Redaction.hideMessage_eq_of_sameButValues hsignatures h.message.sameButValues]

/-! ## Lines that are the same -/

/-- The details as a logger shows them. -/
def Details.masked (hide : Redaction.Config) (d : Details) : Details :=
  { d with
    source := Redaction.hidePath hide d.source
    destination := Redaction.hideUrl hide d.destination
    errorMessage := d.errorMessage.map (Redaction.hideMessage hide) }

def Record.masked (hide : Redaction.Config) (r : Record) : Record :=
  { r with
    message := Redaction.hideMessage hide r.message
    details := r.details.map (Details.masked hide) }

theorem filled_map {shown : Bytes → Bytes} {s : Bytes} (hempty : shown s = [] ↔ s = []) :
    Details.filled (shown s) = (Details.filled s).map shown := by
  by_cases hs : s = []
  · rw [Details.filled, Details.filled, if_pos (hempty.2 hs), if_pos hs, Option.map_none]
  · rw [Details.filled, Details.filled, if_neg (mt hempty.1 hs), if_neg hs, Option.map_some]

theorem Details.members_masked (hide : Redaction.Config) (d : Details) :
    (d.masked hide).members .none = d.members hide := by
  have hsource : Redaction.hidePath hide d.source = [] ↔ d.source = [] := by
    rw [← List.length_eq_zero_iff, Redaction.hidePath_length, List.length_eq_zero_iff]
  simp only [Details.members, Details.masked, filled_map hsource,
    filled_map (Redaction.hideUrl_eq_nil_iff hide d.destination), Option.map_map]
  rfl

/-- It makes no difference whether a record is masked while it is written or before. -/
theorem Logger.lineOf_masked (logger : Logger) (nanos : Int) (r : Record) :
    { logger with hide := .none }.lineOf nanos (r.masked logger.hide) = logger.lineOf nanos r := by
  have hdetails : (r.masked logger.hide).details.map (Details.members .none) =
      r.details.map (Details.members logger.hide) := by
    rw [Record.masked, Option.map_map]
    exact congrArg (r.details.map ·) (funext (Details.members_masked logger.hide))
  have hlocation := location_entry_congr (r.masked logger.hide) r rfl rfl rfl nanos
  have hheading : (r.masked logger.hide).heading .none nanos = r.heading logger.hide nanos := rfl
  have hwords : (r.masked logger.hide).words .none nanos = r.words logger.hide nanos := rfl
  simp only [lineOf, Entry.toJson, members_entry, textLine_eq, hdetails, hlocation, hheading,
    hwords]

theorem Logger.lineOf_eq_of_masked {logger : Logger} {r r' : Record}
    (h : r.masked logger.hide = r'.masked logger.hide) (nanos : Int) :
    logger.lineOf nanos r = logger.lineOf nanos r' := by
  rw [← lineOf_masked, h, lineOf_masked]

theorem Details.Alike.source_eq_nil_iff {d d' : Details} (h : d.Alike source source' d')
    (hsource : Signature.Alike source source') : d.source = [] ↔ d'.source = [] := by
  rcases h.source with heq | ⟨heq, heq'⟩
  · rw [heq]
  · rw [heq, heq', hsource.eq_nil_iff]

section Same

variable {hide : Redaction.Config}

theorem Details.Alike.masked_eq {d d' : Details} (h : d.Alike source source' d')
    (hsignatures : hide.signatures = true)
    (hshown : Redaction.hidePath hide d.source = Redaction.hidePath hide d'.source) :
    d.masked hide = d'.masked hide := by
  have herror : d.errorMessage.map (Redaction.hideMessage hide) =
      d'.errorMessage.map (Redaction.hideMessage hide) :=
    map_eq_of_rel h.errorMessage fun _ _ halike =>
      Redaction.hideMessage_eq_of_sameButValues hsignatures halike.sameButValues
  simp only [Details.masked, h.transferId, hshown, herror, h.sourceSize, h.chunkSize, h.chunkCount,
    h.stage, Redaction.hideUrl_eq_of_sameButValues hsignatures h.destination.sameButValues]

/-- Records that are alike and show the same source are masked the same. -/
theorem Record.Alike.masked_eq {r r' : Record} (h : r.Alike source source' r')
    (hsignatures : hide.signatures = true) (hshown : r.shown hide = r'.shown hide) :
    r.masked hide = r'.masked hide := by
  have hdetails : r.details.map (Details.masked hide) = r'.details.map (Details.masked hide) := by
    unfold Record.shown at hshown
    rcases none_or_some_of_rel h.details with ⟨hnone, hnone'⟩ | ⟨d, d', hd, hd', halike⟩
    · rw [hnone, hnone']
    · rw [hd, hd', Option.map_some, Option.map_some] at hshown
      rw [hd, hd', Option.map_some, Option.map_some,
        halike.masked_eq hsignatures (Option.some.inj hshown)]
  simp only [Record.masked, h.level, h.category, h.file, h.line, h.function, hdetails,
    Redaction.hideMessage_eq_of_sameButValues hsignatures h.message.sameButValues]

end Same

/-! ## Lines that differ -/

/-- An object up to the source that it tells of. -/
def opening (front : List Bytes) : Bytes :=
  openBrace :: front.flatMap (· ++ [comma]) ++ Json.quoted (ascii "source") ++ [colon, quote]

theorem join_append_cons (c : UInt8) (front : List Bytes) (m : Bytes) (back : List Bytes) :
    Bytes.join c (front ++ m :: back) =
      front.flatMap (· ++ [c]) ++ (m ++ back.flatMap (c :: ·)) := by
  induction front with
  | nil =>
      induction back generalizing m with
      | nil =>
          simp [Bytes.join]
      | cons next back ih =>
          simpa [Bytes.join] using ih next
  | cons first front ih =>
      obtain ⟨next, rest, hrest⟩ := List.exists_cons_of_ne_nil
        (show front ++ m :: back ≠ [] by simp)
      rw [hrest] at ih
      simp [Bytes.join, hrest, ih]

theorem object_source (front back : List Bytes) (s : Bytes) :
    Json.object (front ++ Json.textMember (ascii "source") s :: back) =
      opening front ++ (Json.escape s ++ quote :: (back.flatMap (comma :: ·) ++ [closeBrace])) := by
  simp [Json.object, Json.members, join_append_cons, opening, Json.textMember, Json.member,
    Json.quoted]

/-- The members in front of the source. -/
def Details.front (d : Details) : List Bytes :=
  ((filled d.transferId).map (Json.textMember (ascii "transfer_id"))).toList

theorem Details.exists_members_eq (hide : Redaction.Config) {d : Details}
    (hsource : d.source ≠ []) :
    ∃ back, d.members hide =
      d.front ++ Json.textMember (ascii "source") (Redaction.hidePath hide d.source) :: back := by
  have hfilled : filled d.source = some d.source := if_neg hsource
  apply Exists.intro
  simp only [Details.members, hfilled, List.append_assoc]
  rfl

/-- What a logger writes up to the source of a record. -/
def Logger.opening (logger : Logger) (nanos : Int) (r : Record) (d : Details) : Bytes :=
  if logger.structured then Log.opening (r.heading logger.hide nanos ++ d.front)
  else r.words logger.hide nanos ++ (ascii " " ++ Log.opening d.front)

theorem exists_lineOf_eq (logger : Logger) (nanos : Int) {r : Record} {d : Details}
    (hdetails : r.details = some d) (hsource : d.source ≠ []) :
    ∃ tail, logger.lineOf nanos r =
      logger.opening nanos r d ++
        (Json.escape (Redaction.hidePath logger.hide d.source) ++ quote :: tail) := by
  obtain ⟨back, hmembers⟩ := d.exists_members_eq logger.hide hsource
  cases hstructured : logger.structured with
  | true =>
      refine ⟨(back ++ (Logger.entry nanos r).location.members).flatMap (comma :: ·) ++
        [closeBrace], ?_⟩
      rw [Logger.lineOf, Logger.opening, hstructured, if_pos rfl, if_pos rfl, ← object_source,
        Entry.toJson, members_entry, hdetails, Option.map_some, Option.getD_some, hmembers]
      simp only [List.append_assoc, List.cons_append]
  | false =>
      refine ⟨back.flatMap (comma :: ·) ++ [closeBrace], ?_⟩
      rw [Logger.lineOf, Logger.opening, hstructured, if_neg (by decide), if_neg (by decide),
        textLine_eq, hdetails, Option.map_some, Option.map_some, Option.getD_some, hmembers,
        object_source]
      simp only [List.append_assoc]

/-- Where the sources are shown differently, so are the lines, and all that goes on from them. -/
theorem Record.Alike.shown_eq_of_lineOf {r r' : Record} (h : r.Alike source source' r')
    (hsource : Signature.Alike source source') {logger : Logger}
    (hsignatures : logger.hide.signatures = true) {nanos : Int} {t t' : Bytes}
    (hline : logger.lineOf nanos r ++ t = logger.lineOf nanos r' ++ t') :
    r.shown logger.hide = r'.shown logger.hide := by
  unfold Record.shown
  rcases none_or_some_of_rel h.details with ⟨hnone, hnone'⟩ | ⟨d, d', hd, hd', halike⟩
  · rw [hnone, hnone']
  · rw [hd, hd', Option.map_some, Option.map_some]
    by_cases hempty : d.source = []
    · rw [hempty, (halike.source_eq_nil_iff hsource).1 hempty]
    · have hempty' := mt (halike.source_eq_nil_iff hsource).2 hempty
      obtain ⟨tail, hwritten⟩ := exists_lineOf_eq logger nanos hd hempty
      obtain ⟨tail', hwritten'⟩ := exists_lineOf_eq logger nanos hd' hempty'
      have hopening : logger.opening nanos r d = logger.opening nanos r' d' := by
        simp only [Logger.opening, Details.front, h.heading_eq hsignatures,
          h.words_eq hsignatures, halike.transferId]
      rw [hwritten, hwritten', hopening] at hline
      simp only [List.append_assoc, List.cons_append] at hline
      exact congrArg some (Json.escape_quote_inj (List.append_cancel_left hline)).1

/-! ## Outputs -/

theorem Record.Alike.shown_eq {r r' : Record} (h : r.Alike source source' r')
    {hide : Redaction.Config}
    (hhidden : Redaction.hidePath hide source = Redaction.hidePath hide source') :
    r.shown hide = r'.shown hide := by
  refine map_eq_of_rel h.details fun d d' halike => ?_
  rcases halike.source with heq | ⟨heq, heq'⟩
  · rw [heq]
  · rw [heq, heq', hhidden]

/-- Two outputs of a logger that was given records that are alike, one after the other. -/
inductive Output.Alike (logger : Logger) (source source' : Bytes) : Output → Output → Prop where
  | empty : Alike logger source source' {} {}
  | log {output output' : Output} (h : Alike logger source source' output output')
      {r r' : Record} (hrecord : r.Alike source source' r') (nanos : Int) :
      Alike logger source source' (output ++ logger.log nanos r) (output' ++ logger.log nanos r')

namespace Output.Alike

variable {logger : Logger} {output output' : Output}

/-- What the two runs write is the same, if the sources are hidden the same. -/
theorem written_eq (h : Alike logger source source' output output')
    (hsignatures : logger.hide.signatures = true)
    (hhidden : Redaction.hidePath logger.hide source = Redaction.hidePath logger.hide source') :
    output.written = output'.written := by
  induction h with
  | empty =>
      rfl
  | log _ hrecord nanos ih =>
      have hline := Logger.lineOf_eq_of_masked
        (hrecord.masked_eq hsignatures (hrecord.shown_eq hhidden)) nanos
      rw [written_append, written_append, ih]
      simp only [Logger.log, hrecord.level, hline]
      split <;> rfl

/-- Either the calls that were heard show the same sources, and the same is written, or what is
written parts at the first of them that does not, and never meets again. -/
theorem same_or_parted (h : Alike logger source source' output output')
    (hsource : Signature.Alike source source') (hsignatures : logger.hide.signatures = true)
    (hlistener : logger.listener.isSome = true) :
    (output.heard.map (Heard.shown logger.hide) = output'.heard.map (Heard.shown logger.hide) ∧
        output.written = output'.written) ∨
      (output.heard.map (Heard.shown logger.hide) ≠
          output'.heard.map (Heard.shown logger.hide) ∧
        ∀ t t', output.written ++ t ≠ output'.written ++ t') := by
  obtain ⟨listener, hlistener⟩ := Option.isSome_iff_exists.1 hlistener
  induction h with
  | empty =>
      exact .inl ⟨rfl, rfl⟩
  | @log output output' _ r r' hrecord nanos ih =>
      cases henabled : logger.enabled r.level with
      | false =>
          have henabled' : logger.enabled r'.level = false := hrecord.level ▸ henabled
          rw [Logger.log_of_not_enabled henabled, Logger.log_of_not_enabled henabled',
            append_empty, append_empty]
          exact ih
      | true =>
          have henabled' : logger.enabled r'.level = true := hrecord.level ▸ henabled
          have htold (r : Record) :
              (logger.tell r).map (Heard.shown logger.hide) = [r.shown logger.hide] := by
            simp [Logger.tell, hlistener, Heard.shown, Record.shown]
          simp only [Logger.log, henabled, henabled', if_true, heard_append, written_append,
            List.map_append, List.append_assoc, htold]
          rcases ih with ⟨hheard, hwritten⟩ | ⟨hheard, hparted⟩
          · by_cases hshown : r.shown logger.hide = r'.shown logger.hide
            · left
              rw [hheard, hshown, hwritten,
                Logger.lineOf_eq_of_masked (hrecord.masked_eq hsignatures hshown)]
              exact ⟨rfl, rfl⟩
            · right
              refine ⟨?_, ?_⟩
              · intro heq
                exact hshown (List.cons.inj (List.append_inj' heq rfl).2).1
              · intro t t' heq
                rw [hwritten] at heq
                exact hshown (hrecord.shown_eq_of_lineOf hsource hsignatures
                  (List.append_cancel_left heq))
          · right
            refine ⟨?_, fun t t' => hparted _ _⟩
            intro heq
            exact hheard (List.append_inj' heq rfl).1

/-- What the two runs write is the same exactly if their listeners are shown the same sources. -/
theorem written_eq_iff (h : Alike logger source source' output output')
    (hsource : Signature.Alike source source') (hsignatures : logger.hide.signatures = true)
    (hlistener : logger.listener.isSome = true) :
    output.written = output'.written ↔
      output.heard.map (Heard.shown logger.hide) =
        output'.heard.map (Heard.shown logger.hide) := by
  rcases h.same_or_parted hsource hsignatures hlistener with ⟨hheard, hwritten⟩ | ⟨hheard, hparted⟩
  · exact iff_of_true hwritten hheard
  · refine iff_of_false ?_ hheard
    intro hwritten
    exact hparted [] [] (congrArg (· ++ []) hwritten)

end Output.Alike

end Log

end LakeUpload
