import LakeUpload.Proofs.Redaction.Paths
import LakeUpload.Proofs.Redaction.PathTexts
import LakeUpload.Redaction.Masker

/-!
# Paths inside messages

The paths of a message are found from left to right, each as early as one starts and as long as it
goes. They are the only places at which masking changes the message, and no byte moves there.
-/

namespace LakeUpload

open Bytes (ascii slash backslash isSeparator)

namespace Redaction

/-! ## Spans -/

/-- A stretch of a text. -/
structure Span where
  start : Nat
  length : Nat
  deriving DecidableEq, Repr

namespace Span

def stop (span : Span) : Nat := span.start + span.length

/-- The bytes of the text that the span covers. -/
def of (span : Span) (text : Bytes) : Bytes := (text.drop span.start).take span.length

def Covers (span : Span) (i : Nat) : Prop := span.start ≤ i ∧ i < span.stop

/-- The span covers a path that lies in the text. -/
structure IsPath (span : Span) (text : Bytes) : Prop where
  stop_le : span.stop ≤ text.length
  mem : span.of text ∈ pathTexts

theorem of_append (span : Span) (front s : Bytes) (h : span.start = front.length) :
    span.of (front ++ s) = s.take span.length := by
  rw [of, h, List.drop_left]

theorem getElem?_of {span : Span} {i : Nat} (h : span.Covers i) (text : Bytes) :
    (span.of text)[i - span.start]? = text[i]? := by
  have hstart := h.1
  have hstop := h.2
  unfold stop at hstop
  rw [of, List.getElem?_take_of_lt (by omega), List.getElem?_drop, Nat.add_sub_of_le hstart]

theorem IsPath.length_pos {span : Span} {text : Bytes} (h : span.IsPath text) :
    0 < span.length := by
  apply Nat.pos_of_ne_zero
  intro hzero
  have hmem := h.mem
  rw [of, hzero, List.take_zero] at hmem
  exact nil_not_mem_pathTexts hmem

/-- A path that starts a piece of a text, with what stands in front of it. -/
theorem isPath_append {span : Span} {front s : Bytes} (hstart : span.start = front.length) :
    span.IsPath (front ++ s) ↔ span.length ≤ s.length ∧ s.take span.length ∈ pathTexts := by
  constructor
  · intro h
    have hstop := h.stop_le
    have hmem := h.mem
    rw [stop, hstart, List.length_append] at hstop
    rw [of_append span front s hstart] at hmem
    exact ⟨Nat.le_of_add_le_add_left hstop, hmem⟩
  · intro h
    constructor
    · rw [stop, hstart, List.length_append]
      exact Nat.add_le_add_left h.1 _
    · rw [of_append span front s hstart]
      exact h.2

end Span

/-- The paths of a text from position `k` on: wherever a path starts in the text, one of them covers
that place, and each of them goes on as long as it can. -/
structure Found (text : Bytes) (k : Nat) (spans : List Span) : Prop where
  le_start : ∀ span ∈ spans, k ≤ span.start
  apart : spans.Pairwise fun first second => first.stop ≤ second.start
  isPath : ∀ span ∈ spans, span.IsPath text
  longest : ∀ span ∈ spans, ∀ other : Span, other.IsPath text → other.start = span.start →
    other.length ≤ span.length
  leftmost : ∀ other : Span, other.IsPath text → k ≤ other.start →
    ∃ span ∈ spans, span.Covers other.start

namespace Found

variable {text : Bytes} {k : Nat} {spans : List Span}

theorem nil (h : text.length ≤ k) : Found text k [] := by
  refine ⟨nofun, .nil, nofun, nofun, ?_⟩
  intro other hother hk
  have hpos := hother.length_pos
  have hstop := hother.stop_le
  unfold Span.stop at hstop
  omega

/-- No path starts here. -/
theorem skip (h : Found text (k + 1) spans)
    (hnone : ∀ other : Span, other.IsPath text → other.start ≠ k) : Found text k spans := by
  refine ⟨?_, h.apart, h.isPath, h.longest, ?_⟩
  · intro span hspan
    exact Nat.le_of_succ_le (h.le_start span hspan)
  · intro other hother hk
    have hne := hnone other hother
    exact h.leftmost other hother (by omega)

theorem cons {length : Nat} (h : Found text (k + length) spans)
    (hpath : Span.IsPath ⟨k, length⟩ text)
    (hlongest : ∀ other : Span, other.IsPath text → other.start = k → other.length ≤ length) :
    Found text k (⟨k, length⟩ :: spans) := by
  constructor
  · refine List.forall_mem_cons.2 ⟨Nat.le_refl k, ?_⟩
    intro span hspan
    exact Nat.le_of_add_right_le (h.le_start span hspan)
  · exact h.apart.cons h.le_start
  · exact List.forall_mem_cons.2 ⟨hpath, h.isPath⟩
  · exact List.forall_mem_cons.2 ⟨hlongest, h.longest⟩
  · intro other hother hk
    by_cases hstart : other.start < k + length
    · exact ⟨⟨k, length⟩, List.mem_cons_self, hk, hstart⟩
    · obtain ⟨span, hspan, hcovers⟩ := h.leftmost other hother (Nat.le_of_not_lt hstart)
      exact ⟨span, List.mem_cons_of_mem _ hspan, hcovers⟩

theorem tail {span : Span} (h : Found text k (span :: spans)) : Found text span.stop spans := by
  obtain ⟨hfirst, hapart⟩ := List.pairwise_cons.1 h.apart
  refine ⟨hfirst, hapart, ?_, ?_, ?_⟩
  · intro later hlater
    exact h.isPath later (List.mem_cons_of_mem _ hlater)
  · intro later hlater
    exact h.longest later (List.mem_cons_of_mem _ hlater)
  · intro other hother hstop
    have hle := h.le_start span List.mem_cons_self
    obtain ⟨later, hlater, hcovers⟩ := h.leftmost other hother (by unfold Span.stop at hstop; omega)
    cases List.mem_cons.1 hlater with
    | inl heq =>
        rw [heq] at hcovers
        exact absurd hstop (Nat.not_le.2 hcovers.2)
    | inr hmem =>
        exact ⟨later, hmem, hcovers⟩

theorem start_le {span : Span} (h : Found text k (span :: spans)) {other : Span}
    (hother : other.IsPath text) (hk : k ≤ other.start) : span.start ≤ other.start := by
  obtain ⟨found, hfound, hcovers⟩ := h.leftmost other hother hk
  cases List.mem_cons.1 hfound with
  | inl heq =>
      rw [← heq]
      exact hcovers.1
  | inr hmem =>
      have hapart := (List.pairwise_cons.1 h.apart).1 found hmem
      have hstart := hcovers.1
      unfold Span.stop at hapart
      omega

theorem ne_nil_of_isPath (h : Found text k spans) {other : Span} (hother : other.IsPath text)
    (hk : k ≤ other.start) : spans ≠ [] := by
  obtain ⟨span, hspan, -⟩ := h.leftmost other hother hk
  exact List.ne_nil_of_mem hspan

/-- A text has its paths in one way only. -/
theorem unique {others : List Span} (h : Found text k spans) (h' : Found text k others) :
    others = spans := by
  induction spans generalizing k others with
  | nil =>
      cases others with
      | nil =>
          rfl
      | cons other others =>
          have hother := h'.isPath other List.mem_cons_self
          exact absurd rfl (h.ne_nil_of_isPath hother (h'.le_start other List.mem_cons_self))
  | cons span spans ih =>
      have hspan := h.isPath span List.mem_cons_self
      have hk := h.le_start span List.mem_cons_self
      cases others with
      | nil =>
          exact absurd rfl (h'.ne_nil_of_isPath hspan hk)
      | cons other others =>
          have hother := h'.isPath other List.mem_cons_self
          have hk' := h'.le_start other List.mem_cons_self
          have hstart : other.start = span.start :=
            Nat.le_antisymm (h'.start_le hspan hk) (h.start_le hother hk')
          have hlength : other.length = span.length :=
            Nat.le_antisymm (h.longest span List.mem_cons_self other hother hstart)
              (h'.longest other List.mem_cons_self span hspan hstart.symm)
          have heq : other = span := by
            cases other
            cases span
            simp_all
          subst heq
          rw [ih h.tail h'.tail]

end Found

/-! ## The scan -/

/-- Induction as a message is masked: over its paths, and over the bytes between them. -/
@[elab_as_elim]
theorem path_induction {motive : Bytes → Prop} (nil : motive [])
    (cons : ∀ b s, pathLength (b :: s) = 0 → motive s → motive (b :: s))
    (path : ∀ p s, p ≠ [] → pathLength (p ++ s) = p.length → motive s → motive (p ++ s))
    (s : Bytes) : motive s := by
  induction hn : s.length using Nat.strongRecOn generalizing s with
  | ind n ih =>
      by_cases hzero : pathLength s = 0
      · cases s with
        | nil =>
            exact nil
        | cons b s =>
            exact cons b s hzero (ih s.length (by simp [← hn]) s rfl)
      · have hle := (longest_pathLength s).le
        have hrest := ih (s.drop (pathLength s)).length (by rw [List.length_drop]; omega)
          (s.drop (pathLength s)) rfl
        have hlength : (s.take (pathLength s)).length = pathLength s := List.length_take_of_le hle
        have hs : s.take (pathLength s) ++ s.drop (pathLength s) = s := List.take_append_drop _ _
        have hne : s.take (pathLength s) ≠ [] := by
          intro hnil
          rw [hnil] at hlength
          exact hzero hlength.symm
        rw [← hs]
        exact path _ _ hne (by rw [hs, hlength]) hrest

theorem hidePaths_append {config : Config} {p s : Bytes} (hne : p ≠ [])
    (h : pathLength (p ++ s) = p.length) :
    hidePaths config (p ++ s) = hidePath config p ++ hidePaths config s := by
  have hlength : pathLength (p ++ s) ≠ 0 := by
    rw [h]
    exact Nat.ne_of_gt (List.length_pos_iff.2 hne)
  rw [hidePaths_of_path hlength, h, List.take_left, List.drop_left]

theorem hidePaths_length (config : Config) (s : Bytes) :
    (hidePaths config s).length = s.length := by
  induction s using path_induction with
  | nil =>
      rfl
  | cons b s hzero ih =>
      rw [hidePaths_cons hzero, List.length_cons, List.length_cons, ih]
  | path p s hne hlength ih =>
      rw [hidePaths_append hne hlength, List.length_append, List.length_append, hidePath_length, ih]

/-- The masking of signatures has no say in the masking of paths. -/
theorem hidePaths_congr {config other : Config}
    (h : ∀ path, hidePath config path = hidePath other path) (s : Bytes) :
    hidePaths config s = hidePaths other s := by
  induction s using path_induction with
  | nil =>
      rfl
  | cons b s hzero ih =>
      rw [hidePaths_cons hzero, hidePaths_cons hzero, ih]
  | path p s hne hlength ih =>
      rw [hidePaths_append hne hlength, hidePaths_append hne hlength, ih, h]

/-- Behind a position the message has changed in the spans of its paths only, and each of these is
masked as a path. -/
structure MasksFrom (config : Config) (text shown : Bytes) (k : Nat) (spans : List Span) :
    Prop where
  inside : ∀ span ∈ spans, span.of shown = hidePath config (span.of text)
  outside : ∀ i, k ≤ i → (∀ span ∈ spans, ¬ span.Covers i) → shown[i]? = text[i]?

namespace MasksFrom

variable {config : Config} {text shown : Bytes} {k : Nat} {spans : List Span}

theorem skip (h : MasksFrom config text shown (k + 1) spans) (hk : shown[k]? = text[k]?) :
    MasksFrom config text shown k spans := by
  refine ⟨h.inside, ?_⟩
  intro i hi hfree
  by_cases heq : i = k
  · rw [heq, hk]
  · exact h.outside i (by omega) hfree

theorem cons {length : Nat} (h : MasksFrom config text shown (k + length) spans)
    (hpath : Span.of ⟨k, length⟩ shown = hidePath config (Span.of ⟨k, length⟩ text)) :
    MasksFrom config text shown k (⟨k, length⟩ :: spans) := by
  refine ⟨List.forall_mem_cons.2 ⟨hpath, h.inside⟩, ?_⟩
  intro i hi hfree
  have hstop : k + length ≤ i := by
    have hcovers := hfree _ List.mem_cons_self
    simp only [Span.Covers, Span.stop] at hcovers
    omega
  exact h.outside i hstop fun span hspan => hfree span (List.mem_cons_of_mem _ hspan)

end MasksFrom

/-- Both texts have a front of the same length, which is left out of the search. -/
theorem exists_found (config : Config) (s : Bytes) :
    ∀ front out : Bytes, out.length = front.length →
      ∃ spans, Found (front ++ s) front.length spans ∧
        MasksFrom config (front ++ s) (out ++ hidePaths config s) front.length spans := by
  induction s using path_induction with
  | nil =>
      intro front out hout
      refine ⟨[], Found.nil (by simp), nofun, ?_⟩
      intro i hi _
      rw [hidePaths_nil, List.getElem?_eq_none (by simp; omega),
        List.getElem?_eq_none (by simp; omega)]
  | cons b s hzero ih =>
      intro front out hout
      obtain ⟨spans, hfound, hmasks⟩ := ih (front ++ [b]) (out ++ [b]) (by simp [hout])
      rw [List.append_assoc, List.length_append] at hfound hmasks
      rw [List.append_assoc] at hmasks
      have hlongest := longest_pathLength (b :: s)
      rw [hzero] at hlongest
      refine ⟨spans, hfound.skip ?_, ?_⟩
      · intro other hother hstart
        have hmem := ((Span.isPath_append hstart).1 hother).2
        exact hlongest.not_mem_of_zero nil_not_mem_pathTexts (List.take_prefix _ _) hmem
      · rw [hidePaths_cons hzero]
        apply hmasks.skip
        rw [List.getElem?_append_right (Nat.le_refl _), ← hout,
          List.getElem?_append_right (Nat.le_refl _), Nat.sub_self]
        rfl
  | path p s hne hlength ih =>
      intro front out hout
      obtain ⟨spans, hfound, hmasks⟩ := ih (front ++ p) (out ++ hidePath config p)
        (by simp [hout, hidePath_length])
      rw [List.append_assoc, List.length_append] at hfound hmasks
      rw [List.append_assoc] at hmasks
      have hpos : p.length ≠ 0 := Nat.ne_of_gt (List.length_pos_iff.2 hne)
      have hlongest := longest_pathLength (p ++ s)
      rw [hlength] at hlongest
      have hmem := (hlongest.of_ne_zero hpos).mem
      refine ⟨⟨front.length, p.length⟩ :: spans, hfound.cons ?_ ?_, ?_⟩
      · exact (Span.isPath_append rfl).2 ⟨by simp, hmem⟩
      · intro other hother hstart
        obtain ⟨hle, hother⟩ := (Span.isPath_append hstart).1 hother
        have hmax := hlongest.max _ (List.take_prefix other.length (p ++ s)) (.inr hother)
        rwa [List.length_take_of_le hle] at hmax
      · rw [hidePaths_append hne hlength]
        apply hmasks.cons
        rw [Span.of_append _ front _ rfl, Span.of_append _ out _ hout.symm]
        simp [← hidePath_length config p]

/-! ## Masked messages -/

theorem getElem?_hideName (config : Config) {name : Bytes} {i : Nat} {b : UInt8}
    (h : name[i]? = some b) :
    (hideName config name)[i]? = some b ∨
      (hideName config name)[i]? = some config.markByte := by
  have hlength := hideTail_length config (stem name)
  rw [hideName_eq]
  rw [← stem_append_extension name] at h
  by_cases hi : i < (stem name).length
  · rw [List.getElem?_append_left hi] at h
    rw [List.getElem?_append_left (by omega), getElem?_hideTail config h]
    split
    · exact .inl rfl
    · exact .inr rfl
  · rw [List.getElem?_append_right (Nat.le_of_not_lt hi)] at h
    rw [List.getElem?_append_right (by omega), hlength]
    exact .inl h

/-- Each byte of a path stays, becomes a mark or, if it is a backslash, a slash. -/
theorem getElem?_hidePath (config : Config) {path : Bytes} {i : Nat} {b : UInt8}
    (h : path[i]? = some b) :
    (hidePath config path)[i]? = some b ∨ (hidePath config path)[i]? = some config.markByte ∨
      (b = backslash ∧ (hidePath config path)[i]? = some slash) := by
  cases hpaths : config.paths with
  | false =>
      left
      simpa [hidePath, hpaths] using h
  | true =>
      rw [hidePath_eq hpaths]
      cases cut_path path with
      | inl hnone =>
          rw [directory_of_all hnone, fileName_of_all hnone]
          exact (getElem?_hideName config h).imp_right .inl
      | inr hcut =>
          obtain ⟨front, c, name, hc, hname, rfl⟩ := hcut
          rw [directory_append hc hname, fileName_append hc hname, List.length_append,
            List.length_singleton, hideDirectory, List.append_assoc, List.singleton_append]
          by_cases hfront : i < front.length
          · rw [List.getElem?_append_left (by simpa using hfront),
              List.getElem?_replicate_of_lt hfront]
            exact .inr (.inl rfl)
          · rw [List.getElem?_append_right (Nat.le_of_not_lt hfront)] at h
            rw [List.getElem?_append_right (by simpa using hfront), List.length_replicate]
            cases hi : i - front.length with
            | zero =>
                rw [hi, List.getElem?_cons_zero, Option.some.injEq] at h
                rw [List.getElem?_cons_zero, ← h]
                simp only [isSeparator, Bool.or_eq_true, beq_iff_eq] at hc
                cases hc with
                | inl hslash =>
                    exact .inl (congrArg some hslash.symm)
                | inr hback =>
                    exact .inr (.inr ⟨hback, rfl⟩)
            | succ j =>
                rw [hi, List.getElem?_cons_succ] at h
                rw [List.getElem?_cons_succ]
                exact (getElem?_hideName config h).imp_right .inl

/-- What masking does to the paths of a text, and that it does nothing else. -/
structure MasksPaths (config : Config) (text shown : Bytes) : Prop where
  length : shown.length = text.length
  spans : ∃ spans, Found text 0 spans ∧ (∀ others, Found text 0 others → others = spans) ∧
    MasksFrom config text shown 0 spans
  bytes : ∀ (i : Nat) (b : UInt8), text[i]? = some b →
    shown[i]? = some b ∨ shown[i]? = some config.markByte ∨
      (b = backslash ∧ shown[i]? = some slash)

theorem masksPaths_hidePaths (config : Config) (text : Bytes) :
    MasksPaths config text (hidePaths config text) := by
  obtain ⟨spans, hfound, hmasks⟩ := exists_found config text [] [] rfl
  simp only [List.nil_append, List.length_nil] at hfound hmasks
  constructor
  · exact hidePaths_length config text
  · exact ⟨spans, hfound, fun others => hfound.unique, hmasks⟩
  · intro i b hb
    by_cases hcovered : ∃ span ∈ spans, span.Covers i
    · obtain ⟨span, hspan, hcovers⟩ := hcovered
      rw [← Span.getElem?_of hcovers] at hb ⊢
      rw [hmasks.inside span hspan]
      exact getElem?_hidePath config hb
    · left
      rw [hmasks.outside i (Nat.zero_le i) fun span hspan hcovers =>
        hcovered ⟨span, hspan, hcovers⟩]
      exact hb

/-- A message is masked at its paths and nowhere else, and if signatures are hidden too, they are
hidden first. -/
theorem hideMessage_masks_paths {config : Config} (hpaths : config.paths = true) :
    (config.signatures = false → ∀ text, MasksPaths config text (hideMessage config text)) ∧
      (config.signatures = true → ∀ text, hideMessage config text =
        hideMessage { config with signatures := false } (Signature.redact text)) := by
  constructor
  · intro hsignatures text
    simp only [hideMessage, hideUrl, hsignatures, hpaths, Bool.false_eq_true, if_false, if_true]
    exact masksPaths_hidePaths config text
  · intro hsignatures text
    have hsame : ∀ path, hidePath { config with signatures := false } path = hidePath config path :=
      fun _ => rfl
    simp only [hideMessage, hideUrl, hsignatures, Bool.false_eq_true, if_false, if_true]
    rw [if_pos hpaths, if_pos hpaths, hidePaths_congr hsame]

def pathsOnly : Config := { paths := true, signatures := false }

/-- A drive path, an address with its port between two paths, a slash that starts none, and a
signature. -/
def pathText : Bytes := ascii "C:\\a\\.b\\ at http://lake:80/fs/report.txt, / /x?sig=/secrets"

theorem pathText_masks_paths :
    pathsOnly.paths = true ∧ MasksPaths pathsOnly pathText (hideMessage pathsOnly pathText) ∧
      hideMessage pathsOnly pathText =
        ascii "*******/ at http://lake:80***/repo**.txt, / /x?sig=/secr***" ∧
      hideMessage .all pathText = hideMessage pathsOnly (Signature.redact pathText) :=
  ⟨rfl, (hideMessage_masks_paths rfl).1 rfl pathText, by decide,
    (hideMessage_masks_paths (show Config.all.paths = true from rfl)).2 rfl pathText⟩

end Redaction

end LakeUpload
