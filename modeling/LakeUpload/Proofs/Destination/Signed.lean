import LakeUpload.Proofs.Destination.Grammar
import LakeUpload.Proofs.Redaction.Signatures

/-!
# Destinations that differ in signatures only

Signatures are parameters, so they stand behind a question mark. Two destinations that differ only
there, and that name the same scheme, are read the same way: either both are refused for the same
reason, or they give URLs that differ in signatures of their queries only.
-/

namespace LakeUpload

open Bytes

/-! ## Queries -/

namespace Signature

/-- Texts that are the same up to their first question mark, and alike from there on. -/
inductive AlikeQuery : Bytes → Bytes → Prop where
  | nil : AlikeQuery [] []
  | cons {b : UInt8} {s s' : Bytes} (hb : b ≠ question) (h : AlikeQuery s s') :
      AlikeQuery (b :: s) (b :: s')
  | query {s s' : Bytes} (h : Alike (question :: s) (question :: s')) :
      AlikeQuery (question :: s) (question :: s')

namespace AlikeQuery

variable {s s' : Bytes}

theorem alike (h : AlikeQuery s s') : Alike s s' := by
  induction h with
  | nil =>
      exact .nil
  | cons _ _ ih =>
      exact .cons _ ih
  | query h =>
      exact h

theorem append_left {front : Bytes} (hfront : question ∉ front) (h : AlikeQuery s s') :
    AlikeQuery (front ++ s) (front ++ s') := by
  induction front with
  | nil =>
      exact h
  | cons b front ih =>
      have hb : b ≠ question := fun heq => hfront (by simp [heq])
      exact .cons hb (ih fun hmem => hfront (by simp [hmem]))

/-- A part without a question mark is the same in both texts. -/
theorem exists_append {front t : Bytes} (hfront : question ∉ front)
    (h : AlikeQuery (front ++ s) t) : ∃ s', t = front ++ s' ∧ AlikeQuery s s' := by
  induction front generalizing t with
  | nil =>
      exact ⟨t, rfl, h⟩
  | cons b front ih =>
      have hb : question ≠ b := fun heq => hfront (by simp [heq])
      have hrest : question ∉ front := fun hmem => hfront (by simp [hmem])
      cases h with
      | cons _ h =>
          obtain ⟨s', rfl, hs⟩ := ih hrest h
          exact ⟨s', rfl, hs⟩
      | query _ =>
          exact absurd rfl hb

theorem beforeHash (h : AlikeQuery s s') :
    AlikeQuery (cutFirst hash s).1 (cutFirst hash s').1 := by
  induction h with
  | nil =>
      exact .nil
  | @cons b s s' hb _ ih =>
      by_cases hhash : b = hash
      · simpa [cutFirst, hhash] using nil
      · simpa [cutFirst, hhash] using cons hb ih
  | query h =>
      exact .query h.beforeHash

/-- What is cut off behind the question mark is alike, the rest is the same. -/
theorem cut (h : AlikeQuery s s') :
    (cutFirst question s).1 = (cutFirst question s').1 ∧
      Alike (question :: (cutFirst question s).2.getD [])
        (question :: (cutFirst question s').2.getD []) := by
  induction h with
  | nil =>
      exact ⟨rfl, .refl _⟩
  | @cons b s s' hb _ ih =>
      simp only [cutFirst, hb, if_false]
      exact ⟨congrArg (b :: ·) ih.1, ih.2⟩
  | query h =>
      exact ⟨rfl, h⟩

end AlikeQuery

end Signature

/-! ## Faults -/

/-- Faults of one code whose messages differ in signatures only. -/
structure Fault.Alike (fault fault' : Fault) : Prop where
  code : fault.code = fault'.code
  message : Signature.Alike fault.message fault'.message

/-- Answers that are alike: values that are related, or faults that are alike. -/
inductive Fault.AlikeAnswers {α : Type} (related : α → α → Prop) :
    Except Fault α → Except Fault α → Prop where
  | ok {a a' : α} (h : related a a') : AlikeAnswers related (.ok a) (.ok a')
  | error {fault fault' : Fault} (h : fault.Alike fault') :
      AlikeAnswers related (.error fault) (.error fault')

theorem Fault.AlikeAnswers.ok_or_error {α : Type} {related : α → α → Prop}
    {answer answer' : Except Fault α} (h : AlikeAnswers related answer answer') :
    (∃ a a', answer = .ok a ∧ answer' = .ok a' ∧ related a a') ∨
      ∃ fault fault', answer = .error fault ∧ answer' = .error fault' ∧ fault.Alike fault' := by
  cases h with
  | ok h =>
      exact .inl ⟨_, _, rfl, rfl, h⟩
  | error h =>
      exact .inr ⟨_, _, rfl, rfl, h⟩

theorem Fault.Alike.refl (fault : Fault) : fault.Alike fault := ⟨rfl, .refl _⟩

namespace Url

open Signature (AlikeQuery)

/-! ## URLs -/

/-- URLs that differ in signatures of their queries only. -/
structure Alike (url url' : Url) : Prop where
  scheme : url.scheme = url'.scheme
  host : url.host = url'.host
  port : url.port = url'.port
  filesystem : url.filesystem = url'.filesystem
  path : url.path = url'.path
  query : Signature.Alike (question :: url.query) (question :: url'.query)

theorem alike_queryText {query query' : Bytes}
    (h : Signature.Alike (question :: query) (question :: query')) :
    Signature.Alike (queryText query) (queryText query') := by
  by_cases hquery : query = []
  · subst hquery
    obtain rfl : query' = [] := (List.cons.inj h.eq_singleton).2
    exact .nil
  · have hquery' : query' ≠ [] := by
      rintro rfl
      exact hquery (List.cons.inj h.symm.eq_singleton).2
    simpa [queryText, hquery, hquery'] using h

theorem Alike.toText {url url' : Url} (h : url.Alike url') :
    Signature.Alike url.toText url'.toText := by
  simp only [Url.toText, h.scheme, h.host, h.port, h.filesystem, h.path]
  exact (alike_queryText h.query).append_left _

/-! ## Reading -/

theorem alike_ofPieces {s s' : Bytes} (h : AlikeQuery s s') (scheme : Scheme) :
    (∃ flaw, ofPieces scheme (Pieces.ofText s) = .error flaw ∧
      ofPieces scheme (Pieces.ofText s') = .error flaw) ∨
    ∃ url url', ofPieces scheme (Pieces.ofText s) = .ok url ∧
      ofPieces scheme (Pieces.ofText s') = .ok url' ∧ url.Alike url' := by
  obtain ⟨hfront, hquery⟩ := h.beforeHash.cut
  simp only [ofPieces, Pieces.ofText, hfront]
  cases readAuthority _ with
  | error flaw =>
      exact .inl ⟨flaw, rfl, rfl⟩
  | ok found =>
      exact .inr ⟨_, _, rfl, rfl, ⟨rfl, rfl, rfl, rfl, rfl, hquery⟩⟩

/-- Both texts have the same name in front of their first colon with two slashes, or neither has
such a colon. -/
def SameScheme (s s' : Bytes) : Prop :=
  (cutScheme s).map Prod.fst = (cutScheme s').map Prod.fst

/-- Where the scheme of one text is known, the texts are the same up to its slashes. -/
theorem alike_rest {name rest t : Bytes} {scheme : Scheme} (hname : lower name = scheme.text)
    (h : AlikeQuery (name ++ colon :: slash :: slash :: rest) t) :
    ∃ rest', t = name ++ colon :: slash :: slash :: rest' ∧ AlikeQuery rest rest' := by
  have hquestion : question ∉ name ++ [colon, slash, slash] := by
    intro hmem
    rcases List.mem_append.1 hmem with hin | hin
    · exact not_mem_scheme (by decide) hname hin
    · revert hin
      decide
  have htext : name ++ colon :: slash :: slash :: rest =
      (name ++ [colon, slash, slash]) ++ rest := by simp
  rw [htext] at h
  obtain ⟨rest', ht, hrest⟩ := h.exists_append hquestion
  exact ⟨rest', by simpa using ht, hrest⟩

/-- A text that is read names its scheme, and so does any that differs in signatures only. -/
theorem sameScheme_of_parse {s s' : Bytes} (h : AlikeQuery s s') {url : Url}
    (hurl : parse s = .ok url) : SameScheme s s' := by
  obtain ⟨-, name, rest, rfl, hname⟩ := parts_of_read (parse_eq_ok_iff.1 hurl)
  have hcolon : colon ∉ name := not_mem_scheme (by decide) hname
  obtain ⟨rest', rfl, -⟩ := alike_rest hname h
  rw [SameScheme, cutScheme_append hcolon, cutScheme_append hcolon]
  rfl

theorem alike_read {s s' : Bytes} (h : AlikeQuery s s') (hscheme : SameScheme s s') :
    (∃ flaw, read s = .error flaw ∧ read s' = .error flaw) ∨
    ∃ url url', read s = .ok url ∧ read s' = .ok url' ∧ url.Alike url' := by
  have hempty := h.alike.eq_nil_iff
  have hblank : s.any (fun b => isBlank b || isControl b) =
      s'.any (fun b => isBlank b || isControl b) :=
    h.alike.any_eq fun _ => Signature.isShown_of_isSecret
  unfold SameScheme at hscheme
  simp only [read, hempty, hblank]
  split
  · exact .inl ⟨_, rfl, rfl⟩
  split
  · exact .inl ⟨_, rfl, rfl⟩
  cases hcut : cutScheme s with
  | none =>
      rw [hcut] at hscheme
      rw [Option.map_eq_none_iff.1 hscheme.symm]
      exact .inl ⟨_, rfl, rfl⟩
  | some parts =>
      obtain ⟨name, rest⟩ := parts
      rw [hcut] at hscheme
      obtain ⟨⟨name', rest'⟩, hcut', rfl⟩ := Option.map_eq_some_iff.1 hscheme.symm
      simp only [hcut']
      split
      · exact .inl ⟨_, rfl, rfl⟩
      split
      · exact .inl ⟨_, rfl, rfl⟩
      · rename_i scheme hname
        rw [append_of_cutScheme hcut, append_of_cutScheme hcut'] at h
        obtain ⟨again, hagain, hrest⟩ := alike_rest (Scheme.text_of_ofText? hname).symm h
        have hsame : rest' = again := by simpa using hagain
        exact alike_ofPieces (hsame ▸ hrest) scheme

/-- Destinations that differ in signatures only are refused alike, or name URLs that are alike. -/
theorem alike_parse {s s' : Bytes} (h : AlikeQuery s s') (hscheme : SameScheme s s') :
    Fault.AlikeAnswers Alike (parse s) (parse s') := by
  unfold parse
  rcases alike_read h hscheme with ⟨flaw, hread, hread'⟩ | ⟨url, url', hread, hread', hurl⟩
  · rw [hread, hread']
    refine .error ⟨rfl, ?_⟩
    exact ((h.alike.append_left _).append_right _).append_right _
  · rw [hread, hread']
    exact .ok hurl

theorem alike_of_parse {s s' : Bytes} (h : AlikeQuery s s') (hscheme : SameScheme s s')
    {url url' : Url} (hurl : parse s = .ok url) (hurl' : parse s' = .ok url') :
    url.Alike url' := by
  have hparse := alike_parse h hscheme
  rw [hurl, hurl'] at hparse
  cases hparse with
  | ok halike =>
      exact halike

end Url

end LakeUpload
