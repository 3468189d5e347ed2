import LakeUpload.Destination.Url
import LakeUpload.Fault

/-!
# Reading destinations

A text is cut into scheme, authority, path and query, and each part is read by a function of its
own. `Flaw` lists what can be wrong; of two flaws the one that stands first in the order of
reading is reported.
-/

namespace LakeUpload

open Bytes

/-- What is wrong with a text that names no destination. -/
inductive Flaw where
  | empty
  | blankOrControl
  | noScheme
  | unknownScheme (name : Bytes)
  | openHost
  | noHost
  | afterHost
  | badPort
  deriving DecidableEq, Repr

namespace Flaw

def reason : Flaw → Bytes
  | empty => ascii "empty"
  | blankOrControl => ascii "contains whitespace or control characters"
  | noScheme => ascii "missing scheme"
  | unknownScheme name => ascii "unsupported scheme '" ++ name ++ ascii "'"
  | openHost => ascii "unterminated IPv6 host"
  | noHost => ascii "missing host"
  | afterHost => ascii "unexpected characters after IPv6 host"
  | badPort => ascii "invalid port"

def fault (text : Bytes) (flaw : Flaw) : Fault :=
  ⟨.malformedDestination,
    ascii "malformed destination '" ++ text ++ ascii "': " ++ flaw.reason⟩

end Flaw

namespace Url

/-! ## Cutting the text -/

/-- The parts around the first colon that two slashes follow. -/
def cutScheme : Bytes → Option (Bytes × Bytes)
  | [] => none
  | b :: rest =>
      if b = colon ∧ rest.take 2 = [slash, slash] then some ([], rest.drop 2)
      else (cutScheme rest).map fun parts => (b :: parts.1, parts.2)

/-- What stands behind the scheme, without the fragment. -/
structure Pieces where
  authority : Bytes
  path : Bytes
  query : Bytes
  deriving DecidableEq, Repr

def Pieces.ofText (text : Bytes) : Pieces :=
  let shown := (cutFirst hash text).1
  let front := (cutFirst question shown).1
  { authority := front.takeWhile (· != slash)
    path := front.dropWhile (· != slash)
    query := (cutFirst question shown).2.getD [] }

theorem cutScheme_append {name : Bytes} (hname : colon ∉ name) (rest : Bytes) :
    cutScheme (name ++ colon :: slash :: slash :: rest) = some (name, rest) := by
  induction name with
  | nil =>
      simp [cutScheme]
  | cons b name ih =>
      have hb : b ≠ colon := fun h => hname (by simp [h])
      have htail : colon ∉ name := fun h => hname (by simp [h])
      simp only [List.cons_append, cutScheme, hb, false_and, if_false, ih htail, Option.map_some]

/-! ## Reading the authority -/

/-- No text is no port; otherwise it takes digits with a value of 16 bits. -/
def readPort (text : Bytes) : Except Flaw (Option UInt16) :=
  if text = [] then .ok none
  else
    match ofDigits? text with
    | some value => if value < 65536 then .ok (some (UInt16.ofNat value)) else .error .badPort
    | none => .error .badPort

/-- A host in brackets ends at the first closing bracket, and only a port may follow. -/
def readBracketed (authority : Bytes) : Except Flaw (Bytes × Option UInt16) :=
  match cutFirst closeBracket authority with
  | (_, none) => .error .openHost
  | (before, some after) =>
      if before.length = 1 then .error .noHost
      else
        match after with
        | [] => .ok (before ++ [closeBracket], none)
        | b :: text =>
            if b = colon then
              (readPort text).map fun port => (before ++ [closeBracket], port)
            else .error .afterHost

/-- A host without brackets ends at the last colon. -/
def readPlain (authority : Bytes) : Except Flaw (Bytes × Option UInt16) :=
  match cutLast colon authority with
  | none => if authority = [] then .error .noHost else .ok (authority, none)
  | some (host, text) =>
      match readPort text with
      | .error flaw => .error flaw
      | .ok port => if host = [] then .error .noHost else .ok (host, port)

def readAuthority (authority : Bytes) : Except Flaw (Bytes × Option UInt16) :=
  if authority.head? = some openBracket then readBracketed authority else readPlain authority

/-! ## Reading the path -/

/-- The non-empty pieces between the slashes. -/
def segments (path : Bytes) : List Bytes :=
  (split slash path).filter (· ≠ [])

theorem segments_append (front back : Bytes) :
    segments (front ++ slash :: back) = segments front ++ segments back := by
  simp [segments, split_append_cons]

/-! ## Reading the whole -/

def ofPieces (scheme : Scheme) (pieces : Pieces) : Except Flaw Url :=
  match readAuthority pieces.authority with
  | .error flaw => .error flaw
  | .ok (host, port) =>
      .ok {
        scheme
        host := lower host
        port
        filesystem := (segments pieces.path).headD []
        path := join slash (segments pieces.path).tail
        query := pieces.query }

def read (text : Bytes) : Except Flaw Url :=
  if text = [] then .error .empty
  else if text.any (fun b => isBlank b || isControl b) then .error .blankOrControl
  else
    match cutScheme text with
    | none => .error .noScheme
    | some (name, rest) =>
        if name = [] then .error .noScheme
        else
          match Scheme.ofText? (lower name) with
          | none => .error (.unknownScheme (lower name))
          | some scheme => ofPieces scheme (Pieces.ofText rest)

/-- The destination that a text names; the fault quotes the text. -/
def parse (text : Bytes) : Except Fault Url :=
  (read text).mapError (Flaw.fault text)

theorem parse_eq_ok_iff {text : Bytes} {url : Url} :
    parse text = .ok url ↔ read text = .ok url := by
  unfold parse
  cases read text with
  | error flaw =>
      constructor <;> nofun
  | ok found =>
      constructor
      · intro h
        exact congrArg Except.ok (Except.ok.inj h)
      · intro h
        exact congrArg Except.ok (Except.ok.inj h)

end Url

end LakeUpload
