import CommandTree.Namespace.Fault
import CommandTree.Text.Whitespace

/-!
# Reading a namespace

A namespace is a sequence of lexemes: single white-space characters, which separate, and words
between them. `tokenize` goes through the lexemes once. It turns words into tokens and remembers
whether a word is to come: a separator that comes in its place is a fault, and so is the end of
the text. The result is the tokens, or all faults if there is one.

`joinSegments` goes the other way: a list of segments is a namespace with one word for each
segment, provided that no segment has white space in it.
-/

namespace CommandTree.Namespace

open Text (Span byteLength isSpace)

/-- A word of a namespace: what it stands for, where it stands, and its other names. -/
structure Token where
  identity : Identity
  span : Span
  aliases : List String := []
  deriving DecidableEq, Repr, Inhabited

/-! ## Lexemes -/

/-- A part of a namespace. -/
inductive Lexeme
  /-- One white-space character. -/
  | separator
  /-- Characters that are no white space, as far as they go. -/
  | word (chars : List Char)
  deriving DecidableEq, Repr, Inhabited

/-- The lexemes of a text that starts at byte `start`, each with its bytes. -/
def lexemes (start : Nat) : List Char → List (Lexeme × Span)
  | [] => []
  | c :: cs =>
    let next := start + c.utf8Size
    if isSpace c then
      (.separator, ⟨start, next⟩) :: lexemes next cs
    else
      match lexemes next cs with
      | (.word chars, span) :: rest => (.word (c :: chars), ⟨start, span.stop⟩) :: rest
      | rest => (.word [c], ⟨start, next⟩) :: rest

/-- The token of a word, or the defect of its brackets. -/
def readWord (word : List Char) (span : Span) : Except Fault Token :=
  match Word.read word with
  | .ok identity => .ok { identity, span }
  | .error defect => .error (.malformed defect (String.ofList word) span)

/-! ## Whole namespaces -/

/-- What was found in the lexemes so far. -/
structure Scan where
  tokens : List Token := []
  faults : List Fault := []
  /-- A separator is in place only behind a word. -/
  expectsWord : Bool := true
  deriving DecidableEq, Repr, Inhabited

namespace Scan

/-- Adds a token or a fault. -/
def add (s : Scan) : Except Fault Token → Scan
  | .ok token => { s with tokens := s.tokens ++ [token] }
  | .error fault => { s with faults := s.faults ++ [fault] }

/-- Takes a lexeme. A separator where a word is to come leaves an empty token before it. -/
def step (s : Scan) : Lexeme × Span → Scan
  | (.word chars, span) => { s.add (readWord chars span) with expectsWord := false }
  | (.separator, span) =>
    if s.expectsWord then
      s.add (.error (.emptyToken span.start))
    else
      { s with expectsWord := true }

/-- The tokens, or all faults if there is one. -/
def result (s : Scan) : Except (List Fault) (List Token) :=
  if s.faults.isEmpty then .ok s.tokens else .error s.faults

/-- The result at the end of the text, which is at byte `stop`. -/
def finish (s : Scan) (stop : Nat) : Except (List Fault) (List Token) :=
  if s.expectsWord then (s.add (.error (.emptyToken stop))).result else s.result

end Scan

/-- The tokens of a namespace, or all its faults in order. -/
def tokenize (text : String) : Except (List Fault) (List Token) :=
  if (Text.trim text.toList).isEmpty then
    .error [.blank]
  else
    ((lexemes 0 text.toList).foldl Scan.step {}).finish (byteLength text.toList)

/-! ## Segments -/

/-- The segments that have white space in them, with the bytes they take in the joined text.
The first segment starts at byte `start`. -/
def compoundSegments (start : Nat) : List String → List Fault
  | [] => []
  | segment :: rest =>
    let stop := start + byteLength segment.toList
    let faults := compoundSegments (stop + 1) rest
    if segment.toList.any isSpace then
      .compoundSegment segment ⟨start, stop⟩ :: faults
    else
      faults

/-- The segments with a space between them. -/
def segmentText (segments : List String) : String :=
  " ".intercalate segments

/-- The namespace with one word for each segment. -/
def joinSegments (segments : List String) : Except (List Fault) String :=
  match compoundSegments 0 segments with
  | [] => .ok (segmentText segments)
  | faults => .error faults

end CommandTree.Namespace
