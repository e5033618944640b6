import CommandTree.Namespace.Word
import CommandTree.Text.Span

/-!
# Faults of a namespace

What can be wrong with a namespace, its segments or the aliases of its last word. Each fault
has one message, and most point at the bytes they are about.
-/

namespace CommandTree.Namespace

open Text (Span)

/-- What is wrong with a namespace. -/
inductive Fault
  /-- There is nothing but white space. -/
  | blank
  /-- No word stands at byte `offset`, where one should. -/
  | emptyToken (offset : Nat)
  /-- The brackets of a word do not match. -/
  | malformed (defect : Word.Defect) (word : String) (span : Span)
  /-- The last word is an argument, and aliases are given. -/
  | aliasedArgument (word : String) (span : Span)
  /-- A segment has white space in it. -/
  | compoundSegment (segment : String) (span : Span)
  /-- An alias is no literal word. -/
  | invalidAlias (word : String)
  /-- An alias repeats the name or an earlier alias. -/
  | duplicateAlias (word name : String)
  deriving DecidableEq, Repr

namespace Fault

/-- The text of a fault. -/
def message : Fault → String
  | .blank => "namespace should not be blank"
  | .emptyToken _ => "namespace contains an empty token"
  | .malformed .unmatchedOpen word _ => "\"" ++ word ++ "\" contains an unmatched \"<\""
  | .malformed .unmatchedClose word _ => "\"" ++ word ++ "\" contains an unmatched \">\""
  | .malformed .emptyArgument word _ => "argument name in \"" ++ word ++ "\" should not be empty"
  | .malformed .strayBracket word _ =>
    "\"" ++ word ++ "\" contains an angle bracket inside its name"
  | .aliasedArgument word _ => "\"" ++ word ++ "\" is an argument and cannot have aliases"
  | .compoundSegment segment _ => "segment \"" ++ segment ++ "\" should be a single word"
  | .invalidAlias word => "alias \"" ++ word ++ "\" should be a single literal"
  | .duplicateAlias word name =>
    "alias \"" ++ word ++ "\" is declared more than once for \"" ++ name ++ "\""

/-- The bytes that a fault points at. -/
def span? : Fault → Option Span
  | .blank => none
  | .emptyToken offset => some ⟨offset, offset⟩
  | .malformed _ _ span => some span
  | .aliasedArgument _ span => some span
  | .compoundSegment _ span => some span
  | .invalidAlias _ => none
  | .duplicateAlias _ _ => none

end Fault

end CommandTree.Namespace
