import CommandTree.Identity

/-!
# Words of a namespace

A word without angle brackets is a literal, and a word between angle brackets an argument.
`read` says what a word is, or which one of four defects it has.
-/

namespace CommandTree.Namespace.Word

/-- What is wrong with the brackets of a word. -/
inductive Defect
  /-- It starts with an opening bracket and does not end with a closing one. -/
  | unmatchedOpen
  /-- It ends with a closing bracket and has no opening one. -/
  | unmatchedClose
  /-- Nothing stands between its brackets. -/
  | emptyArgument
  /-- There is a bracket inside its name. -/
  | strayBracket
  deriving DecidableEq, Repr

/-- An angle bracket. -/
def isBracket (c : Char) : Bool :=
  c == '<' || c == '>'

/-- The argument with the characters of `name`, which lie between the brackets. -/
def readArgument (name : List Char) : Except Defect Identity :=
  if name.isEmpty then .error .emptyArgument
  else if name.any isBracket then .error .strayBracket
  else .ok (.argument (String.ofList name))

/-- The identity that a word stands for. A word of one character can open and not close. -/
def read (word : List Char) : Except Defect Identity :=
  let opens := word.head? == some '<'
  let closes := word.getLast? == some '>'
  if opens then
    if closes then readArgument word.tail.dropLast else .error .unmatchedOpen
  else if closes && !word.contains '<' then .error .unmatchedClose
  else if word.any isBracket then .error .strayBracket
  else .ok (.literal (String.ofList word))

end CommandTree.Namespace.Word
