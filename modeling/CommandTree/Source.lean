import CommandTree.Text.Whitespace

/-!
# Printed source

Source is printed line by line at a depth of indentation. A printed source can be appended
to another: its text is cut into lines again, and each is printed at the other's depth.
`Source.Step` names the ways to print, so that a printing program is a list of steps.
-/

namespace CommandTree

/-- The text printed so far and the depth of the next line. -/
structure Source where
  text : String := ""
  depth : Nat := 0
  deriving DecidableEq, Repr, Inhabited

namespace Source

/-- Nothing printed, at depth 0. -/
def empty : Source := {}

/-- The blanks in front of a line: four for each level of depth. -/
def indentation : Nat → String
  | 0 => ""
  | depth + 1 => "    " ++ indentation depth

/-- Prints a line. An empty line has no indentation. -/
def line (s : Source) (content : String) : Source :=
  { s with text :=
      if content = "" then s.text ++ "\n"
      else s.text ++ indentation s.depth ++ content ++ "\n" }

/-- Prints an empty line. -/
def blank (s : Source) : Source :=
  s.line ""

/-- Goes one level deeper. -/
def indent (s : Source) : Source :=
  { s with depth := s.depth + 1 }

/-- Goes one level back. Depth 0 stays. -/
def unindent (s : Source) : Source :=
  { s with depth := s.depth - 1 }

/-- Prints several lines. -/
def lines (s : Source) (contents : List String) : Source :=
  contents.foldl line s

/-- The lines of a text. A line ends at a line feed; a carriage return right before the line
feed belongs to the line's end. The text after the last line feed is a line unless it is
empty. -/
def splitLines : List Char → List (List Char)
  | [] => []
  | '\n' :: cs => [] :: splitLines cs
  | '\r' :: '\n' :: cs => [] :: splitLines cs
  | c :: cs =>
    match splitLines cs with
    | [] => [[c]]
    | first :: rest => (c :: first) :: rest

/-- Prints the lines of another source at this depth. -/
def append (s other : Source) : Source :=
  s.lines ((splitLines other.text.toList).map String.ofList)

/-- Nothing was printed. -/
def isEmpty (s : Source) : Bool :=
  s.text.isEmpty

/-- The text with one line feed at its end and no other white space there. -/
def finish (s : Source) : String :=
  String.ofList (Text.trimEnd s.text.toList) ++ "\n"

/-! ## Programs -/

/-- One step of printing. `append` prints the result of steps on an empty source. -/
inductive Step
  | line (content : String)
  | blank
  | indent
  | unindent
  | append (steps : List Step)

mutual

/-- Prints one step. -/
def step (s : Source) : Step → Source
  | .line content => s.line content
  | .blank => s.blank
  | .indent => s.indent
  | .unindent => s.unindent
  | .append steps => s.append (run empty steps)

/-- Prints the steps in order. -/
def run (s : Source) : List Step → Source
  | [] => s
  | first :: rest => run (step s first) rest

end

end Source

end CommandTree
