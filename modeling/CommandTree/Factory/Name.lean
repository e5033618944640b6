import CommandTree.Environment
import CommandTree.Factory.Fault
import CommandTree.Text.Case
import CommandTree.TypeText

/-!
# Names of factories

The factory of a type has the type's last name in snake case, with a suffix. Types that
share this name are named by their whole path. If two factories still have the same name,
the later one is a fault.
-/

namespace CommandTree.Factory

open Text (isLower isUpper toLower)
open TypeText (lastSegment segments)

/-- A word starts at an upper-case character after a lower-case one or a digit, and at the
last upper-case character of a run before a lower-case one. -/
def startsWord (previous next : Option Char) : Bool :=
  match previous with
  | some p => isLower p || p.isDigit || (isUpper p && next.any isLower)
  | none => false

/-- The rest of a name in snake case, after the character `previous`. -/
def snakeFrom (previous : Option Char) : List Char → List Char
  | [] => []
  | c :: cs =>
    if isUpper c then
      (if startsWord previous cs.head? then ['_'] else []) ++ toLower c ++ snakeFrom (some c) cs
    else
      c :: snakeFrom (some c) cs

/-- A name with its words in lower case and underscores between them. -/
def snakeCase (name : List Char) : String :=
  String.ofList (snakeFrom none name)

/-- The name of a factory from the last name of its type. -/
def shortName (suffix path : String) : String :=
  snakeCase (lastSegment path.toList) ++ suffix

/-- A segment that says only where a path starts. -/
def isPathStart (segment : List Char) : Bool :=
  segment == "crate".toList || segment == "self".toList || segment == "super".toList

/-- The name of a factory from the whole path of its type. -/
def qualifiedName (suffix path : String) : String :=
  "_".intercalate (((segments path.toList).dropWhile isPathStart).map snakeCase) ++ suffix

/-- The name of a scope's factory among those of all scopes. -/
def chosenName (suffix : String) (scopes : List Scope) (scope : Scope) : String :=
  let short := shortName suffix scope.name
  if (scopes.countP fun other => shortName suffix other.name == short) > 1 then
    qualifiedName suffix scope.name
  else
    short

/-- The names of the scopes' factories, unless one of them is in `seen` or comes twice. -/
def distinctNames (name : Scope → String) : List String → List Scope → Except Fault (List String)
  | _, [] => .ok []
  | seen, scope :: rest =>
    if name scope ∈ seen then
      .error ⟨scope.site, .nameClash (name scope)⟩
    else
      (distinctNames name (name scope :: seen) rest).map (name scope :: ·)

/-- The names of all factories, in the order of the scopes. -/
def names (suffix : String) (scopes : List Scope) : Except Fault (List String) :=
  distinctNames (chosenName suffix scopes) [] scopes

end CommandTree.Factory
