import CommandTree.Diagnostic

/-!
# Diagnostics as text

The first line of a diagnostic has its severity, kind and message, the second its element.
The namespace follows with carets under the span, then the other elements and the notes. A
span that ends inside a character cannot be shown, and then there is no text.
-/

namespace CommandTree

open Text (byteLength splitAtByte?)

/-- The text before the span and the text of the span. Positions past the end count as the
end, and a span that ends before its start is empty. -/
def Snippet.cut? (s : Snippet) : Option (List Char × List Char) :=
  let size := byteLength s.text.toList
  let start := min s.span.start size
  let stop := min (max s.span.stop start) size
  match splitAtByte? s.text.toList start with
  | some (before, after) =>
    (splitAtByte? after (stop - start)).map fun (inside, _) => (before, inside)
  | none => none

/-- The namespace with carets under the span, at least one. -/
def Snippet.render? (s : Snippet) : Option String :=
  s.cut?.map fun (before, inside) =>
    "   |\n" ++ "   | " ++ s.text ++ "\n" ++ "   | " ++
      String.ofList (List.replicate before.length ' ') ++
      String.ofList (List.replicate (max inside.length 1) '^') ++ "\n"

/-- Two lines for another element. -/
def Label.render (l : Label) : String :=
  "   = note: " ++ l.message ++ "\n" ++ "     at " ++ l.site.display ++ "\n"

namespace Diagnostic

/-- A line for a note. -/
def renderNote (note : String) : String :=
  "   = help: " ++ note ++ "\n"

/-- The namespace of a diagnostic, if it has one. -/
def renderSnippet? (d : Diagnostic) : Option String :=
  match d.snippet with
  | some snippet => snippet.render?
  | none => some ""

/-- The lines of a diagnostic. -/
def render? (d : Diagnostic) : Option String :=
  d.renderSnippet?.map fun snippet =>
    d.display ++ "\n" ++ "  --> " ++ d.site.display ++ "\n" ++ snippet ++
      String.join (d.labels.map Label.render) ++ String.join (d.notes.map renderNote)

/-- The diagnostics with an empty line between them. -/
def renderAll? (ds : List Diagnostic) : Option String :=
  (ds.mapM render?).map "\n".intercalate

end Diagnostic

end CommandTree
