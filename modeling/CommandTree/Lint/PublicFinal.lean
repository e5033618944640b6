import CommandTree.Environment

/-!
# Bound elements are public and immutable

The generated source reads bound elements from outside their type. An element that is not
public, or that can change, is reported once, however often it is bound.
-/

namespace CommandTree.Lint

/-- The list without the repetitions of earlier members. -/
def distinct {α : Type} [DecidableEq α] (seen : List α) : List α → List α
  | [] => []
  | a :: as => if a ∈ seen then distinct seen as else a :: distinct (a :: seen) as

/-- The diagnostic for an element that may not be bound. -/
def modifierDiagnostic (site : Element) : Diagnostic :=
  .ofError .modifier site
    (if site.isField then "field should be public final" else "method should be public final")

/-- Reports each bound element that is not public and immutable. -/
def publicFinal (env : Environment) : List Diagnostic :=
  let sites := (env.bindings.map (·.site)).filter (!·.isPublicFinal)
  (distinct [] sites).map modifierDiagnostic

end CommandTree.Lint
