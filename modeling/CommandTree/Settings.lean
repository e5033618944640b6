/-!
# Settings

The names that the generated source uses, and the names of the types whose fields can be
bound to commands.
-/

namespace CommandTree

/-- Names of the generated source: the module it imports from, the type of a sender, and
the end of every factory's name. -/
structure GenerationSettings where
  runtime : String := "typist_runtime"
  sender : String := "typist_runtime::CommandSender"
  suffix : String := "_commands"
  deriving DecidableEq, Repr, Inhabited

/-- The types whose fields can be bound, one for each role. -/
structure TypeNames where
  argumentType : String := "ArgumentType"
  execution : String := "Execution"
  requirement : String := "Requirement"
  suggestions : String := "SuggestionProvider"
  deriving DecidableEq, Repr, Inhabited

/-- All settings. -/
structure Settings where
  generation : GenerationSettings := {}
  types : TypeNames := {}
  deriving DecidableEq, Repr, Inhabited

end CommandTree
