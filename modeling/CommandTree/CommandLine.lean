import CommandTree.CommandLine.Options
import CommandTree.Compilation
import CommandTree.Manifest

/-!
# The command line

The program loads a manifest, compiles it, reports the diagnostics and writes the source to a
file or to standard output. What it does is decided here; `Main` only does it.
-/

namespace CommandTree.CommandLine

/-- What the program is to print and write, and how it ends. -/
structure Plan where
  code : Nat
  stdout : String := ""
  stderr : String := ""
  /-- A file to write and its text. -/
  file : Option (String × String) := none
  deriving DecidableEq, Repr, Inhabited

/-- Lines with a line feed behind each. -/
def textOfLines (lines : List String) : String :=
  String.join (lines.map (· ++ "\n"))

/-- The help in short. -/
def shortHelp : String :=
  textOfLines
    ["Compile command declarations into command tree factories",
    "",
    "Usage: typist [OPTIONS] <MANIFEST>",
    "",
    "Arguments:",
    "  <MANIFEST>  Path to a JSON declaration manifest",
    "",
    "Options:",
    "  -o, --output <OUTPUT>  File to write generated source to (default: stdout)",
    "      --check            Only report diagnostics, generate nothing",
    "      --format <FORMAT>  How diagnostics are reported [default: pretty] " ++
      "[possible values: pretty, log]",
    "  -h, --help             Print help (see more with '--help')"]

/-- The help in full. -/
def fullHelp : String :=
  textOfLines
    ["Compile command declarations into command tree factories",
    "",
    "Usage: typist [OPTIONS] <MANIFEST>",
    "",
    "Arguments:",
    "  <MANIFEST>",
    "          Path to a JSON declaration manifest",
    "",
    "Options:",
    "  -o, --output <OUTPUT>",
    "          File to write generated source to (default: stdout)",
    "",
    "      --check",
    "          Only report diagnostics, generate nothing",
    "",
    "      --format <FORMAT>",
    "          How diagnostics are reported",
    "",
    "          Possible values:",
    "          - pretty: Rendered with the offending namespace underlined, on stderr",
    "          - log:    One tracing event per diagnostic",
    "          ",
    "          [default: pretty]",
    "",
    "  -h, --help",
    "          Print help (see a summary with '-h')"]

/-- What is done if the program does not start. -/
def Stop.plan : Stop → Plan
  | .usage => { code := 2 }
  | .help full => { code := 0, stdout := if full then fullHelp else shortHelp }

/-- What is done with a compiled manifest. -/
def planCompiled (options : Options) : Except (List Diagnostic) Output → Plan
  | .ok output =>
    let stderr := Report.text options.format output.warnings
    if options.checkOnly then
      { code := 0, stderr }
    else
      match options.output with
      | some path => { code := 0, stderr, file := some (path, output.source) }
      | none => { code := 0, stderr, stdout := output.source }
  | .error ds => { code := 1, stderr := Report.text options.format ds }

/-- What is done with a manifest. One that cannot be loaded only ends the program. -/
def plan (options : Options) (bytes? : Option ByteArray) : Plan :=
  match Manifest.load bytes? with
  | .ok manifest => planCompiled options (compile manifest.settings manifest.declarations)
  | .error _ => { code := 1 }

/-- The plan if its file cannot be written: there is no file, and the program fails. -/
def Plan.withoutFile (p : Plan) : Plan :=
  { p with code := 1, file := none }

end CommandTree.CommandLine
