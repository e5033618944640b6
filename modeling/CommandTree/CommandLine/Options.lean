import CommandTree.Report

/-!
# Options of the command line

The program takes the path of a manifest, and options. An option with a value has it behind
an equals sign or as the next argument; the short option may also have it right behind its
letter. Behind a double dash everything is a path. No option may be given twice.
-/

namespace CommandTree.CommandLine

/-- What the program is asked to do. -/
structure Options where
  manifest : String
  output : Option String := none
  /-- Only report, and generate nothing. -/
  checkOnly : Bool := false
  format : ReportFormat := .pretty
  deriving DecidableEq, Repr, Inhabited

/-- Why the program does not start. -/
inductive Stop
  /-- The arguments are wrong. -/
  | usage
  /-- Help is asked for, in full or in short. -/
  | help (full : Bool)
  deriving DecidableEq, Repr

/-- Options as far as they are given. -/
structure Given where
  manifest : Option String := none
  output : Option String := none
  checkOnly : Bool := false
  format : Option ReportFormat := none
  deriving DecidableEq, Repr, Inhabited

/-- An option with a value. -/
inductive ValueOption
  | output
  | format
  deriving DecidableEq, Repr

/-- Gives an option its value. -/
def Given.setValue (g : Given) (option : ValueOption) (value : String) : Except Stop Given :=
  match option with
  | .output =>
    if value = "" ∨ g.output.isSome then .error .usage
    else .ok { g with output := some value }
  | .format =>
    match g.format, ReportFormat.ofName? value with
    | none, some format => .ok { g with format := some format }
    | _, _ => .error .usage

/-- Asks for a check only. -/
def Given.setCheckOnly (g : Given) : Except Stop Given :=
  if g.checkOnly then .error .usage else .ok { g with checkOnly := true }

/-- Gives the path of the manifest. -/
def Given.setManifest (g : Given) (path : String) : Except Stop Given :=
  if path = "" ∨ g.manifest.isSome then .error .usage else .ok { g with manifest := some path }

/-- All options, once there is a manifest. -/
def Given.finish (g : Given) : Except Stop Options :=
  match g.manifest with
  | some manifest =>
    .ok { manifest, output := g.output, checkOnly := g.checkOnly, format := g.format.getD .pretty }
  | none => .error .usage

/-! ## One argument -/

/-- What an argument is. -/
inductive Argument
  | path (path : String)
  | checkOnly
  | help (full : Bool)
  /-- An option with its value. -/
  | withValue (option : ValueOption) (value : String)
  /-- An option whose value is the next argument. -/
  | needsValue (option : ValueOption)
  /-- The double dash. -/
  | endOfOptions
  | unknown
  deriving DecidableEq, Repr

/-- A long option, by the text behind its dashes. -/
def readLong (text : List Char) : Argument :=
  let name := String.ofList (text.takeWhile (· != '='))
  let value := text.dropWhile (· != '=')
  match name, value with
  | "check", [] => .checkOnly
  | "help", [] => .help true
  | "output", [] => .needsValue .output
  | "format", [] => .needsValue .format
  | "output", _ :: value => .withValue .output (String.ofList value)
  | "format", _ :: value => .withValue .format (String.ofList value)
  | _, _ => .unknown

/-- A short option, by the text behind its dash. -/
def readShort : List Char → Argument
  | ['o'] => .needsValue .output
  | 'o' :: '=' :: value => .withValue .output (String.ofList value)
  | 'o' :: value => .withValue .output (String.ofList value)
  | 'h' :: _ => .help false
  | _ => .unknown

/-- What an argument is. A single dash is a path. -/
def readArgument (text : String) : Argument :=
  match text.toList with
  | ['-', '-'] => .endOfOptions
  | '-' :: '-' :: rest => readLong rest
  | ['-'] => .path text
  | '-' :: rest => readShort rest
  | _ => .path text

/-! ## All arguments -/

/-- Takes all arguments as paths. -/
def readPaths : List String → Given → Except Stop Given
  | [], g => .ok g
  | path :: rest, g => do
    let g ← g.setManifest path
    readPaths rest g

/-- Goes through the arguments. The value of an option cannot look like an option. -/
def readArguments : List String → Given → Except Stop Given
  | [], g => .ok g
  | first :: rest, g =>
    match readArgument first with
    | .path path => do
      let g ← g.setManifest path
      readArguments rest g
    | .checkOnly => do
      let g ← g.setCheckOnly
      readArguments rest g
    | .help full => .error (.help full)
    | .withValue option value => do
      let g ← g.setValue option value
      readArguments rest g
    | .needsValue option =>
      match rest with
      | value :: rest =>
        match readArgument value with
        | .path value => do
          let g ← g.setValue option value
          readArguments rest g
        | _ => .error .usage
      | [] => .error .usage
    | .endOfOptions => readPaths rest g
    | .unknown => .error .usage

/-- The options that the arguments give. -/
def Options.ofArguments (arguments : List String) : Except Stop Options := do
  let g ← readArguments arguments {}
  g.finish

end CommandTree.CommandLine
