import CommandTree.CommandLine

/-! The program: reads the manifest, and prints and writes what is planned. -/

namespace CommandTree.CommandLine

/-- The bytes of a file, if it can be read. -/
def readFile? (path : String) : IO (Option ByteArray) := do
  try
    return some (← IO.FS.readBinFile path)
  catch _ =>
    return none

/-- Prints and writes what is planned, and gives the exit code. -/
def Plan.perform (p : Plan) : IO UInt32 := do
  (← IO.getStderr).putStr p.stderr
  (← IO.getStdout).putStr p.stdout
  match p.file with
  | none => return p.code.toUInt32
  | some (path, text) =>
    try
      IO.FS.writeFile path text
      return p.code.toUInt32
    catch _ =>
      return p.withoutFile.code.toUInt32

end CommandTree.CommandLine

open CommandTree CommandLine in
/-- Runs the program on its arguments. -/
def main (arguments : List String) : IO UInt32 := do
  match Options.ofArguments arguments with
  | .ok options => (plan options (← readFile? options.manifest)).perform
  | .error stop => stop.plan.perform
