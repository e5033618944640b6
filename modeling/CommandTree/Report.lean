import CommandTree.Diagnostic.Render

/-!
# Reports

Diagnostics are reported in one of two forms: rendered, or one line each as a log has it. In
a log line, control characters that a terminal acts on are shown by their code point.
-/

namespace CommandTree

/-- How diagnostics are reported. -/
inductive ReportFormat
  | pretty
  | log
  deriving DecidableEq, Repr, Inhabited

namespace ReportFormat

/-- The format with this name. -/
def ofName? (name : String) : Option ReportFormat :=
  if name = "pretty" then some .pretty
  else if name = "log" then some .log
  else none

end ReportFormat

namespace Report

/-- The control characters of the first block that a terminal acts on. -/
def terminalControls : List (Char × String) :=
  [('\x1b', "\\x1b"), ('\x07', "\\x07"), ('\x08', "\\x08"), ('\x0c', "\\x0c"),
    ('\x7f', "\\x7f")]

/-- A character of a log message. -/
def logChar (c : Char) : List Char :=
  match terminalControls.lookup c with
  | some text => text.toList
  | none =>
    if 0x80 ≤ c.toNat ∧ c.toNat ≤ 0x9F then
      ['\\', 'u', '\x7b'] ++ Nat.toDigits 16 c.toNat ++ ['\x7d']
    else
      [c]

/-- The level of a severity in a log. -/
def level : Severity → String
  | .error => "ERROR"
  | .warning => "WARN"

/-- A diagnostic as a line of a log. -/
def logLine (d : Diagnostic) : String :=
  level d.severity ++ " typist::error: " ++ String.ofList (d.message.toList.flatMap logChar) ++
    " site=" ++ d.site.display ++ "\n"

/-- The text of a report. Without diagnostics there is none. -/
def text (format : ReportFormat) (ds : List Diagnostic) : String :=
  match format with
  | .pretty => if ds.isEmpty then "" else (Diagnostic.renderAll? ds).getD "" ++ "\n"
  | .log => String.join (ds.map logLine)

end Report

end CommandTree
