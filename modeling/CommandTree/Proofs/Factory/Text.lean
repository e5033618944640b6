import CommandTree.Factory.Print
import CommandTree.Proofs.Source.Lines

/-!
# The text of a generated file

What a printer prints does not depend on what was printed before (`Source.Appends`), and appending a
source cuts its text at line ends, where it can be cut in two as well (`Source.relined_append`).
So the text of a file is known in parts (`file_eq`): what stands in front of the factories, and a
block for each factory with an empty line between them. A block is the first line of the factory,
what stands between the braces, and the closing brace. What stands between the braces (`inside`) is
a matter of the factory's body alone.
-/

namespace CommandTree.Factory

/-! ## Blocks -/

theorem appends_statement (st : Statement) : Source.Appends fun s => Statement.print s st := by
  cases st with
  | build var mutable builder calls =>
    unfold Statement.print
    dsimp only
    exact Source.appends_unindent.comp ((Source.appends_line _).comp
      ((Source.appends_foldl Source.appends_line _).comp (Source.appends_indent.comp
        ((Source.appends_line _).comp Source.appends_blank))))
  | addChild parent child => exact Source.appends_line _
  | insert var => exact Source.appends_line _

theorem depth_statement (s : Source) (st : Statement) : (Statement.print s st).depth = s.depth := by
  cases st with
  | build var mutable builder calls =>
    simp [Statement.print, Source.unindent, Source.line, Source.indent, Source.blank,
      Source.depth_lines]
  | addChild parent child => rfl
  | insert var => rfl

/-- Prints what stands between the braces of a factory. -/
def printInside (body : List Statement) (s : Source) : Source :=
  (body.foldl Statement.print (s.line "let mut commands = HashMap::new();")).blank.line "commands"

theorem appends_printInside (body : List Statement) : Source.Appends (printInside body) :=
  (Source.appends_line _).comp (Source.appends_blank.comp
    ((Source.appends_foldl appends_statement body).comp (Source.appends_line _)))

/-- Statements leave the depth as it is. -/
theorem depth_foldl_print (body : List Statement) (s : Source) :
    (body.foldl Statement.print s).depth = s.depth := by
  induction body generalizing s with
  | nil => rfl
  | cons st rest ih => exact (ih _).trans (depth_statement s st)

theorem depth_printInside (body : List Statement) (s : Source) :
    (printInside body s).depth = s.depth :=
  depth_foldl_print body _

/-- What stands between the braces of a factory with this body, from the second line on. -/
def inside (body : List Statement) : String :=
  Source.relined (printInside body ⟨"", 1⟩).text

/-- The first line of a factory. -/
def opening (sender : String) (f : Factory) : String :=
  Source.relined (f.signature sender ++ "\n")

/-- A factory in a generated file. -/
def block (sender : String) (f : Factory) : String :=
  f.opening sender ++ inside f.body ++ "\x7d\n"

/-- The text that a factory prints at depth 0. -/
def printed (sender : String) (f : Factory) : String :=
  f.signature sender ++ "\n" ++ ((printInside f.body ⟨"", 1⟩).text ++ "\x7d\n")

/-- A factory is printed behind what is there. -/
theorem text_print (sender : String) {s : Source} (hs : s.depth = 0) (f : Factory) :
    (print sender s f).text = s.text ++ f.printed sender ∧ (print sender s f).depth = 0 := by
  have hdepth : ((s.line (f.signature sender)).indent).depth = 1 := congrArg (· + 1) hs
  have hinside := (appends_printInside f.body).text (s.line (f.signature sender)).indent
  have hclose : (printInside f.body (s.line (f.signature sender)).indent).unindent.depth = 0 := by
    rw [Source.unindent, depth_printInside, hdepth]
  have hprint : print sender s f =
      (printInside f.body (s.line (f.signature sender)).indent).unindent.line "\x7d" := rfl
  rw [hdepth] at hinside
  rw [hprint]
  refine ⟨?_, hclose⟩
  calc ((printInside f.body (s.line (f.signature sender)).indent).unindent.line "\x7d").text
      = (printInside f.body (s.line (f.signature sender)).indent).text ++ "\x7d\n" :=
        Source.text_line_of_depth_zero hclose "\x7d"
    _ = (s.line (f.signature sender)).text ++ (printInside f.body ⟨"", 1⟩).text ++ "\x7d\n" := by
        rw [hinside]
        rfl
    _ = s.text ++ f.printed sender := by
        rw [Source.text_line_of_depth_zero hs, printed]
        simp only [String.append_assoc]

theorem endsLine_printInside (body : List Statement) (s : Source) :
    Source.EndsLine (printInside body s).text :=
  ⟨_, rfl⟩

/-- Appending a printed factory gives its block. -/
theorem relined_printed (sender : String) (f : Factory) :
    Source.relined (f.printed sender) = f.block sender := by
  have hbrace : Source.relined "\x7d\n" = "\x7d\n" := by decide +kernel
  rw [printed, Source.relined_append ⟨_, rfl⟩, Source.relined_append (endsLine_printInside _ _),
    hbrace, block, opening, inside, String.append_assoc]

/-- The empty line behind a printed factory is kept. -/
theorem relined_printed_append (sender : String) (f : Factory) :
    Source.relined (f.printed sender ++ "\n") = f.block sender ++ "\n" := by
  have hends : Source.EndsLine (f.printed sender) :=
    ⟨f.signature sender ++ "\n" ++ ((printInside f.body ⟨"", 1⟩).text ++ "\x7d"), by
      simp only [printed, String.append_assoc]
      rfl⟩
  have hline : Source.relined "\n" = "\n" := by decide +kernel
  rw [Source.relined_append hends, relined_printed, hline]

/-- Factories are printed one after the other, with an empty line behind each. -/
theorem text_printAll (sender : String) (fs : List Factory) :
    (printAll sender fs).text = String.join (fs.map fun f => f.printed sender ++ "\n") := by
  have hfold : ∀ s : Source, s.depth = 0 →
      (fs.foldl (fun s f => (print sender s f).blank) s).text =
        s.text ++ String.join (fs.map fun f => f.printed sender ++ "\n") := by
    induction fs with
    | nil => exact fun s _ => by simp
    | cons f rest ih =>
      intro s hs
      obtain ⟨htext, hdepth⟩ := text_print sender hs f
      rw [List.foldl_cons, ih (print sender s f).blank hdepth, Source.blank,
        Source.text_line_of_depth_zero hdepth, htext, List.map_cons, String.join_cons]
      simp only [String.append_assoc, String.empty_append]
  exact (hfold Source.empty rfl).trans (by simp [Source.empty])

/-! ## Files -/

/-- The lines in front of the factories. -/
def preambleLines (settings : GenerationSettings) (fs : List Factory) : List String :=
  if fs.isEmpty then
    [header]
  else
    [header, "", "use std::collections::HashMap;", "use std::sync::Arc;", "",
      "use " ++ settings.runtime ++ "::\x7b" ++ ", ".intercalate (imports fs) ++ "\x7d;", ""]

/-- What stands in front of the factories. -/
def preamble (settings : GenerationSettings) (fs : List Factory) : String :=
  String.join ((preambleLines settings fs).map (· ++ "\n"))

/-- Texts with a line end behind each are texts with a line end between them, and one more. -/
theorem join_blocks {texts : List String} (hne : texts ≠ []) :
    String.join (texts.map (· ++ "\n")) = "\n".intercalate texts ++ "\n" := by
  induction texts with
  | nil => exact absurd rfl hne
  | cons text rest ih =>
    cases rest with
    | nil => simp
    | cons next rest =>
      rw [List.map_cons, String.join_cons, ih (by simp), String.intercalate_cons_cons]
      simp only [String.append_assoc]

theorem exists_intercalate_blocks (sender : String) {fs : List Factory} (hne : fs ≠ []) :
    ∃ start, "\n".intercalate (fs.map (block sender)) = start ++ "\x7d\n" := by
  induction fs with
  | nil => exact absurd rfl hne
  | cons f rest ih =>
    cases rest with
    | nil => exact ⟨f.opening sender ++ inside f.body, by simp [block]⟩
    | cons next rest =>
      obtain ⟨start, hstart⟩ := ih (by simp)
      rw [List.map_cons] at hstart
      rw [List.map_cons, List.map_cons, String.intercalate_cons_cons, hstart, ← String.append_assoc]
      exact ⟨_, rfl⟩

/-- Of the line ends behind the last brace one is left. -/
theorem finish_of_brace {s : Source} {text : String} (h : s.text = text ++ "\x7d\n" ++ "\n") :
    s.finish = text ++ "\x7d\n" := by
  have htrim : Text.trimEnd (text ++ "\x7d\n" ++ "\n").toList = (text ++ "\x7d").toList := by
    simp [Text.trimEnd, Text.isSpace]
  rw [Source.finish, h, htrim, String.ofList_toList, String.append_assoc]
  rfl

/-- The factories as they are appended to a file. -/
theorem relined_printAll (sender : String) (fs : List Factory) :
    Source.relined (printAll sender fs).text =
      String.join ((fs.map (block sender)).map (· ++ "\n")) := by
  have hends : ∀ text ∈ fs.map (fun f => f.printed sender ++ "\n"), Source.EndsLine text := by
    intro text htext
    obtain ⟨f, -, rfl⟩ := List.mem_map.mp htext
    exact ⟨f.printed sender, rfl⟩
  rw [text_printAll, Source.relined_join hends, List.map_map, List.map_map]
  refine congrArg String.join (List.map_congr_left fun f _ => ?_)
  rw [Function.comp_apply, Function.comp_apply, relined_printed_append]

/-- A generated file is its preamble and the blocks of its factories. -/
theorem file_eq (settings : GenerationSettings) (fs : List Factory) :
    file settings fs =
      preamble settings fs ++ "\n".intercalate (fs.map (block settings.sender)) := by
  by_cases hfs : fs = []
  · have hheader : (Source.empty.line header).finish = header ++ "\n" := by decide +kernel
    subst hfs
    simp [file, preamble, preambleLines, hheader]
  · have hempty : fs.isEmpty = false := by simpa using hfs
    have hfile : file settings fs = ((Source.empty.lines (preambleLines settings fs)).append
        (printAll settings.sender fs)).finish := by
      rw [file, preambleLines, hempty, if_neg (by simp), if_neg (by simp)]
      rfl
    have hdepth : (Source.empty.lines (preambleLines settings fs)).depth = 0 :=
      Source.depth_lines _ _
    have hblocks : String.join ((fs.map (block settings.sender)).map (· ++ "\n")) =
        "\n".intercalate (fs.map (block settings.sender)) ++ "\n" :=
      join_blocks (by simpa using hfs)
    obtain ⟨start, hstart⟩ := exists_intercalate_blocks settings.sender hfs
    rw [hfile, hstart, ← String.append_assoc]
    refine finish_of_brace ?_
    rw [Source.text_append hdepth, Source.text_lines_of_depth_zero rfl, relined_printAll, hblocks,
      hstart, preamble]
    simp [Source.empty, String.append_assoc]

end CommandTree.Factory
