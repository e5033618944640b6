import CommandTree.Proofs.Factory.Text
import Mathlib.Data.List.Forall2
import Mathlib.Tactic.Choose

/-!
# What factories are written as

The grammar of a generated file, as a relation between the parts of a factory and their text:
values, the starts of nodes and the calls on them are parts of lines (`Expr.Writes`,
`Builder.Writes`, `Call.Writes`), a statement is one or more lines (`Statement.Writes`), and a
factory is its first line, its statements and its result (`Writes`). A file is what stands in front
of the factories, and the factories with an empty line between them (`Written`).

Printing follows the grammar (`Statement.Writes.text`, `writes_iff`), and there is nothing in a file
that the grammar does not tell: the text of a file is the only one that is written for its factories
(`written_iff`).
-/

namespace CommandTree.Factory

open Source (relined)
open Text (quote)

/-! ## Parts of lines -/

/-- The text of a value. -/
inductive Expr.Writes : Expr → String → Prop
  | written (text : String) : Writes (.written text) text
  | field (name : String) : Writes (.field name) ("source." ++ name ++ ".clone()")
  | method (name : String) : Writes (.method name)
      ("\x7b let source = Arc::clone(&source); move |context| source." ++ name ++ "(context) \x7d")

/-- The text that a node is begun with. -/
inductive Builder.Writes : Builder → String → Prop
  | literal (name : String) : Writes (.literal name) ("Literal::builder(" ++ quote name ++ ")")
  | argument (name : String) {type : Expr} {text : String} (h : type.Writes text) :
      Writes (.argument name type) ("Argument::builder(" ++ quote name ++ ", " ++ text ++ ")")

/-- The text of a call. -/
inductive Call.Writes : Call → String → Prop
  | otherName (word : String) : Writes (.otherName word) (".alias(" ++ quote word ++ ")")
  | suggests {value : Expr} {text : String} (h : value.Writes text) :
      Writes (.suggests value) (".suggests(" ++ text ++ ")")
  | executes {value : Expr} {text : String} (h : value.Writes text) :
      Writes (.executes value) (".executes(" ++ text ++ ")")
  | requires {value : Expr} {text : String} (h : value.Writes text) :
      Writes (.requires value) (".requires(" ++ text ++ ")")

/-- A value is printed as it is written. -/
theorem Expr.Writes.print_eq {value : Expr} {text : String} (h : value.Writes text) :
    value.print = text := by
  cases h <;> rfl

/-- Every value is written. -/
theorem Expr.writes_print (value : Expr) : value.Writes value.print := by
  cases value with
  | written text => exact .written text
  | field name => exact .field name
  | method name => exact .method name

/-- The start of a node is printed as it is written. -/
theorem Builder.Writes.print_eq {builder : Builder} {text : String} (h : builder.Writes text) :
    builder.print = text := by
  cases h with
  | literal name => rfl
  | argument name h =>
    rw [← h.print_eq]
    rfl

/-- Every start of a node is written. -/
theorem Builder.writes_print (builder : Builder) : builder.Writes builder.print := by
  cases builder with
  | literal name => exact .literal name
  | argument name type => exact .argument name type.writes_print

/-- A call is printed as it is written. -/
theorem Call.Writes.print_eq {call : Call} {text : String} (h : call.Writes text) :
    call.print = text := by
  cases h with
  | otherName word => rfl
  | suggests h | executes h | requires h =>
    rw [← h.print_eq]
    rfl

/-- Every call is written. -/
theorem Call.writes_print (call : Call) : call.Writes call.print := by
  cases call with
  | otherName word => exact .otherName word
  | suggests value => exact .suggests value.writes_print
  | executes value => exact .executes value.writes_print
  | requires value => exact .requires value.writes_print

/-! ## Statements -/

/-- What stands in front of a node that is built in a new variable. -/
def letText (var : Nat) (mutable : Bool) : String :=
  "    let " ++ (if mutable then "mut " else "") ++ "command" ++ Nat.repr var ++ " = "

/-- The lines of a statement. -/
inductive Statement.Writes : Statement → List String → Prop
  | build (var : Nat) (mutable : Bool) {builder : Builder} {calls : List Call} {start : String}
      {chain : List String} (hstart : builder.Writes start)
      (hchain : List.Forall₂ Call.Writes calls chain) :
      Writes (.build var mutable builder calls)
        (["", letText var mutable ++ start] ++ chain.map ("        " ++ ·) ++
          ["        .build();"])
  | addChild (parent child : Nat) : Writes (.addChild parent child)
      ["    command" ++ Nat.repr parent ++ ".add_child(command" ++ Nat.repr child ++ ");"]
  | insert (var : Nat) : Writes (.insert var)
      ["    commands.insert(command" ++ Nat.repr var ++ ".name().to_string(), command" ++
        Nat.repr var ++ ");"]

/-- Every statement is written. -/
theorem Statement.exists_writes (st : Statement) : ∃ lines, st.Writes lines := by
  cases st with
  | build var mutable builder calls =>
    have hcalls : List.Forall₂ Call.Writes calls (calls.map Call.print) := by
      rw [List.forall₂_map_right_iff, List.forall₂_same]
      exact fun call _ => call.writes_print
    exact ⟨_, .build var mutable builder.writes_print hcalls⟩
  | addChild parent child => exact ⟨_, .addChild parent child⟩
  | insert var => exact ⟨_, .insert var⟩

/-- The calls on a node are printed as they are written. -/
theorem map_print_of_forall₂ {calls : List Call} {chain : List String}
    (h : List.Forall₂ Call.Writes calls chain) : calls.map Call.print = chain := by
  induction h with
  | nil => rfl
  | cons hcall _ ih => rw [List.map_cons, hcall.print_eq, ih]

/-- No call is an empty line. -/
theorem Call.Writes.ne_empty {call : Call} {text : String} (h : call.Writes text) : text ≠ "" := by
  cases h <;> simp

/-- A line in the body of a factory is printed behind four blanks. -/
theorem text_line_of_depth_one {s : Source} (hs : s.depth = 1) {content : String}
    (h : content ≠ "") : (s.line content).text = s.text ++ ("    " ++ content ++ "\n") := by
  rw [Source.text_line, hs, Source.indented_of_ne 1 h]
  rfl

/-- The calls on a node are printed behind eight blanks. -/
theorem text_lines_of_depth_two {s : Source} (hs : s.depth = 2) {chain : List String}
    (h : ∀ text ∈ chain, text ≠ "") :
    (s.lines chain).text =
      s.text ++ String.join ((chain.map ("        " ++ ·)).map (· ++ "\n")) := by
  have hindented : chain.map (Source.indented 2) = chain.map ("        " ++ ·) :=
    List.map_congr_left fun text htext => Source.indented_of_ne 2 (h text htext)
  rw [Source.text_lines, hs, hindented]

/-- A statement in the body of a factory is printed as it is written. -/
theorem Statement.Writes.text {st : Statement} {lines : List String} (h : st.Writes lines)
    {s : Source} (hs : s.depth = 1) :
    (Statement.print s st).text = s.text ++ String.join (lines.map (· ++ "\n")) := by
  cases h with
  | @build var mutable builder calls start chain hstart hchain =>
    let first := (if mutable then "let mut " else "let ") ++ printVar var ++ " = " ++ start
    let inner := (s.blank.line first).indent
    have hprint : Statement.print s (.build var mutable builder calls) =
        (inner.lines (chain ++ [".build();"])).unindent := by
      have hstart' := hstart.print_eq
      subst hstart'
      rw [← map_print_of_forall₂ hchain, Source.lines, List.foldl_append]
      rfl
    have hfirst : first ≠ "" := by cases mutable <;> simp [first]
    have hinner : inner.text = s.text ++ "\n" ++ (letText var mutable ++ start ++ "\n") := by
      have hlet : "    " ++ first = letText var mutable ++ start := by
        cases mutable <;> simp [first, letText, printVar, ← String.append_assoc]
      refine (text_line_of_depth_one (s := s.blank) hs hfirst).trans ?_
      rw [hlet]
      simp [Source.blank, Source.line]
    have hcalls : ∀ text ∈ chain ++ [".build();"], text ≠ "" := by
      rw [List.forall_mem_append]
      refine ⟨fun text htext => ?_, by simp⟩
      rw [← map_print_of_forall₂ hchain] at htext
      obtain ⟨call, -, rfl⟩ := List.mem_map.mp htext
      exact call.writes_print.ne_empty
    have hlines := text_lines_of_depth_two (s := inner) (congrArg (· + 1) hs) hcalls
    rw [hprint]
    refine hlines.trans ?_
    rw [hinner]
    simp [String.append_assoc]
  | addChild parent child =>
    refine (text_line_of_depth_one hs (by simp [printVar])).trans ?_
    simp [← String.toList_inj, printVar]
  | insert var =>
    refine (text_line_of_depth_one hs (by simp [printVar])).trans ?_
    simp [← String.toList_inj, printVar]

/-- Statements are printed as they are written, one after the other. -/
theorem text_foldl_print {body : List Statement} {parts : List (List String)}
    (h : List.Forall₂ Statement.Writes body parts) {s : Source} (hs : s.depth = 1) :
    (body.foldl Statement.print s).text =
      s.text ++ String.join (parts.flatten.map (· ++ "\n")) := by
  induction h generalizing s with
  | nil => simp
  | @cons st lines body parts hst _ ih =>
    rw [List.foldl_cons, ih ((depth_statement s st).trans hs), hst.text hs, List.flatten_cons,
      List.map_append, String.join_append, String.append_assoc]

/-! ## Factories -/

/-- The text of a factory. A line end in a name or a declared value counts as one of the text. -/
inductive Writes (sender : String) (f : Factory) : String → Prop
  | intro {parts : List (List String)} (hbody : List.Forall₂ Statement.Writes f.body parts) :
      Writes sender f (relined (String.join
        (([ "pub fn " ++ f.name ++ "(" ++ f.parameter ++ ": Arc<" ++ f.scope ++
              ">) -> HashMap<String, CommandNode<" ++ sender ++ ">> \x7b",
            "    let mut commands = HashMap::new();"] ++ parts.flatten ++
          ["", "    commands", "\x7d"]).map (· ++ "\n"))))

/-- The text of a generated file: what stands in front of the factories, and the factories with an
empty line between them. -/
def Written (settings : GenerationSettings) (fs : List Factory) (text : String) : Prop :=
  ∃ texts, List.Forall₂ (Writes settings.sender) fs texts ∧
    text = preamble settings fs ++ "\n".intercalate texts

/-- What stands between the braces of a factory is printed as it is written. -/
theorem text_printInside {body : List Statement} {parts : List (List String)}
    (h : List.Forall₂ Statement.Writes body parts) :
    (printInside body ⟨"", 1⟩).text = String.join ((["    let mut commands = HashMap::new();"] ++
      parts.flatten ++ ["", "    commands"]).map (· ++ "\n")) := by
  let s := (Source.mk "" 1).line "let mut commands = HashMap::new();"
  have hstart : s.text = "    let mut commands = HashMap::new();\n" := by decide +kernel
  have hdepth : (body.foldl Statement.print s).blank.depth = 1 := depth_foldl_print body s
  have hblank : (body.foldl Statement.print s).blank.text =
      (body.foldl Statement.print s).text ++ "\n" := by simp [Source.blank, Source.line]
  calc (printInside body ⟨"", 1⟩).text
      = (body.foldl Statement.print s).blank.text ++ "    commands\n" :=
        text_line_of_depth_one hdepth (by simp)
    _ = _ := by
        rw [hblank, text_foldl_print h rfl, hstart]
        simp [String.append_assoc]

/-- A factory is written as its block in a file. -/
theorem writes_iff {sender : String} {f : Factory} {text : String} :
    Writes sender f text ↔ text = f.block sender := by
  have hblock : ∀ {parts : List (List String)}, List.Forall₂ Statement.Writes f.body parts →
      relined (String.join (([f.signature sender, "    let mut commands = HashMap::new();"] ++
        parts.flatten ++ ["", "    commands", "\x7d"]).map (· ++ "\n"))) = f.block sender := by
    intro parts hparts
    rw [← relined_printed, printed, text_printInside hparts]
    simp [String.append_assoc]
  constructor
  · rintro ⟨hparts⟩
    exact hblock hparts
  · rintro rfl
    choose lines hlines using Statement.exists_writes
    have hparts : List.Forall₂ Statement.Writes f.body (f.body.map lines) := by
      rw [List.forall₂_map_right_iff, List.forall₂_same]
      exact fun st _ => hlines st
    rw [← hblock hparts]
    exact .intro hparts

/-- The text of a file is the only one that is written for its factories. -/
theorem written_iff {settings : GenerationSettings} {fs : List Factory} {text : String} :
    Written settings fs text ↔ text = file settings fs := by
  have htexts : ∀ texts, List.Forall₂ (Writes settings.sender) fs texts ↔
      texts = fs.map (block settings.sender) := by
    intro texts
    have hwrites : Writes settings.sender = fun f text => text = f.block settings.sender :=
      funext fun f => funext fun text => propext writes_iff
    rw [hwrites, eq_comm, ← List.forall₂_eq_eq_eq, List.forall₂_map_left_iff]
    simp only [eq_comm]
  simp only [Written, htexts, exists_eq_left, file_eq]

end CommandTree.Factory
