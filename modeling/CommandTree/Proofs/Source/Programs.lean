import CommandTree.Proofs.Source.Lines

/-!
# Appended source is printed in place

A program of printing steps can be run on a source of its own, which is then appended to another
source, or its steps can be run on the other source itself. The text is the same
(`append_run_in_place`), if each content is one line and no step goes back from depth 0.

What the program prints on its own source is a list of lines (`Prints`), and stays one through
appended programs (`exists_prints_run`), so appending reads these lines back. The two runs are
related step by step (`Carries`): the text so far is what appending gives, and the depth in place is
the sum of the outer depth and the program's own. Every step keeps this (`Carries.step`) and so does
a run (`Carries.run`).
-/

namespace CommandTree.Source

/-! ## Programs of lines -/

mutual

/-- The contents that a step prints, those of an appended program included. -/
def Step.contents : Step → List String
  | .line content => [content]
  | .blank => []
  | .indent => []
  | .unindent => []
  | .append steps => contents steps

/-- The contents that the steps print. -/
def contents : List Step → List String
  | [] => []
  | first :: rest => first.contents ++ contents rest

end

instance : (first : Step) → Decidable (first = .unindent)
  | .line _ => isFalse nofun
  | .blank => isFalse nofun
  | .indent => isFalse nofun
  | .unindent => isTrue rfl
  | .append _ => isFalse nofun

/-- Run on the source, the steps never go back from depth 0. What an appended program does on its
own source is left open. -/
def StaysAbove (s : Source) : List Step → Prop
  | [] => True
  | first :: rest => (first = .unindent → 0 < s.depth) ∧ StaysAbove (s.step first) rest

instance decidableStaysAbove : (s : Source) → (steps : List Step) → Decidable (s.StaysAbove steps)
  | _, [] => isTrue trivial
  | s, first :: rest =>
    have := decidableStaysAbove (s.step first) rest
    inferInstanceAs (Decidable ((first = .unindent → 0 < s.depth) ∧ StaysAbove (s.step first) rest))

/-! ## Sources made of lines -/

/-- The text is these lines, with a line feed behind each. -/
structure Prints (s : Source) (ls : List String) : Prop where
  text : s.text = String.join (ls.map (· ++ "\n"))
  isLine : ∀ l ∈ ls, IsLine l

theorem prints_empty : empty.Prints [] :=
  ⟨rfl, nofun⟩

/-- Appending a source prints its lines. -/
theorem Prints.append_eq {other : Source} {ls : List String} (h : other.Prints ls) (s : Source) :
    s.append other = s.lines ls := by
  have hlines : (splitLines other.text.toList).map String.ofList = ls := by
    rw [h.text, splitLines_join h.isLine, List.map_map]
    exact (List.map_congr_left fun l _ => String.ofList_toList).trans (List.map_id' ls)
  rw [append, hlines]

theorem Prints.lines {s : Source} {ls contents : List String} (h : s.Prints ls)
    (hcontents : ∀ content ∈ contents, IsLine content) :
    (s.lines contents).Prints (ls ++ contents.map (indented s.depth)) where
  text := by rw [text_lines, h.text, List.map_append, String.join_append]
  isLine l hl := by
    rcases List.mem_append.1 hl with hl | hl
    · exact h.isLine l hl
    · obtain ⟨content, hmem, rfl⟩ := List.mem_map.1 hl
      exact (hcontents content hmem).indented s.depth

-- An appended program is run on an empty source, so its lines come from the recursion into it and
-- not from the source that it is appended to.
mutual

/-- Each step prints whole lines. -/
theorem exists_prints_step {s : Source} {ls : List String} (h : s.Prints ls) :
    ∀ first : Step, (∀ content ∈ first.contents, IsLine content) →
      ∃ ms, (s.step first).Prints ms
  | .line _, hfirst => ⟨_, h.lines hfirst⟩
  | .blank, _ => ⟨_, h.lines (List.forall_mem_singleton.2 isLine_empty)⟩
  | .indent, _ => ⟨ls, h.text, h.isLine⟩
  | .unindent, _ => ⟨ls, h.text, h.isLine⟩
  | .append steps, hfirst => by
    obtain ⟨ms, hms⟩ := exists_prints_run prints_empty steps hfirst
    exact ⟨_, hms.append_eq s ▸ h.lines hms.isLine⟩

/-- A program of lines leaves a text of lines. -/
theorem exists_prints_run {s : Source} {ls : List String} (h : s.Prints ls) :
    ∀ steps : List Step, (∀ content ∈ contents steps, IsLine content) →
      ∃ ms, (s.run steps).Prints ms
  | [], _ => ⟨ls, h⟩
  | first :: rest, hsteps => by
    rw [contents, List.forall_mem_append] at hsteps
    obtain ⟨ms, hms⟩ := exists_prints_step h first hsteps.1
    exact exists_prints_run hms rest hsteps.2

end

/-! ## Two runs of one program -/

/-- A source in place carries what another source has printed: its text is that of the outer source
with the inner one appended, and its depth is that of both together. -/
structure Carries (outer inner place : Source) : Prop where
  made : ∃ ls, inner.Prints ls
  text : place.text = (outer.append inner).text
  depth : place.depth = outer.depth + inner.depth

theorem carries_empty (outer : Source) : Carries outer empty outer :=
  ⟨⟨[], prints_empty⟩, rfl, rfl⟩

namespace Carries

variable {outer inner place : Source}

theorem lines (h : Carries outer inner place) {contents : List String}
    (hcontents : ∀ content ∈ contents, IsLine content) :
    Carries outer (inner.lines contents) (place.lines contents) := by
  obtain ⟨ls, hls⟩ := h.made
  have hmore := hls.lines hcontents
  refine ⟨⟨_, hmore⟩, ?_, ?_⟩
  · -- the lines are indented at once in place, and first by the inner depth when appended
    have htwice : contents.map (indented place.depth) =
        (contents.map (indented inner.depth)).map (indented outer.depth) := by
      rw [List.map_map, h.depth]
      exact List.map_congr_left fun content _ => (indented_indented _ _ content).symm
    calc (place.lines contents).text
        = (outer.lines ls).text ++
            String.join ((contents.map (indented place.depth)).map (· ++ "\n")) := by
          rw [text_lines, h.text, hls.append_eq]
      _ = (outer.lines (ls ++ contents.map (indented inner.depth))).text := by
          rw [text_lines outer, text_lines outer, htwice, List.map_append, List.map_append,
            String.join_append, String.append_assoc]
      _ = (outer.append (inner.lines contents)).text := by rw [hmore.append_eq]
  · rw [depth_lines, depth_lines, h.depth]

/-- One step on both sources. -/
theorem step (h : Carries outer inner place) {first : Step}
    (hfirst : ∀ content ∈ first.contents, IsLine content)
    (hback : first = .unindent → 0 < inner.depth) :
    Carries outer (inner.step first) (place.step first) := by
  have hdepth := h.depth
  cases first with
  | line content => exact h.lines hfirst
  | blank => exact h.lines (List.forall_mem_singleton.2 isLine_empty)
  | indent =>
    obtain ⟨ls, hls⟩ := h.made
    exact ⟨⟨ls, hls.text, hls.isLine⟩, h.text, congrArg (· + 1) hdepth⟩
  | unindent =>
    obtain ⟨ls, hls⟩ := h.made
    refine ⟨⟨ls, hls.text, hls.isLine⟩, h.text, ?_⟩
    have hpos := hback rfl
    change place.depth - 1 = outer.depth + (inner.depth - 1)
    omega
  | append steps =>
    obtain ⟨ms, hms⟩ := exists_prints_run prints_empty steps hfirst
    change Carries outer (inner.append (Source.run empty steps))
      (place.append (Source.run empty steps))
    rw [hms.append_eq, hms.append_eq]
    exact h.lines hms.isLine

/-- The program on both sources. -/
theorem run (h : Carries outer inner place) {steps : List Step}
    (hsteps : ∀ content ∈ contents steps, IsLine content) (hback : inner.StaysAbove steps) :
    Carries outer (inner.run steps) (place.run steps) := by
  induction steps generalizing inner place with
  | nil => exact h
  | cons first rest ih =>
    rw [contents, List.forall_mem_append] at hsteps
    exact ih (h.step hsteps.1 hback.1) hsteps.2 hback.2

end Carries

/-! ## In place -/

/-- Appending what the steps print on a source of their own gives the text of the steps in place.
The depth stays, and in place it changes as on the source of their own. -/
theorem append_run_in_place {steps : List Step}
    (hsteps : ∀ content ∈ contents steps, IsLine content) (hback : empty.StaysAbove steps)
    (s : Source) :
    (s.append (empty.run steps)).text = (s.run steps).text ∧
      (s.append (empty.run steps)).depth = s.depth ∧
      (s.run steps).depth = s.depth + (empty.run steps).depth := by
  have hrun := (carries_empty s).run hsteps hback
  exact ⟨hrun.text.symm, depth_append s _, hrun.depth⟩

/-- Steps with an empty line, and with an appended program that appends another. -/
def outline : List Step :=
  [.line "a", .indent, .line "b", .blank,
    .append [.line "c", .indent, .append [.line "d"], .unindent, .line "e"], .unindent, .line "f"]

theorem outline_in_place :
    (∀ content ∈ contents outline, IsLine content) ∧ empty.StaysAbove outline ∧
      (Source.mk "x" 1).append (empty.run outline) = ⟨"x    a\n        b\n\n        c\n" ++
        "            d\n        e\n    f\n", 1⟩ ∧
      ((Source.mk "x" 1).append (empty.run outline)).text = ((Source.mk "x" 1).run outline).text ∧
      ((Source.mk "x" 1).append (empty.run outline)).depth = 1 ∧
      ((Source.mk "x" 1).run outline).depth = 1 + (empty.run outline).depth := by
  have hsteps : ∀ content ∈ contents outline, IsLine content := by decide +kernel
  have hback : empty.StaysAbove outline := by decide +kernel
  exact ⟨hsteps, hback, by decide +kernel, append_run_in_place hsteps hback ⟨"x", 1⟩⟩

end CommandTree.Source
