import CommandTree.Source

/-!
# The lines of printed source

What a printer prints does not depend on what was printed before (`Source.Appends`). A text can be
cut in two behind any line feed and its lines are those of the parts (`splitLines_append`); a text
that was put together from lines gives these lines back (`splitLines_join`). Printing indents each
line by the depth (`text_lines`), and a line that was indented before keeps its own indentation
behind that (`indented_indented`).
-/

namespace CommandTree.Source

/-! ## Printing appends -/

/-- The printer appends a text that only the depth decides. -/
structure Appends (p : Source → Source) : Prop where
  text : ∀ s : Source, (p s).text = s.text ++ (p ⟨"", s.depth⟩).text
  depth : ∀ s : Source, (p s).depth = (p ⟨"", s.depth⟩).depth

theorem appends_line (content : String) : Appends fun s => s.line content := by
  refine ⟨fun s => ?_, fun s => rfl⟩
  unfold line
  by_cases h : content = "" <;> simp [h, String.append_assoc]

theorem appends_blank : Appends blank :=
  appends_line ""

theorem appends_indent : Appends indent :=
  ⟨fun s => by simp [indent], fun _ => rfl⟩

theorem appends_unindent : Appends unindent :=
  ⟨fun s => by simp [unindent], fun _ => rfl⟩

theorem Appends.comp {p q : Source → Source} (hq : Appends q) (hp : Appends p) :
    Appends fun s => q (p s) := by
  refine ⟨fun s => ?_, fun s => ?_⟩
  · rw [hq.text (p s), hq.text (p ⟨"", s.depth⟩), hp.text s, hp.depth s, String.append_assoc]
  · rw [hq.depth (p s), hq.depth (p ⟨"", s.depth⟩), hp.depth s]

theorem appends_foldl {α : Type} {f : Source → α → Source} (hf : ∀ a, Appends fun s => f s a) :
    ∀ as : List α, Appends fun s => as.foldl f s
  | [] => ⟨fun s => by simp, fun _ => rfl⟩
  | a :: rest => (appends_foldl hf rest).comp (hf a)

theorem depth_lines (s : Source) (contents : List String) : (s.lines contents).depth = s.depth := by
  induction contents generalizing s with
  | nil => rfl
  | cons content rest ih => exact ih (s.line content)

theorem depth_append (s other : Source) : (s.append other).depth = s.depth :=
  depth_lines s _

/-! ## Line ends -/

/-- The text with its lines ended by line feeds. -/
def relined (text : String) : String :=
  String.join ((splitLines text.toList).map fun line => String.ofList line ++ "\n")

/-- The text ends where a line does. -/
def EndsLine (text : String) : Prop :=
  ∃ start, text = start ++ "\n"

theorem splitLines_ne_nil {cs : List Char} (h : cs ≠ []) : splitLines cs ≠ [] := by
  fun_cases splitLines cs <;> simp_all

/-- A line goes on unless a line end comes. -/
theorem splitLines_cons {c : Char} {cs : List Char} (hc : c ≠ '\n')
    (hcs : c = '\r' → cs.head? ≠ some '\n') :
    splitLines (c :: cs) = match splitLines cs with
      | [] => [[c]]
      | first :: rest => (c :: first) :: rest := by
  rw [splitLines.eq_def]
  split
  · rename_i heq
    cases heq
  · rename_i heq
    cases heq
    exact absurd rfl hc
  · rename_i heq
    cases heq
    exact absurd rfl (hcs rfl)
  · rename_i heq
    cases heq
    rfl

/-- A text may be cut behind a line feed. -/
theorem splitLines_append (b : List Char) : ∀ a : List Char,
    splitLines (a ++ '\n' :: b) = splitLines (a ++ ['\n']) ++ splitLines b
  | [] => rfl
  | c :: a => by
    by_cases hc : c = '\n'
    · subst hc
      simp only [List.cons_append, splitLines, splitLines_append b a]
    by_cases hr : c = '\r' ∧ (a ++ ['\n']).head? = some '\n'
    · -- the carriage return belongs to the end of its line, which may be the one at the cut
      obtain ⟨rfl, hhead⟩ := hr
      cases a with
      | nil => rfl
      | cons d a =>
        obtain rfl : d = '\n' := by simpa using hhead
        simp only [List.cons_append, splitLines, splitLines_append b a]
    · have hhead : (a ++ '\n' :: b).head? = (a ++ ['\n']).head? := by cases a <;> rfl
      rw [List.cons_append, List.cons_append,
        splitLines_cons hc fun hr' h => hr ⟨hr', hhead ▸ h⟩,
        splitLines_cons hc fun hr' h => hr ⟨hr', h⟩, splitLines_append b a]
      cases hsplit : splitLines (a ++ ['\n']) with
      | nil => exact absurd hsplit (splitLines_ne_nil (by simp))
      | cons first rest => rfl

/-- A text can be cut at a line end before it is cut into lines. -/
theorem relined_append {a : String} (ha : EndsLine a) (b : String) :
    relined (a ++ b) = relined a ++ relined b := by
  obtain ⟨start, rfl⟩ := ha
  have hcut : splitLines (start ++ "\n" ++ b).toList =
      splitLines (start ++ "\n").toList ++ splitLines b.toList := by
    simpa using splitLines_append b.toList start.toList
  rw [relined, hcut, List.map_append, String.join_append]
  rfl

theorem relined_join {texts : List String} (h : ∀ text ∈ texts, EndsLine text) :
    relined (String.join texts) = String.join (texts.map relined) := by
  induction texts with
  | nil => rfl
  | cons text rest ih =>
    rw [List.forall_mem_cons] at h
    rw [String.join_cons, relined_append h.1, ih h.2, List.map_cons, String.join_cons]

/-! ## The lines of a text -/

/-- A content that stands in a text as one line: no line feed is in it, and no carriage return at
its end would be taken for a part of the line's end. -/
def IsLine (content : String) : Prop :=
  '\n' ∉ content.toList ∧ content.toList.getLast? ≠ some '\r'

instance (content : String) : Decidable (IsLine content) :=
  inferInstanceAs (Decidable (_ ∧ _))

theorem isLine_empty : IsLine "" := by
  decide

/-- A line is cut off at its end, and its last character is not the carriage return of the line end.
-/
theorem splitLines_singleton {cs : List Char} (hfeed : '\n' ∉ cs)
    (hlast : cs.getLast? ≠ some '\r') : splitLines (cs ++ ['\n']) = [cs] := by
  induction cs with
  | nil => rfl
  | cons c cs ih =>
    rw [List.mem_cons, not_or] at hfeed
    cases cs with
    | nil =>
      have hc : c ≠ '\r' := by simpa using hlast
      rw [List.cons_append, splitLines_cons (Ne.symm hfeed.1) fun h => absurd h hc,
        ih hfeed.2 nofun]
    | cons d cs =>
      have hd : ((d :: cs) ++ ['\n']).head? ≠ some '\n' := by
        rw [List.mem_cons, not_or] at hfeed
        simpa using Ne.symm hfeed.2.1
      rw [List.cons_append, splitLines_cons (Ne.symm hfeed.1) fun _ => hd,
        ih hfeed.2 (by rwa [List.getLast?_cons_cons] at hlast)]

/-- Lines with a line feed behind each are found again. -/
theorem splitLines_join {contents : List String} (h : ∀ content ∈ contents, IsLine content) :
    splitLines (String.join (contents.map (· ++ "\n"))).toList = contents.map String.toList := by
  induction contents with
  | nil => rfl
  | cons content rest ih =>
    rw [List.forall_mem_cons] at h
    have hcut : (String.join ((content :: rest).map (· ++ "\n"))).toList =
        content.toList ++ '\n' :: (String.join (rest.map (· ++ "\n"))).toList := by
      simp
    rw [hcut, splitLines_append, splitLines_singleton h.1.1 h.1.2, ih h.2]
    rfl

/-! ## Indentation -/

/-- A line as it is printed at a depth. -/
def indented (depth : Nat) (content : String) : String :=
  if content = "" then "" else indentation depth ++ content

/-- A line that is not empty stands behind the indentation. -/
theorem indented_of_ne (depth : Nat) {content : String} (h : content ≠ "") :
    indented depth content = indentation depth ++ content :=
  if_neg h

theorem indentation_add (m n : Nat) : indentation (m + n) = indentation m ++ indentation n := by
  induction m with
  | zero => simp [indentation]
  | succ m ih => rw [Nat.succ_add, indentation, ih, indentation, String.append_assoc]

theorem feed_not_mem_indentation (depth : Nat) : '\n' ∉ (indentation depth).toList := by
  induction depth with
  | zero => simp [indentation]
  | succ depth ih => simpa [indentation] using ih

@[simp] theorem indented_zero (content : String) : indented 0 content = content := by
  by_cases h : content = "" <;> simp [indented, indentation, h]

/-- A line of an indented text that is printed again is as deep as both depths together. -/
theorem indented_indented (m n : Nat) (content : String) :
    indented m (indented n content) = indented (m + n) content := by
  by_cases h : content = ""
  · simp [indented, h]
  · have hne : indentation n ++ content ≠ "" := by simp [h]
    simp only [indented, if_neg h, if_neg hne, indentation_add, String.append_assoc]

/-- An indented line is a line. -/
theorem IsLine.indented {content : String} (h : IsLine content) (depth : Nat) :
    IsLine (indented depth content) := by
  unfold Source.indented
  split
  · exact isLine_empty
  · rename_i hne
    have hchars : content.toList ≠ [] := by simpa using hne
    refine ⟨?_, ?_⟩
    · simpa [feed_not_mem_indentation] using h.1
    · have hlast : (indentation depth ++ content).toList.getLast? = content.toList.getLast? := by
        rw [String.toList_append, List.getLast?_append, List.getLast?_eq_some_getLast hchars,
          Option.some_or]
      rw [hlast]
      exact h.2

/-- A line is printed with the indentation of its depth. -/
theorem text_line (s : Source) (content : String) :
    (s.line content).text = s.text ++ (indented s.depth content ++ "\n") := by
  unfold line indented
  by_cases h : content = "" <;> simp [h, String.append_assoc]

/-- Lines are printed one after the other, with the indentation of their depth. -/
theorem text_lines (s : Source) (contents : List String) :
    (s.lines contents).text =
      s.text ++ String.join ((contents.map (indented s.depth)).map (· ++ "\n")) := by
  induction contents generalizing s with
  | nil => simp [lines]
  | cons content rest ih =>
    have hrest := ih (s.line content)
    rw [lines, List.foldl_cons, ← lines, hrest, text_line, List.map_cons, List.map_cons,
      String.join_cons, String.append_assoc]
    rfl

theorem text_line_of_depth_zero {s : Source} (hs : s.depth = 0) (content : String) :
    (s.line content).text = s.text ++ (content ++ "\n") := by
  rw [text_line, hs, indented_zero]

theorem text_lines_of_depth_zero {s : Source} (hs : s.depth = 0) (contents : List String) :
    (s.lines contents).text = s.text ++ String.join (contents.map (· ++ "\n")) := by
  rw [text_lines, hs, funext indented_zero, List.map_id']

/-- At depth 0 the lines of a source are printed as they are. -/
theorem text_append {s : Source} (hs : s.depth = 0) (other : Source) :
    (s.append other).text = s.text ++ relined other.text := by
  rw [append, text_lines_of_depth_zero hs, relined, List.map_map]
  rfl

end CommandTree.Source
