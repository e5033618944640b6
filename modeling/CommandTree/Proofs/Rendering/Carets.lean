import CommandTree.Proofs.Rendering
import Mathlib.Data.List.DropRight

/-!
# Carets stand under the span

A diagnostic that shows a namespace ends in two lines, but for its labels and notes
(`Diagnostic.ShowsLast`): the line of the namespace and the line of the carets. A span is counted in
bytes and the carets are placed by characters, and still they stand under the characters of the span
(`Snippet.Underlined`), whatever the width of the characters before it.

This takes a namespace of one line. A line feed separates words as any other blank does, and it is
written as it is, so that only what follows it is on the line above the carets
(`compile_underlined`). There the carets may stand under nothing (`brokenLine_not_underlined`).
-/

namespace CommandTree

open Text (Span byteLength)

/-! ## Lines -/

/-- What follows the last line feed of a text. -/
def lastLine (cs : List Char) : List Char :=
  cs.rtakeWhile (· != '\n')

theorem lf_notMem_lastLine (cs : List Char) : '\n' ∉ lastLine cs := fun h => by
  simpa using List.mem_rtakeWhile_imp h

theorem lastLine_eq_self {cs : List Char} (h : '\n' ∉ cs) : lastLine cs = cs := by
  refine List.rtakeWhile_eq_self_iff.mpr fun c hc => ?_
  rw [bne_iff_ne]
  rintro rfl
  exact h hc

theorem lastLine_concat (cs : List Char) (c : Char) :
    lastLine (cs ++ [c]) = if c = '\n' then [] else lastLine cs ++ [c] := by
  rw [lastLine, List.rtakeWhile_concat]
  by_cases h : c = '\n' <;> simp [h, lastLine]

/-- A line feed ends the lines before it. -/
theorem exists_eq_append_lastLine (front cs : List Char) :
    ∃ front', front ++ '\n' :: cs = front' ++ '\n' :: lastLine cs := by
  induction cs using List.reverseRecOn with
  | nil => exact ⟨front, rfl⟩
  | append_singleton cs c ih =>
    rw [lastLine_concat]
    by_cases hc : c = '\n'
    · exact ⟨front ++ '\n' :: cs, by simp [hc]⟩
    · obtain ⟨front', heq⟩ := ih
      refine ⟨front', ?_⟩
      rw [if_neg hc, ← List.cons_append, ← List.append_assoc, heq, ← List.cons_append,
        ← List.append_assoc]

/-- The last line of a text is determined. -/
theorem append_lf_inj {front front' cs cs' : List Char} (hcs : '\n' ∉ cs) (hcs' : '\n' ∉ cs')
    (h : front ++ '\n' :: cs = front' ++ '\n' :: cs') : front = front' ∧ cs = cs' := by
  have hlast : ∀ {front cs : List Char}, '\n' ∉ cs → lastLine (front ++ '\n' :: cs) = cs := by
    intro front cs hcs
    induction cs using List.reverseRecOn with
    | nil => simp [lastLine_concat]
    | append_singleton cs c ih =>
      simp only [List.mem_append, List.mem_singleton, not_or] at hcs
      rw [← List.cons_append, ← List.append_assoc, lastLine_concat, if_neg (Ne.symm hcs.2),
        ih hcs.1]
  have heq : cs = cs' := by rw [← hlast hcs, h, hlast hcs']
  rw [heq] at h
  exact ⟨List.append_cancel_right h, heq⟩

namespace Diagnostic

/-- The lines for the labels and notes of a diagnostic. -/
def trailer (d : Diagnostic) : String :=
  String.join (d.labels.map Label.render) ++ String.join (d.notes.map renderNote)

/-- The diagnostic is shown with `below` as the last line before the labels and notes, and `above`
as the line before it. -/
structure ShowsLast (d : Diagnostic) (above below : List Char) : Prop where
  above_line : '\n' ∉ above
  below_line : '\n' ∉ below
  shown : ∃ front, d.render? =
    some (String.ofList (front ++ '\n' :: above ++ '\n' :: below ++ ['\n']) ++ d.trailer)

/-- The last two lines of what is rendered are determined. -/
theorem ShowsLast.unique {d : Diagnostic} {above below above' below' : List Char}
    (h : d.ShowsLast above below) (h' : d.ShowsLast above' below') :
    above = above' ∧ below = below' := by
  obtain ⟨front, hshown⟩ := h.shown
  obtain ⟨front', hshown'⟩ := h'.shown
  have heq := congrArg String.toList (Option.some.inj (hshown.symm.trans hshown'))
  simp only [String.toList_append, String.toList_ofList] at heq
  have hlines := List.append_cancel_right (List.append_cancel_right heq)
  obtain ⟨hfront, hbelow⟩ := append_lf_inj h.below_line h'.below_line hlines
  exact ⟨(append_lf_inj h.above_line h'.above_line hfront).2, hbelow⟩

end Diagnostic

/-! ## Columns -/

/-- What stands before the namespace and before the carets. -/
def lineMargin : List Char :=
  [' ', ' ', ' ', '|', ' ']

/-- The characters of a line in the columns that have carets in the line below. -/
def overCarets (above below : List Char) : List Char :=
  ((above.zip below).filter (·.2 == '^')).map (·.1)

/-- Lines of the same length are compared part by part. -/
theorem overCarets_append {above below : List Char} (h : above.length = below.length)
    (above' below' : List Char) :
    overCarets (above ++ above') (below ++ below') =
      overCarets above below ++ overCarets above' below' := by
  unfold overCarets
  rw [List.zip_append h, List.filter_append, List.map_append]

theorem overCarets_eq_nil {above below : List Char} (h : '^' ∉ below) :
    overCarets above below = [] := by
  unfold overCarets
  rw [List.map_eq_nil_iff, List.filter_eq_nil_iff]
  rintro ⟨a, b⟩ hab hcaret
  rw [beq_iff_eq] at hcaret
  exact h (hcaret ▸ (List.of_mem_zip hab).2)

theorem overCarets_replicate (inside after : List Char) :
    overCarets (inside ++ after) (List.replicate inside.length '^') = inside := by
  induction inside with
  | nil => simp [overCarets]
  | cons c inside ih =>
    have hcons := @overCarets_append [c] ['^'] rfl (inside ++ after)
      (List.replicate inside.length '^')
    exact hcons.trans (congrArg (c :: ·) ih)

/-- The line of a namespace has a margin, and the carets in the line below it are in the columns of
the bytes of the span. -/
structure Snippet.Underlined (s : Snippet) (above below : List Char) : Prop where
  margin : lineMargin <+: above
  /-- No caret is behind the end of the line. -/
  carets : (overCarets above below).length = below.count '^'
  inside : (String.ofList (overCarets above below)).toByteArray =
    s.text.toByteArray.extract s.span.start s.span.stop

/-- The bytes of a part of a text. -/
theorem extract_toByteArray {text : String} {before inside : List Char}
    (h : before ++ inside <+: text.toList) :
    text.toByteArray.extract (byteLength before) (byteLength before + byteLength inside) =
      (String.ofList inside).toByteArray := by
  obtain ⟨after, hafter⟩ := h
  have htext : text.toByteArray = (String.ofList before).toByteArray ++
      ((String.ofList inside).toByteArray ++ (String.ofList after).toByteArray) := by
    rw [← String.toByteArray_append, ← String.toByteArray_append, ← String.ofList_append,
      ← String.ofList_append, ← List.append_assoc, hafter, String.ofList_toList]
  rw [htext, byteLength_eq_utf8ByteSize, byteLength_eq_utf8ByteSize, ← String.size_toByteArray,
    ← String.size_toByteArray, ByteArray.extract_append, Nat.sub_self, Nat.add_sub_cancel_left,
    ByteArray.extract_append_eq_left rfl, ByteArray.extract_eq_empty_iff.mpr (by omega),
    ByteArray.empty_append]

/-- The line of carets. -/
def caretLine (before inside : List Char) : List Char :=
  lineMargin ++ List.replicate before.length ' ' ++ List.replicate inside.length '^'

theorem lf_notMem_caretLine (before inside : List Char) : '\n' ∉ caretLine before inside := by
  simp [caretLine, lineMargin, List.mem_replicate]

/-- The carets stand below the characters of the span. -/
theorem Snippet.underlined {s : Snippet} {before inside : List Char}
    (hpart : before ++ inside <+: s.text.toList)
    (hspan : s.span = ⟨byteLength before, byteLength before + byteLength inside⟩) :
    s.Underlined (lineMargin ++ s.text.toList) (caretLine before inside) := by
  have hover : overCarets (lineMargin ++ s.text.toList) (caretLine before inside) = inside := by
    obtain ⟨after, hafter⟩ := hpart
    rw [← hafter, caretLine, List.append_assoc, List.append_assoc, overCarets_append rfl,
      overCarets_append (by simp), overCarets_replicate, overCarets_eq_nil (by decide),
      overCarets_eq_nil (by simp [List.mem_replicate])]
    rfl
  constructor
  case margin => exact List.prefix_append _ _
  case carets => rw [hover]; simp [caretLine, lineMargin, List.count_append, List.count_replicate]
  case inside => rw [hover, hspan, extract_toByteArray hpart]

/-- A diagnostic that shows a namespace ends in its last line and in the line of carets. -/
theorem Diagnostic.showsLast {d : Diagnostic} {s : Snippet} (hs : d.snippet = some s)
    {before inside : List Char} (hpart : before ++ inside <+: s.text.toList)
    (hspan : s.span = ⟨byteLength before, byteLength before + byteLength inside⟩)
    (hinside : inside ≠ []) :
    d.ShowsLast (lastLine (lineMargin ++ s.text.toList)) (caretLine before inside) := by
  refine ⟨lf_notMem_lastLine _, lf_notMem_caretLine _ _, ?_⟩
  have hmax : max inside.length 1 = inside.length :=
    Nat.max_eq_left (List.length_pos_of_ne_nil hinside)
  obtain ⟨front, hfront⟩ := exists_eq_append_lastLine
    (d.display ++ "\n" ++ "  --> " ++ d.site.display ++ "\n" ++ "   |").toList
    (lineMargin ++ s.text.toList)
  refine ⟨front, ?_⟩
  rw [← hfront, render?, renderSnippet?, hs]
  dsimp only
  rw [Snippet.render?, Snippet.cut?_eq hpart hspan, Option.map_some, Option.map_some]
  dsimp only
  have hbar : "   |\n".toList = "   |".toList ++ ['\n'] := rfl
  have hmargin : "   | ".toList = lineMargin := rfl
  have hfeed : "\n".toList = ['\n'] := rfl
  rw [hmax, Option.some_inj, ← String.toList_inj]
  simp only [trailer, caretLine, String.toList_append, String.toList_ofList, hbar, hmargin,
    hfeed, List.append_assoc, List.cons_append, List.nil_append]

/-- If a round reports a diagnostic with a span of a namespace, the line above the carets is the
last line of the margin and the namespace. It is all of them if the namespace has no line feed, and
then the carets stand under the span. -/
theorem compile_underlined (settings : Settings) (ds : List Declaration) :
    ∀ d ∈ reportOf (compile settings ds), ∀ s ∈ d.snippet, s.span.start < s.span.stop →
      ∃ above below, d.ShowsLast above below ∧
        above = lastLine (lineMargin ++ s.text.toList) ∧
        ('\n' ∉ s.text.toList → s.Underlined above below) := by
  intro d hd s hs hlt
  obtain ⟨before, inside, hpart, hspan⟩ := pointsInto_of_mem_report hd s hs
  have hinside : inside ≠ [] := by
    rintro rfl
    simp [hspan] at hlt
  refine ⟨_, _, Diagnostic.showsLast hs hpart hspan hinside, rfl, fun hline => ?_⟩
  rw [lastLine_eq_self (by simpa [lineMargin] using hline)]
  exact Snippet.underlined hpart hspan

/-- Characters of two bytes before the span and inside it, and a blank of three bytes. -/
theorem spacedNamespace_underlined :
    let text := "größe\u3000<ä x"
    let s : Snippet := ⟨text, ⟨10, 13⟩⟩
    '\n' ∉ text.toList ∧
      ∃ d ∈ reportOf (compile {} [⟨.ofType "Cases", .command text⟩]), d.snippet = some s ∧
        d.render? = some ("error: lex error: \"<ä\" contains an unmatched \"<\"\n  --> Cases\n" ++
          "   |\n   | größe\u3000<ä x\n   |       ^^\n") ∧
        ∃ above below, d.ShowsLast above below ∧
          above = lastLine (lineMargin ++ s.text.toList) ∧ s.Underlined above below := by
  intro text s
  have hline : '\n' ∉ text.toList := by decide
  have hreport : (reportOf (compile {} [⟨.ofType "Cases", .command text⟩])).map
      (fun d => (d.snippet, d.render?)) =
        [(some s, some ("error: lex error: \"<ä\" contains an unmatched \"<\"\n  --> Cases\n" ++
          "   |\n   | größe\u3000<ä x\n   |       ^^\n"))] := by
    decide +kernel
  obtain ⟨d, hd, heq⟩ := List.exists_of_mem_map (hreport ▸ List.mem_singleton_self _)
  obtain ⟨hs, hrender⟩ := Prod.mk.inj heq
  obtain ⟨above, below, hshows, habove, hunderlined⟩ :=
    compile_underlined {} [⟨.ofType "Cases", .command text⟩] d hd s hs (by decide)
  exact ⟨hline, d, hd, hs, hrender, above, below, hshows, habove, hunderlined hline⟩

/-- A line feed before the span: what is above the carets has no margin. -/
theorem brokenLine_not_underlined :
    ∃ d ∈ reportOf (compile {} [⟨.ofType "Cases", .command "a\n<b"⟩]), ∃ s ∈ d.snippet,
      s.span.start < s.span.stop ∧
        d.render? = some ("error: lex error: \"<b\" contains an unmatched \"<\"\n  --> Cases\n" ++
          "   |\n   | a\n<b\n   |   ^^\n") ∧
        ∀ above below, d.ShowsLast above below → ¬s.Underlined above below := by
  have hreport : (reportOf (compile {} [⟨.ofType "Cases", .command "a\n<b"⟩])).map
      (fun d => (d.snippet, d.render?)) =
        [(some ⟨"a\n<b", ⟨2, 4⟩⟩,
          some ("error: lex error: \"<b\" contains an unmatched \"<\"\n  --> Cases\n" ++
            "   |\n   | a\n<b\n   |   ^^\n"))] := by
    decide +kernel
  obtain ⟨d, hd, heq⟩ := List.exists_of_mem_map (hreport ▸ List.mem_singleton_self _)
  obtain ⟨hs, hrender⟩ := Prod.mk.inj heq
  refine ⟨d, hd, _, hs, by decide, hrender, fun above below hshows hunderlined => ?_⟩
  have hlast := @Diagnostic.showsLast _ _ hs ['a', '\n'] ['<', 'b'] (by decide) (by decide)
    (by decide)
  have habove : above = ['<', 'b'] := (hshows.unique hlast).1.trans (by decide)
  have hmargin := hunderlined.margin
  rw [habove] at hmargin
  exact absurd hmargin (by decide)

end CommandTree
