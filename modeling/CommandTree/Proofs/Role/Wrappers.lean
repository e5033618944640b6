import CommandTree.Role.Capture
import Mathlib.Data.List.TakeWhile
import Mathlib.Logic.Function.Iterate

/-!
# Roles are seen through wrappers

The text of a field's type may wrap the name that tells the role (`Wraps`): reference signs,
keywords and smart pointers stand around it, in any order and to any depth, with white space at the
ends of each level. Trimming takes nothing from a solid text (`trim_append_solid`), keywords are
stripped no further than a path separator (`exists_stripModifiers_append`), and the last closing
bracket is that of the outermost smart pointer. So one level after the other comes off, and `head`
finds the name at the bottom (`head_of_wraps`).

The search is a loop inside a recursion. As a machine that takes one turn of either at a time
(`Stage`), it keeps the name that it will find (`Stage.outcome_next`) and stops after a number of
steps that is linear in the length of the text (`Stage.exists_iterate_next`).
-/

namespace CommandTree.TypeText

open Text (isSpace trim trimEnd trimStart)

/-! ## Trimming -/

/-- The text has characters other than white space at both ends. -/
structure Solid (cs : List Char) : Prop where
  first : ∃ c rest, cs = c :: rest ∧ isSpace c = false
  last : ∃ start c, cs = start ++ [c] ∧ isSpace c = false

/-- The text is white space. -/
def Blank (cs : List Char) : Prop :=
  ∀ c ∈ cs, isSpace c = true

theorem Blank.append {cs ds : List Char} (hcs : Blank cs) (hds : Blank ds) : Blank (cs ++ ds) :=
  fun c hc => (List.mem_append.mp hc).elim (hcs c) (hds c)

theorem Blank.trimStart {cs : List Char} (h : Blank cs) : trimStart cs = [] :=
  List.dropWhile_eq_nil_iff.mpr h

theorem Blank.trimEnd {cs : List Char} (h : Blank cs) : trimEnd cs = [] := by
  have hreverse : cs.reverse.dropWhile isSpace = [] :=
    List.dropWhile_eq_nil_iff.mpr fun c hc => h c (List.mem_reverse.mp hc)
  rw [Text.trimEnd, hreverse, List.reverse_nil]

theorem trimStart_append_cons {c : Char} (hc : isSpace c = false) (cs rest : List Char) :
    trimStart (cs ++ c :: rest) = trimStart cs ++ c :: rest := by
  unfold trimStart
  rw [List.dropWhile_append]
  split
  · rename_i hnil
    rw [List.isEmpty_iff.mp hnil, List.dropWhile_cons_of_neg (by simp [hc]), List.nil_append]
  · rfl

theorem trimEnd_concat_append {c : Char} (hc : isSpace c = false) (start cs : List Char) :
    trimEnd (start ++ [c] ++ cs) = start ++ [c] ++ trimEnd cs := by
  have h := trimStart_append_cons hc cs.reverse start.reverse
  unfold trimStart at h
  simp [trimEnd, h]

/-- Trimming takes nothing from a solid text, and white space from what stands around it. -/
theorem trim_append_solid {cs : List Char} (h : Solid cs) (left right : List Char) :
    trim (left ++ (cs ++ right)) = trimStart left ++ (cs ++ trimEnd right) := by
  obtain ⟨first, rest, hfirst, hspace⟩ := h.first
  obtain ⟨start, last, hlast, hspace'⟩ := h.last
  have hstart : trimStart (left ++ (cs ++ right)) = trimStart left ++ (cs ++ right) := by
    rw [hfirst, List.cons_append, trimStart_append_cons hspace]
  have hend := trimEnd_concat_append hspace' (trimStart left ++ start) right
  rw [trim, hstart, hlast]
  simpa using hend

theorem Solid.trim {cs : List Char} (h : Solid cs) : trim cs = cs := by
  simpa [trimStart, trimEnd] using trim_append_solid h [] []

/-- A text that is not blank has a first character that is no white space. -/
theorem exists_first_of_not_blank {cs : List Char} (h : ¬ Blank cs) :
    ∃ left c rest, cs = left ++ c :: rest ∧ Blank left ∧ isSpace c = false := by
  have hsome : (cs.find? fun c => !isSpace c).isSome := by
    simpa [Blank] using h
  obtain ⟨d, hd⟩ := Option.isSome_iff_exists.mp hsome
  obtain ⟨hd, left, rest, hcs, hleft⟩ := List.find?_eq_some_iff_append.mp hd
  exact ⟨left, d, rest, hcs, fun c hc => by simpa using hleft c hc, by simpa using hd⟩

/-- A text that is not blank is a solid one with white space around it. -/
theorem exists_solid {cs : List Char} (h : ¬ Blank cs) :
    ∃ left core right, cs = left ++ (core ++ right) ∧ Blank left ∧ Blank right ∧ Solid core := by
  obtain ⟨left, first, rest, rfl, hleft, hfirst⟩ := exists_first_of_not_blank h
  have hrest : ¬ Blank (first :: rest).reverse := by
    intro hblank
    have hspace := hblank first (by simp)
    simp [hfirst] at hspace
  obtain ⟨right, last, start, hreverse, hright, hlast⟩ := exists_first_of_not_blank hrest
  have heq : first :: rest = start.reverse ++ [last] ++ right.reverse := by
    rw [← List.reverse_reverse (first :: rest), hreverse]
    simp
  refine ⟨left, start.reverse ++ [last], right.reverse, by rw [heq], hleft, ?_, ?_, ?_⟩
  · exact fun c hc => hright c (List.mem_reverse.mp hc)
  · cases hstart : start.reverse with
    | nil => exact ⟨last, [], rfl, hlast⟩
    | cons c others =>
      rw [hstart] at heq
      have hc : first = c := (List.cons.inj heq).1
      exact ⟨c, others ++ [last], rfl, hc ▸ hfirst⟩
  · exact ⟨start.reverse, last, rfl, hlast⟩

/-! ## Keywords -/

/-- The reference sign and the keywords that `head` looks through. -/
def modifiers : List (List Char) :=
  [['&'], ['m', 'u', 't', ' '], ['d', 'y', 'n', ' '], ['i', 'm', 'p', 'l', ' ']]

/-- A keyword is stripped where the text starts with one. -/
theorem stripModifier?_eq_some_iff {cs rest : List Char} :
    stripModifier? cs = some rest ↔ ∃ modifier ∈ modifiers, cs = modifier ++ rest := by
  constructor
  · intro h
    unfold stripModifier? at h
    split at h
    all_goals
      first
      | (cases h; simp [modifiers])
      | simp at h
  · rintro ⟨modifier, hmem, rfl⟩
    simp only [modifiers, List.mem_cons, List.not_mem_nil, or_false] at hmem
    rcases hmem with rfl | rfl | rfl | rfl <;> rfl

theorem stripModifiers_of_none {cs : List Char} (h : stripModifier? cs = none) :
    stripModifiers cs = cs := by
  rw [stripModifiers]
  split
  · rename_i hsome
    simp [h] at hsome
  · rfl

theorem stripModifiers_of_some {cs rest : List Char} (h : stripModifier? cs = some rest) :
    stripModifiers cs = stripModifiers (trimStart rest) := by
  rw [stripModifiers]
  split
  · rename_i hsome
    rw [Option.some.inj (h.symm.trans hsome)]
  · rename_i hnone
    simp [h] at hnone

/-- No keyword has a colon or a bracket. -/
theorem notMem_modifier {modifier : List Char} (h : modifier ∈ modifiers) :
    ':' ∉ modifier ∧ '<' ∉ modifier := by
  revert modifier
  decide

/-- A keyword at the start of a text with a character that it does not have ends before it. -/
theorem exists_of_append_cons_eq {front rest modifier tail : List Char} {c : Char}
    (hc : c ∉ modifier) (h : front ++ c :: rest = modifier ++ tail) :
    ∃ front', front = modifier ++ front' ∧ tail = front' ++ c :: rest := by
  obtain ⟨others, hmodifier, hrest⟩ | ⟨front', hfront, htail⟩ := List.append_eq_append_iff.mp h
  · cases others with
    | nil => exact ⟨[], by simpa using hmodifier.symm, by simpa using hrest.symm⟩
    | cons d others =>
      obtain ⟨rfl, -⟩ := List.cons.inj hrest
      exact absurd (by simp [hmodifier]) hc
  · exact ⟨front', hfront, htail⟩

/-- Keywords in front of a separator are stripped no further than the separator. -/
theorem exists_stripModifiers_append (front rest : List Char) :
    ∃ front', front' <:+ front ∧ stripModifiers (front ++ ':' :: rest) = front' ++ ':' :: rest := by
  generalize hcs : front ++ ':' :: rest = cs
  fun_induction stripModifiers cs generalizing front with
  | case1 cs tail h _ ih =>
    obtain ⟨modifier, hmem, htail⟩ := stripModifier?_eq_some_iff.mp h
    obtain ⟨front', rfl, rfl⟩ := exists_of_append_cons_eq (notMem_modifier hmem).1
      (hcs.trans htail)
    obtain ⟨front'', hsuffix, heq⟩ := ih (trimStart front')
      (trimStart_append_cons (by decide) front' rest).symm
    exact ⟨front'', (hsuffix.trans (List.dropWhile_suffix _)).trans (List.suffix_append _ _), heq⟩
  | case2 cs h => exact ⟨front, List.suffix_rfl, hcs.symm⟩

/-! ## Paths -/

theorem bne_bracket_of_notMem {path : List Char} (h : '<' ∉ path) :
    ∀ c ∈ path, (c != '<') = true := by
  intro c hc
  simpa using fun heq : c = '<' => h (heq ▸ hc)

theorem splitGenerics_append {path : List Char} (h : '<' ∉ path) (inner : List Char) :
    splitGenerics (path ++ '<' :: inner) = (path, some inner) := by
  have hne := bne_bracket_of_notMem h
  simp [splitGenerics, List.takeWhile_append_of_pos hne, List.dropWhile_append_of_pos hne]

theorem splitGenerics_of_notMem {path : List Char} (h : '<' ∉ path) :
    splitGenerics path = (path, none) := by
  have hne := bne_bracket_of_notMem h
  rw [splitGenerics, List.takeWhile_eq_self_iff.mpr hne, List.dropWhile_eq_nil_iff.mpr hne]
  rfl

theorem afterSeparator?_of_notMem {name : List Char} (h : ':' ∉ name) :
    afterSeparator? name = none := by
  fun_induction afterSeparator? name with
  | case1 => rfl
  | case2 rest last _ _ => simp at h
  | case3 rest _ _ => simp at h
  | case4 c rest _ ih => exact ih fun hmem => h (List.mem_cons_of_mem _ hmem)

theorem afterSeparator?_cons_of_notMem {name : List Char} (h : ':' ∉ name) (c : Char) :
    afterSeparator? (c :: name) = none := by
  rw [afterSeparator?.eq_def]
  split
  · rfl
  · rename_i rest heq
    obtain ⟨-, rfl⟩ := List.cons.inj heq
    simp at h
  · rename_i rest _ heq
    obtain ⟨-, rfl⟩ := List.cons.inj heq
    exact afterSeparator?_of_notMem h

theorem afterSeparator?_cons {rest last : List Char} (h : afterSeparator? rest = some last)
    (c : Char) : afterSeparator? (c :: rest) = some last := by
  rw [afterSeparator?.eq_def]
  split
  · rename_i heq
    simp at heq
  · rename_i rest' heq
    obtain ⟨-, rfl⟩ := List.cons.inj heq
    rw [h]
  · rename_i rest' _ heq
    obtain ⟨-, rfl⟩ := List.cons.inj heq
    exact h

theorem lastSegment_of_notMem {name : List Char} (h : ':' ∉ name) : lastSegment name = name := by
  rw [lastSegment, afterSeparator?_of_notMem h, Option.getD_none]

/-- The last segment of a path is behind its last separator. -/
theorem lastSegment_append {name : List Char} (h : ':' ∉ name) (front : List Char) :
    lastSegment (front ++ ':' :: ':' :: name) = name := by
  have hafter : afterSeparator? (front ++ ':' :: ':' :: name) = some name := by
    induction front with
    | nil => rw [List.nil_append, afterSeparator?, afterSeparator?_cons_of_notMem h]
    | cons c front ih => exact afterSeparator?_cons ih c
  rw [lastSegment, hafter, Option.getD_some]

/-! ## Wrapped names -/

/-- A name with nothing around it: no white space, no path, no brackets and no keyword. -/
structure IsBare (name : List Char) : Prop where
  solid : Solid name
  notMem_bracket : '<' ∉ name
  notMem_colon : ':' ∉ name
  not_modified : ∀ modifier ∈ modifiers, ¬ modifier <+: name

/-- The text of a path in front of a name: each segment with a separator behind it. -/
def pathText (path : List (List Char)) : List Char :=
  path.flatMap (· ++ [':', ':'])

/-- The text of a type that stands for a name, through any number of wrappers. The segments of a
path are free but for the opening bracket. -/
inductive Wraps (name : List Char) : List Char → Prop
  | bare {path : List (List Char)} {generics : List Char} (hname : IsBare name)
      (hpath : ∀ segment ∈ path, '<' ∉ segment)
      (hgenerics : generics = [] ∨ name ∉ pointers ∧ ∃ inner, generics = '<' :: inner) :
      Wraps name (pathText path ++ (name ++ generics))
  | spaced {left text right : List Char} (hleft : Blank left) (hright : Blank right)
      (h : Wraps name text) : Wraps name (left ++ (text ++ right))
  | modified {modifier text : List Char} (hmodifier : modifier ∈ modifiers)
      (h : Wraps name text) : Wraps name (modifier ++ text)
  | pointed {path : List (List Char)} {pointer text : List Char}
      (hpath : ∀ segment ∈ path, '<' ∉ segment) (hpointer : pointer ∈ pointers)
      (h : Wraps name text) : Wraps name (pathText path ++ (pointer ++ '<' :: (text ++ ['>'])))

theorem Wraps.not_blank {name text : List Char} (h : Wraps name text) : ¬ Blank text := by
  intro hblank
  induction h with
  | bare hname =>
    obtain ⟨c, rest, rfl, hspace⟩ := hname.solid.first
    have hc := hblank c (by simp)
    simp [hspace] at hc
  | spaced _ _ _ ih => exact ih fun c hc => hblank c (by simp [hc])
  | modified _ _ ih => exact ih fun c hc => hblank c (by simp [hc])
  | pointed _ _ _ ih => exact ih fun c hc => hblank c (by simp [hc])

theorem isBare_of_mem_pointers {pointer : List Char} (h : pointer ∈ pointers) :
    IsBare pointer := by
  have hpointers : pointers = [['A', 'r', 'c'], ['R', 'c'], ['B', 'o', 'x']] := rfl
  rw [hpointers] at h
  simp only [List.mem_cons, List.not_mem_nil, or_false] at h
  rcases h with rfl | rfl | rfl
  · exact ⟨⟨⟨'A', _, rfl, by decide⟩, ⟨['A', 'r'], 'c', rfl, by decide⟩⟩, by decide, by decide,
      by decide⟩
  · exact ⟨⟨⟨'R', _, rfl, by decide⟩, ⟨['R'], 'c', rfl, by decide⟩⟩, by decide, by decide,
      by decide⟩
  · exact ⟨⟨⟨'B', _, rfl, by decide⟩, ⟨['B', 'o'], 'x', rfl, by decide⟩⟩, by decide, by decide,
      by decide⟩

/-- A bare name is no keyword. -/
theorem IsBare.stripModifier?_append {name generics : List Char} (h : IsBare name)
    (hgenerics : generics = [] ∨ ∃ inner, generics = '<' :: inner) :
    stripModifier? (name ++ generics) = none := by
  by_contra hsome
  obtain ⟨rest, hrest⟩ := Option.ne_none_iff_exists'.mp hsome
  obtain ⟨modifier, hmem, heq⟩ := stripModifier?_eq_some_iff.mp hrest
  apply h.not_modified modifier hmem
  rcases hgenerics with rfl | ⟨inner, rfl⟩
  · exact ⟨rest, by simpa using heq.symm⟩
  · obtain ⟨name', hname, -⟩ := exists_of_append_cons_eq (notMem_modifier hmem).2 heq
    exact ⟨name', hname.symm⟩

theorem notMem_pathText {path : List (List Char)} (h : ∀ segment ∈ path, '<' ∉ segment) :
    '<' ∉ pathText path := by
  simpa [pathText] using h

/-- Of a name behind a path, trimming and stripping leave the name behind a path. -/
theorem exists_stripModifiers_trim {path : List (List Char)} {name generics : List Char}
    (hpath : ∀ segment ∈ path, '<' ∉ segment) (hname : IsBare name)
    (hgenerics : generics = [] ∨ ∃ inner, generics = '<' :: inner) :
    ∃ front, '<' ∉ front ∧ lastSegment (front ++ name) = name ∧
      stripModifiers (trim (pathText path ++ (name ++ generics))) =
        front ++ (name ++ trimEnd generics) := by
  have htrimmed : trimEnd generics = [] ∨ ∃ inner, trimEnd generics = '<' :: inner := by
    rcases hgenerics with rfl | ⟨inner, rfl⟩
    · exact .inl rfl
    · exact .inr ⟨trimEnd inner, trimEnd_concat_append (by decide) [] inner⟩
  rw [trim_append_solid hname.solid]
  rcases path.eq_nil_or_concat with rfl | ⟨others, segment, rfl⟩
  · exact ⟨[], by simp, lastSegment_of_notMem hname.notMem_colon,
      stripModifiers_of_none (hname.stripModifier?_append htrimmed)⟩
  · have htext : pathText (others.concat segment) =
        pathText others ++ segment ++ ':' :: [':'] := by
      simp [pathText]
    have hfront : '<' ∉ trimStart (pathText others ++ segment) := fun hmem =>
      notMem_pathText hpath (by
        rw [htext]
        exact List.mem_append_left _ ((List.dropWhile_suffix _).mem hmem))
    obtain ⟨front, hsuffix, hstrip⟩ := exists_stripModifiers_append
      (trimStart (pathText others ++ segment)) (':' :: (name ++ trimEnd generics))
    refine ⟨front ++ [':', ':'], ?_, ?_, ?_⟩
    · simpa using fun hmem => hfront (hsuffix.mem hmem)
    · simpa using lastSegment_append hname.notMem_colon front
    · rw [htext, trimStart_append_cons (by decide)]
      simpa using hstrip

/-! ## The name found -/

/-- What `head` gives for a text without white space and keywords in front. -/
def headOfStripped (cs : List Char) : List Char :=
  match splitGenerics cs with
  | (path, some inner) =>
    if pointers.contains (trim (lastSegment path)) then head (dropClosing inner)
    else trim (lastSegment path)
  | (path, none) => trim (lastSegment path)

theorem head_eq (type : List Char) : head type = headOfStripped (stripModifiers (trim type)) := by
  rw [head, headOfStripped]
  simp only [List.contains_iff_mem]
  split <;> rename_i h <;>
    rw [← Prod.eta (splitGenerics (stripModifiers (trim type))), h]

/-- The head of a path is its last segment. -/
theorem head_path {path : List (List Char)} {name : List Char}
    (hpath : ∀ segment ∈ path, '<' ∉ segment) (hname : IsBare name) :
    head (pathText path ++ name) = name := by
  obtain ⟨front, hfront, hlast, hstrip⟩ := exists_stripModifiers_trim hpath hname (.inl rfl)
  rw [List.append_nil] at hstrip
  have hsplit : splitGenerics (front ++ name) = (front ++ name, none) :=
    splitGenerics_of_notMem (by simp [hfront, hname.notMem_bracket])
  rw [head_eq, hstrip, trimEnd]
  simp [headOfStripped, hsplit, hlast, hname.solid.trim]

/-- Brackets are opened by smart pointers only. -/
theorem head_path_bracket {path : List (List Char)} {name : List Char}
    (hpath : ∀ segment ∈ path, '<' ∉ segment) (hname : IsBare name) (inner : List Char) :
    head (pathText path ++ (name ++ '<' :: inner)) =
      if name ∈ pointers then head (dropClosing (trimEnd inner)) else name := by
  obtain ⟨front, hfront, hlast, hstrip⟩ :=
    exists_stripModifiers_trim hpath hname (.inr ⟨inner, rfl⟩)
  have htrim : trimEnd ('<' :: inner) = '<' :: trimEnd inner :=
    trimEnd_concat_append (by decide) [] inner
  have hsplit : splitGenerics (front ++ name ++ '<' :: trimEnd inner) =
      (front ++ name, some (trimEnd inner)) :=
    splitGenerics_append (by simp [hfront, hname.notMem_bracket]) _
  rw [head_eq, hstrip, htrim, ← List.append_assoc]
  simp only [headOfStripped, hsplit, hlast, hname.solid.trim, List.contains_iff_mem]

/-- White space around a text is trimmed. -/
theorem trim_spaced {left text right : List Char} (hleft : Blank left) (hright : Blank right)
    (h : ¬ Blank text) : trim (left ++ (text ++ right)) = trim text := by
  obtain ⟨left', core, right', rfl, hleft', hright', hcore⟩ := exists_solid h
  have houter := trim_append_solid hcore (left ++ left') (right' ++ right)
  rw [(hleft.append hleft').trimStart, (hright'.append hright).trimEnd] at houter
  rw [trim_append_solid hcore, hleft'.trimStart, hright'.trimEnd]
  simpa using houter

/-- A keyword comes off before anything else of the text is looked at. -/
theorem stripModifiers_trim_append {modifier text : List Char} (hmodifier : modifier ∈ modifiers)
    (h : ¬ Blank text) : stripModifiers (trim (modifier ++ text)) = stripModifiers (trim text) := by
  obtain ⟨left, core, right, rfl, hleft, hright, hcore⟩ := exists_solid h
  have hfirst : ∃ c rest, modifier = c :: rest ∧ isSpace c = false := by
    simp only [modifiers, List.mem_cons, List.not_mem_nil, or_false] at hmodifier
    rcases hmodifier with rfl | rfl | rfl | rfl <;> exact ⟨_, _, rfl, by decide⟩
  have hsolid : Solid (modifier ++ (left ++ core)) := by
    obtain ⟨c, rest, rfl, hc⟩ := hfirst
    obtain ⟨start, d, rfl, hd⟩ := hcore.last
    exact ⟨⟨c, _, rfl, hc⟩, ⟨c :: rest ++ (left ++ start), d, by simp, hd⟩⟩
  have houter : trim (modifier ++ (left ++ (core ++ right))) = modifier ++ (left ++ core) := by
    simpa [trimStart, hright.trimEnd] using trim_append_solid hsolid [] right
  have hinner : trimStart (left ++ core) = core := by
    obtain ⟨c, rest, rfl, hc⟩ := hcore.first
    rw [trimStart_append_cons hc, hleft.trimStart, List.nil_append]
  rw [houter, trim_append_solid hcore, hleft.trimStart, hright.trimEnd, List.append_nil,
    stripModifiers_of_some (stripModifier?_eq_some_iff.mpr ⟨modifier, hmodifier, rfl⟩), hinner,
    List.nil_append]

/-- The head of what wraps a name is the name. Brackets inside a pointer stay, whether they pair or
not. -/
theorem head_of_wraps {name text : List Char} (h : Wraps name text) : head text = name := by
  induction h with
  | bare hname hpath hgenerics =>
    rcases hgenerics with rfl | ⟨hpointers, inner, rfl⟩
    · rw [List.append_nil, head_path hpath hname]
    · rw [head_path_bracket hpath hname, if_neg hpointers]
  | spaced hleft hright h ih => rw [head_eq, trim_spaced hleft hright h.not_blank, ← head_eq, ih]
  | modified hmodifier h ih =>
    rw [head_eq, stripModifiers_trim_append hmodifier h.not_blank, ← head_eq, ih]
  | @pointed path pointer text hpath hpointer h ih =>
    have htrim : trimEnd (text ++ ['>']) = text ++ ['>'] := by
      simpa [trimEnd] using trimEnd_concat_append (c := '>') (by decide) text []
    have hclosing : dropClosing (text ++ ['>']) = text := by simp [dropClosing]
    rw [head_path_bracket hpath (isBare_of_mem_pointers hpointer), if_pos hpointer, htrim,
      hclosing, ih]

/-! ## The search as a machine -/

/-- Where the search stands: at the start of a text, in the loop that strips keywords, or at the
end. -/
inductive Stage
  | entered (type : List Char)
  | stripping (cs : List Char)
  | found (name : List Char)

namespace Stage

/-- One turn of the loop or of the recursion. -/
def next : Stage → Stage
  | entered type => stripping (trim type)
  | stripping cs =>
    match stripModifier? cs, splitGenerics cs with
    | some rest, _ => stripping (trimStart rest)
    | none, (path, some inner) =>
      if pointers.contains (trim (lastSegment path)) then entered (dropClosing inner)
      else found (trim (lastSegment path))
    | none, (path, none) => found (trim (lastSegment path))
  | found name => found name

/-- The name that the search will find. -/
def outcome : Stage → List Char
  | entered type => head type
  | stripping cs => headOfStripped (stripModifiers cs)
  | found name => name

/-- A bound on the steps to the end. Stripping and entering take at least one character away, and
trimming is done once for each text that is entered. -/
def bound : Stage → Nat
  | entered type => 2 * type.length + 2
  | stripping cs => 2 * cs.length + 1
  | found _ => 0

/-- Each stage comes to the same outcome. -/
theorem outcome_next (s : Stage) : s.next.outcome = s.outcome := by
  cases s with
  | entered type => exact (head_eq type).symm
  | stripping cs =>
    cases h : stripModifier? cs with
    | some rest => simp only [next, h, outcome, stripModifiers_of_some h]
    | none =>
      have hstripped : (stripping cs).outcome = headOfStripped cs := by
        rw [outcome, stripModifiers_of_none h]
      rw [hstripped, headOfStripped]
      rcases hsplit : splitGenerics cs with ⟨path, _ | inner⟩
      · simp only [next, h, hsplit, outcome]
      · simp only [next, h, hsplit]
        cases pointers.contains (trim (lastSegment path)) <;> rfl
  | found name => rfl

/-- A stage that is not the last has a shorter text behind it. -/
theorem bound_next_lt {s : Stage} (h : s.bound ≠ 0) : s.next.bound < s.bound := by
  cases s with
  | entered type =>
    have hle := Text.length_trim_le type
    simp only [next, bound]
    omega
  | stripping cs =>
    cases hstrip : stripModifier? cs with
    | some rest =>
      have hlt := length_stripModifier?_lt hstrip
      have hle := Text.length_trimStart_le rest
      simp only [next, hstrip, bound]
      omega
    | none =>
      rcases hsplit : splitGenerics cs with ⟨path, _ | inner⟩
      · simp only [next, hstrip, hsplit, bound]
        omega
      · have hlt := length_splitGenerics_lt (congrArg Prod.snd hsplit)
        have hle := length_dropClosing_le inner
        simp only [next, hstrip, hsplit]
        split <;> simp only [bound] <;> omega
  | found name => simp [bound] at h

/-- Every search ends, with the name that `head` gives. -/
theorem exists_iterate_next (s : Stage) : ∃ n ≤ s.bound, next^[n] s = found s.outcome := by
  induction hbound : s.bound using Nat.strong_induction_on generalizing s with
  | _ b ih =>
    by_cases hzero : s.bound = 0
    · cases s with
      | found name => exact ⟨0, Nat.zero_le _, rfl⟩
      | entered type => simp [bound] at hzero
      | stripping cs => simp [bound] at hzero
    · have hlt := bound_next_lt hzero
      obtain ⟨n, hn, hend⟩ := ih s.next.bound (hbound ▸ hlt) s.next rfl
      refine ⟨n + 1, by omega, ?_⟩
      rw [Function.iterate_succ_apply, hend, outcome_next]

end Stage

end CommandTree.TypeText

namespace CommandTree

open TypeText (Blank IsBare Stage Wraps head head_of_wraps)

/-- A field has the role that the name wrapped in its type stands for, and where there is none the
refusal tells the type as it was written. The search for the name ends on every text. -/
theorem role_through_wrappers (names : TypeNames) :
    (∀ (e : Element) (type name : String), e.kind = .field type →
      Wraps name.toList type.toList →
        (∀ role, names.roleOf name = some role → e.role names = .ok role) ∧
        (names.roleOf name = none → e.role names = .error (.field type))) ∧
    ∀ text : List Char, ∃ n ≤ 2 * text.length + 2,
      Stage.next^[n] (.entered text) = .found (head text) := by
  refine ⟨fun e type name hkind hwraps => ?_, fun text => Stage.exists_iterate_next (.entered text)⟩
  have hhead : String.ofList (head type.toList) = name := by
    rw [head_of_wraps hwraps, String.ofList_toList]
  constructor
  · intro role hrole
    simp only [Element.role, hkind, hhead, hrole]
  · intro hnone
    simp only [Element.role, hkind, hhead, hnone]

/-- A field whose type is wrapped at four levels. -/
def wrappedField : Element :=
  { name := "run", kind := .field " &std::sync::Arc< Box<dyn crate::Execution<Vec<S>>> > " }

theorem wraps_wrappedField :
    Wraps "Execution".toList " &std::sync::Arc< Box<dyn crate::Execution<Vec<S>>> > ".toList := by
  have hname : IsBare "Execution".toList :=
    ⟨⟨⟨'E', _, rfl, by decide⟩, ⟨"Executio".toList, 'n', rfl, by decide⟩⟩, by decide, by decide,
      by decide⟩
  have hspace : Blank [' '] := fun c hc => by
    rw [List.mem_singleton.mp hc]
    decide
  have hcore : Wraps "Execution".toList _ :=
    @Wraps.bare _ ["crate".toList] "<Vec<S>>".toList hname (by decide) (.inr ⟨by decide, _, rfl⟩)
  have hbox : Wraps "Execution".toList _ :=
    @Wraps.pointed _ [] "Box".toList _ (by decide) (by decide)
      (@Wraps.modified _ "dyn ".toList _ (by decide) hcore)
  have harc : Wraps "Execution".toList _ :=
    @Wraps.pointed _ ["std".toList, "sync".toList] "Arc".toList _ (by decide) (by decide)
      (@Wraps.spaced _ [' '] _ [' '] hspace hspace hbox)
  have hfield : Wraps "Execution".toList _ :=
    @Wraps.spaced _ [' '] _ [' '] hspace hspace (@Wraps.modified _ ['&'] _ (by decide) harc)
  exact Eq.subst (motive := Wraps "Execution".toList) (by decide +kernel) hfield

theorem wrappedField_role :
    wrappedField.role {} = .ok .execution ∧
      wrappedField.role { execution := "Task" } =
        .error (.field " &std::sync::Arc< Box<dyn crate::Execution<Vec<S>>> > ") :=
  ⟨((role_through_wrappers {}).1 wrappedField _ "Execution" rfl wraps_wrappedField).1 .execution
      (by decide),
    ((role_through_wrappers { execution := "Task" }).1 wrappedField _ "Execution" rfl
      wraps_wrappedField).2 (by decide)⟩

end CommandTree
