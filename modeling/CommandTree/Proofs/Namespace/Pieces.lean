import CommandTree.Namespace.Token
import Mathlib.Data.List.TakeWhile

/-!
# A namespace is read piece by piece

A text falls into pieces at every single white-space character (`piecesFrom`). A piece is a word, or
it is empty: at an end of the text, or between two separators. What reading finds is what there is
in the pieces, one after the other: a token, the defect of a word, or that the piece is empty
(`readPiece`).

`tokenize` does not see pieces, only the lexemes of the text and whether a word is to come. The
lexemes are those of the pieces (`lexemes_eq`): the word of each piece that is not empty, and a
separator between any two pieces. Where a piece begins a word is to come, so the separator behind an
empty piece is reported, and the one behind a word is not; the end of the text stands for the
separator behind the last piece (`finish_foldl_step`). So reading gives the tokens of all pieces, or
the faults of all pieces that have one (`tokenize_eq_collect`).
-/

namespace CommandTree.Text

/-- Trimming leaves nothing exactly of a text that is all white space. -/
theorem isEmpty_trim (cs : List Char) : (trim cs).isEmpty = cs.all isSpace := by
  have hstart : cs.all isSpace = true ↔ trimStart cs = [] := by
    rw [trimStart, List.dropWhile_eq_nil_iff, List.all_eq_true]
  by_cases hnil : trimStart cs = []
  · rw [hstart.mpr hnil, trim, hnil]
    rfl
  · have hhead : isSpace ((trimStart cs).head hnil) = false := List.head_dropWhile_not isSpace hnil
    have hmem : (trimStart cs).head hnil ∈ trimStart cs := List.head_mem hnil
    have htrim : trim cs ≠ [] := by
      intro h
      rw [trim, trimEnd, List.reverse_eq_nil_iff, List.dropWhile_eq_nil_iff] at h
      rw [h _ (List.mem_reverse.mpr hmem)] at hhead
      cases hhead
    rw [List.isEmpty_eq_false_iff.mpr htrim, eq_comm, Bool.eq_false_iff, ne_eq, hstart]
    exact hnil

end CommandTree.Text

namespace CommandTree.Namespace

open Text (Span byteLength isSpace)

/-! ## Pieces -/

/-- The text between white-space characters, each piece with the byte it starts at. The text
itself starts at byte `start`. There is one piece more than there are such characters. -/
def piecesFrom (start : Nat) : List Char → List (Nat × List Char)
  | [] => [(start, [])]
  | c :: cs =>
    if isSpace c then
      (start, []) :: piecesFrom (start + c.utf8Size) cs
    else
      match piecesFrom (start + c.utf8Size) cs with
      | [] => [(start, [c])]
      | (_, piece) :: rest => (start, c :: piece) :: rest

/-- The token of one piece, or what is wrong with it. -/
def readPiece (piece : Nat × List Char) : Except Fault Token :=
  if piece.2.isEmpty then
    .error (.emptyToken piece.1)
  else
    readWord piece.2 ⟨piece.1, piece.1 + byteLength piece.2⟩

/-- There is at least one piece. -/
theorem piecesFrom_ne_nil (start : Nat) (cs : List Char) : piecesFrom start cs ≠ [] := by
  cases cs with
  | nil => simp [piecesFrom]
  | cons c cs =>
    rw [piecesFrom]
    split
    · simp
    · split <;> simp

/-- The first piece starts where the text does. -/
theorem exists_piecesFrom (start : Nat) (cs : List Char) :
    ∃ piece rest, piecesFrom start cs = (start, piece) :: rest := by
  cases cs with
  | nil => exact ⟨_, _, rfl⟩
  | cons c cs =>
    rw [piecesFrom]
    split
    · exact ⟨_, _, rfl⟩
    · split <;> exact ⟨_, _, rfl⟩

/-- A character that is no white space begins the first piece. -/
theorem piecesFrom_cons {c : Char} (hc : isSpace c = false) {start : Nat} {cs piece : List Char}
    {rest : List (Nat × List Char)}
    (h : piecesFrom (start + c.utf8Size) cs = (start + c.utf8Size, piece) :: rest) :
    piecesFrom start (c :: cs) = (start, c :: piece) :: rest := by
  rw [piecesFrom, hc, h]
  rfl

/-! ## All results -/

/-- All values if there is no error, and otherwise all errors, in order. -/
def collect {ε α : Type} : List (Except ε α) → Except (List ε) (List α)
  | [] => .ok []
  | .ok a :: rest =>
    match collect rest with
    | .ok as => .ok (a :: as)
    | .error es => .error es
  | .error e :: rest =>
    match collect rest with
    | .ok _ => .error [e]
    | .error es => .error (e :: es)

/-- The errors of a result. -/
def faultsOf {ε α : Type} : Except ε α → List ε
  | .ok _ => []
  | .error e => [e]

/-- All values are given if there is no error, and all errors if there is one. -/
theorem collect_eq {ε α : Type} (rs : List (Except ε α)) :
    collect rs = if (rs.flatMap faultsOf).isEmpty then .ok (rs.filterMap Except.toOption)
      else .error (rs.flatMap faultsOf) := by
  induction rs with
  | nil => rfl
  | cons r rest ih =>
    by_cases hnone : rest.flatMap faultsOf = []
    · cases r <;> simp [collect, ih, faultsOf, hnone, Except.toOption]
    · cases r <;> simp [collect, ih, faultsOf, hnone]

/-- Values are given if all results are values. -/
theorem eq_map_of_collect {ε α : Type} {rs : List (Except ε α)} {as : List α}
    (h : collect rs = .ok as) : rs = as.map .ok := by
  induction rs generalizing as with
  | nil =>
    cases h
    rfl
  | cons r rest ih =>
    cases r with
    | ok a =>
      rw [collect] at h
      split at h
      · rename_i as' has'
        cases h
        rw [List.map_cons, ← ih has']
      · cases h
    | error e =>
      rw [collect] at h
      split at h <;> cases h

/-- Errors are all errors, and there is at least one. -/
theorem eq_flatMap_of_collect {ε α : Type} {rs : List (Except ε α)} {es : List ε}
    (h : collect rs = .error es) : es = rs.flatMap faultsOf ∧ es ≠ [] := by
  rw [collect_eq] at h
  split at h
  · cases h
  · rename_i hsome
    cases h
    exact ⟨rfl, fun hnil => hsome (by rw [hnil]; rfl)⟩

/-! ## Lexemes of pieces -/

/-- The lexeme of a piece. An empty one has none. -/
def wordLexeme (piece : Nat × List Char) : List (Lexeme × Span) :=
  if piece.2.isEmpty then []
  else [(.word piece.2, ⟨piece.1, piece.1 + byteLength piece.2⟩)]

/-- The lexemes of pieces, with a separator that fills the bytes between any two of them. -/
def lexemesOf : List (Nat × List Char) → List (Lexeme × Span)
  | [] => []
  | [piece] => wordLexeme piece
  | piece :: next :: rest =>
    wordLexeme piece ++
      (.separator, ⟨piece.1 + byteLength piece.2, next.1⟩) :: lexemesOf (next :: rest)

/-- White space is a separator behind an empty piece. -/
theorem lexemesOf_empty_cons (start next : Nat) (piece : List Char) (rest : List (Nat × List Char)) :
    lexemesOf ((start, []) :: (next, piece) :: rest) =
      (.separator, ⟨start, next⟩) :: lexemesOf ((next, piece) :: rest) :=
  rfl

/-- A character in front of a piece makes its word longer. -/
theorem lexemesOf_cons (c : Char) (start : Nat) (piece : List Char)
    (rest : List (Nat × List Char)) :
    lexemesOf ((start, c :: piece) :: rest) =
      match lexemesOf ((start + c.utf8Size, piece) :: rest) with
      | (.word chars, span) :: more => (.word (c :: chars), ⟨start, span.stop⟩) :: more
      | more => (.word [c], ⟨start, start + c.utf8Size⟩) :: more := by
  cases piece with
  | nil => cases rest <;> simp [lexemesOf, wordLexeme]
  | cons d piece => cases rest <;> simp [lexemesOf, wordLexeme, Nat.add_assoc]

/-- The lexemes of a text are those of its pieces. -/
theorem lexemes_eq (start : Nat) (cs : List Char) :
    lexemes start cs = lexemesOf (piecesFrom start cs) := by
  induction cs generalizing start with
  | nil => rfl
  | cons c cs ih =>
    obtain ⟨piece, rest, hrest⟩ := exists_piecesFrom (start + c.utf8Size) cs
    rw [lexemes, ih, hrest]
    cases hc : isSpace c with
    | true =>
      rw [piecesFrom, hc, hrest]
      exact (lexemesOf_empty_cons _ _ _ _).symm
    | false =>
      rw [piecesFrom_cons hc hrest, lexemesOf_cons]
      rfl

/-- The last piece ends where the text does. -/
theorem getLast?_piecesFrom (start : Nat) (cs : List Char) :
    (piecesFrom start cs).getLast?.map (fun piece => piece.1 + byteLength piece.2) =
      some (start + byteLength cs) := by
  induction cs generalizing start with
  | nil => rfl
  | cons c cs ih =>
    obtain ⟨piece, rest, hrest⟩ := exists_piecesFrom (start + c.utf8Size) cs
    have hlast := ih (start + c.utf8Size)
    rw [Text.byteLength_cons, ← Nat.add_assoc, ← hlast]
    cases hc : isSpace c with
    | true => simp [piecesFrom, hc, hrest]
    | false =>
      rw [piecesFrom_cons hc hrest, hrest]
      cases rest <;> simp [Nat.add_assoc]

/-! ## Going through the lexemes -/

namespace Scan

/-- Adding a result does not say whether a word is to come. -/
@[simp] theorem expectsWord_add (s : Scan) (r : Except Fault Token) :
    (s.add r).expectsWord = s.expectsWord := by
  cases r <;> rfl

/-- What is added stands behind what there is. -/
theorem foldl_add (s : Scan) (rs : List (Except Fault Token)) :
    rs.foldl add s =
      { s with
        tokens := s.tokens ++ rs.filterMap Except.toOption
        faults := s.faults ++ rs.flatMap faultsOf } := by
  induction rs generalizing s with
  | nil => simp
  | cons r rest ih =>
    rw [List.foldl_cons, ih]
    cases r <;> simp [add, faultsOf, List.filterMap_cons, Except.toOption]

/-- The result of adding all there is to add. -/
theorem result_foldl_add (rs : List (Except Fault Token)) :
    (rs.foldl add {}).result = collect rs := by
  rw [foldl_add, collect_eq]
  rfl

/-- Where a word is to come, a piece and the separator behind it add what the piece holds. -/
theorem step_foldl_piece {s : Scan} (hs : s.expectsWord = true) (piece : Nat × List Char)
    (next : Nat) :
    step ((wordLexeme piece).foldl step s) (.separator, ⟨piece.1 + byteLength piece.2, next⟩) =
      s.add (readPiece piece) := by
  obtain ⟨start, word⟩ := piece
  by_cases hword : word = []
  · subst hword
    simp [wordLexeme, readPiece, step, hs]
  · have hexpects := (s.expectsWord_add (readWord word ⟨start, start + byteLength word⟩)).trans hs
    simp only [wordLexeme, readPiece, List.isEmpty_eq_false_iff.mpr hword, step,
      Bool.false_eq_true, if_false, List.foldl_cons, List.foldl_nil]
    rw [← hexpects]

/-- Where a word is to come, the last piece and the end of the text add what the piece holds. -/
theorem finish_foldl_step_piece {s : Scan} (hs : s.expectsWord = true) (piece : Nat × List Char) :
    ((wordLexeme piece).foldl step s).finish (piece.1 + byteLength piece.2) =
      (s.add (readPiece piece)).result := by
  obtain ⟨start, word⟩ := piece
  by_cases hword : word = []
  · subst hword
    simp [wordLexeme, readPiece, finish, hs]
  · simp [wordLexeme, readPiece, hword, step, finish, result]

/-- Going through the lexemes of pieces finds what is in the pieces. -/
theorem finish_foldl_step {s : Scan} (hs : s.expectsWord = true) {pieces : List (Nat × List Char)}
    {stop : Nat}
    (hstop : pieces.getLast?.map (fun piece => piece.1 + byteLength piece.2) = some stop) :
    ((lexemesOf pieces).foldl step s).finish stop =
      ((pieces.map readPiece).foldl add s).result := by
  induction pieces generalizing s with
  | nil => cases hstop
  | cons piece rest ih =>
    cases rest with
    | nil =>
      obtain rfl : piece.1 + byteLength piece.2 = stop := by simpa using hstop
      exact finish_foldl_step_piece hs piece
    | cons next rest =>
      have hrest := ih ((s.expectsWord_add (readPiece piece)).trans hs)
        (by rwa [List.getLast?_cons_cons] at hstop)
      rw [lexemesOf, List.foldl_append, List.foldl_cons, step_foldl_piece hs, hrest]
      rfl

end Scan

/-- A namespace that is not blank is read by its pieces. -/
theorem tokenize_eq_collect (text : String) :
    tokenize text = if text.toList.all isSpace then .error [.blank]
      else collect ((piecesFrom 0 text.toList).map readPiece) := by
  have hstop := getLast?_piecesFrom 0 text.toList
  rw [Nat.zero_add] at hstop
  rw [tokenize, Text.isEmpty_trim, lexemes_eq, Scan.finish_foldl_step rfl hstop,
    Scan.result_foldl_add]

end CommandTree.Namespace
