import CommandTree.Proofs.Namespace.Grammar
import Mathlib.Data.List.Forall2

/-!
# The faults of a namespace

A word that stands for nothing has one defect of four (`Word.Has`, `Word.read_eq_error_iff`). So
there is exactly one thing to report of each piece of a text: that it is empty, its defect, or
nothing (`Reports`, `reports_iff`).

Reading a text that is not blank reports all of that in the order of the pieces, and nothing else
(`tokenize_reports`).
-/

namespace CommandTree.Namespace

open Text (byteLength isSpace)

/-! ## Defects of a word -/

namespace Word

/-- The word has the defect. -/
inductive Has : Defect → List Char → Prop
  | unmatchedOpen {word : List Char} (hopen : word.head? = some '<')
      (hclose : word.getLast? ≠ some '>') : Has .unmatchedOpen word
  | unmatchedClose {word : List Char} (hopen : '<' ∉ word)
      (hclose : word.getLast? = some '>') : Has .unmatchedClose word
  | emptyArgument : Has .emptyArgument ['<', '>']
  /-- A bracket stands between those of an argument. -/
  | strayInside {name : List Char} {c : Char} (hc : c ∈ name) (hbracket : c = '<' ∨ c = '>') :
      Has .strayBracket ('<' :: (name ++ ['>']))
  /-- A bracket stands in a literal, and it is not only that the last one is unmatched. -/
  | strayBracket {word : List Char} {c : Char} (hc : c ∈ word) (hbracket : c = '<' ∨ c = '>')
      (hopen : word.head? ≠ some '<') (hclose : '<' ∉ word → word.getLast? ≠ some '>') :
      Has .strayBracket word

theorem any_isBracket {cs : List Char} :
    cs.any isBracket = true ↔ ∃ c ∈ cs, c = '<' ∨ c = '>' := by
  simp [isBracket]

/-- What stands in brackets is read as an argument. -/
theorem read_brackets (name : List Char) :
    read ('<' :: (name ++ ['>'])) = readArgument name := by
  have hlast : ('<' :: (name ++ ['>'])).getLast? = some '>' := by
    simp [List.getLast?_cons]
  simp [read, hlast]

/-- A word in brackets has the defect that it is reported for. -/
theorem has_of_readArgument {name : List Char} {defect : Defect}
    (h : readArgument name = .error defect) : Has defect ('<' :: (name ++ ['>'])) := by
  unfold readArgument at h
  split at h
  · rename_i hnil
    cases h
    rw [List.isEmpty_iff.mp hnil]
    exact .emptyArgument
  · split at h
    · rename_i hany
      cases h
      obtain ⟨c, hc, hbracket⟩ := any_isBracket.mp hany
      exact .strayInside hc hbracket
    · cases h

/-- Reading refuses a word for the defect that it has. -/
theorem read_eq_error_iff {word : List Char} {defect : Defect} :
    read word = .error defect ↔ Has defect word := by
  constructor
  · intro h
    by_cases hopen : word.head? = some '<'
    · by_cases hclose : word.getLast? = some '>'
      · rw [eq_of_brackets hopen hclose] at h ⊢
        rw [read_brackets] at h
        exact has_of_readArgument h
      · obtain rfl : Defect.unmatchedOpen = defect := by simpa [read, hopen, hclose] using h
        exact .unmatchedOpen hopen hclose
    · by_cases hclose : word.getLast? = some '>' ∧ '<' ∉ word
      · obtain rfl : Defect.unmatchedClose = defect := by
          simpa [read, hopen, hclose.1, hclose.2] using h
        exact .unmatchedClose hclose.2 hclose.1
      · have hclose' : (word.getLast? == some '>' && !word.contains '<') = false := by
          simpa using hclose
        simp only [read, beq_eq_false_iff_ne.mpr hopen, hclose', Bool.false_eq_true,
          if_false] at h
        split at h
        · rename_i hany
          cases h
          obtain ⟨c, hc, hbracket⟩ := any_isBracket.mp hany
          exact .strayBracket hc hbracket hopen fun hnot hlast => hclose ⟨hlast, hnot⟩
        · cases h
  · intro h
    cases h with
    | unmatchedOpen hopen hclose => simp [read, hopen, hclose]
    | unmatchedClose hopen hclose =>
      have hhead : word.head? ≠ some '<' := fun h => hopen (List.mem_of_mem_head? h)
      simp [read, hhead, hclose, hopen]
    | emptyArgument => rfl
    | strayInside hc hbracket =>
      have hany := any_isBracket.mpr ⟨_, hc, hbracket⟩
      simp [read_brackets, readArgument, List.ne_nil_of_mem hc, hany]
    | strayBracket hc hbracket hopen hclose =>
      have hany := any_isBracket.mpr ⟨_, hc, hbracket⟩
      have hclose' : word.getLast? = some '>' → '<' ∈ word :=
        fun hlast => Classical.byContradiction fun hnot => hclose hnot hlast
      simpa [read, hopen, hany] using hclose'

end Word

/-! ## Faults of a piece -/

/-- What there is to report of a piece: the start of an empty one, the defect of a word with its
bytes, and nothing of a word of the grammar. -/
inductive Reports : Nat × List Char → List Fault → Prop
  | empty (start : Nat) : Reports (start, []) [.emptyToken start]
  | malformed (start : Nat) {word : List Char} {defect : Word.Defect}
      (h : Word.Has defect word) :
      Reports (start, word)
        [.malformed defect (String.ofList word) ⟨start, start + byteLength word⟩]
  | valid (start : Nat) {word : List Char} {identity : Identity}
      (h : Word.Names word identity) : Reports (start, word) []

/-- A piece is reported as it is read. -/
theorem reports_iff {piece : Nat × List Char} (hspace : ∀ c ∈ piece.2, isSpace c = false)
    {found : List Fault} : Reports piece found ↔ found = faultsOf (readPiece piece) := by
  obtain ⟨start, word⟩ := piece
  constructor
  · intro h
    cases h with
    | empty => rfl
    | malformed _ h =>
      have hread := Word.read_eq_error_iff.mpr h
      have hne : word ≠ [] := by
        rintro rfl
        cases hread
      simp [readPiece, readWord, hne, hread, faultsOf]
    | valid _ h =>
      obtain ⟨hne, hread⟩ := (Word.names_iff hspace).mp h
      simp [readPiece, readWord, hne, hread, faultsOf]
  · rintro rfl
    by_cases hne : word = []
    · subst hne
      exact .empty start
    · cases hread : Word.read word with
      | ok identity =>
        simpa [readPiece, readWord, hne, hread, faultsOf] using
          Reports.valid start ((Word.names_iff hspace).mpr ⟨hne, hread⟩)
      | error defect =>
        simpa [readPiece, readWord, hne, hread, faultsOf] using
          Reports.malformed start (Word.read_eq_error_iff.mp hread)

/-- Pieces without white space are reported in one way. -/
theorem forall₂_reports_iff {pieces : List (Nat × List Char)}
    (hspace : ∀ piece ∈ pieces, ∀ c ∈ piece.2, isSpace c = false) {found : List (List Fault)} :
    List.Forall₂ Reports pieces found ↔
      found = pieces.map fun piece => faultsOf (readPiece piece) := by
  induction pieces generalizing found with
  | nil => simp
  | cons piece rest ih =>
    rw [List.forall_mem_cons] at hspace
    simp only [List.forall₂_cons_left_iff, reports_iff hspace.1, ih hspace.2, List.map_cons]
    constructor
    · rintro ⟨_, _, rfl, rfl, rfl⟩
      rfl
    · rintro rfl
      exact ⟨_, _, rfl, rfl, rfl⟩

/-! ## Faults of a namespace -/

/-- Parts are all read, or their faults are given, and there is at least one. -/
theorem collect_cases {ε α : Type} (rs : List (Except ε α)) :
    (∃ as, collect rs = .ok as) ∧ rs.flatMap faultsOf = [] ∨
      collect rs = .error (rs.flatMap faultsOf) ∧ rs.flatMap faultsOf ≠ [] := by
  rw [collect_eq]
  by_cases hnone : rs.flatMap faultsOf = []
  · exact Or.inl ⟨⟨rs.filterMap Except.toOption, by simp [hnone]⟩, hnone⟩
  · exact Or.inr ⟨by simp [hnone], hnone⟩

/-- A text that is not blank is read by its pieces. -/
theorem tokenize_of_text {l : Layout} {text : String} (hl : l.text = text)
    (h : ∃ c ∈ text.toList, isSpace c = false) :
    tokenize text = collect (l.pieces.map readPiece) := by
  obtain ⟨c, hc, hplain⟩ := h
  have hsome : text.toList.all isSpace = false :=
    List.all_eq_false.mpr ⟨c, hc, by simp [hplain]⟩
  rw [tokenize_eq_collect, hsome, Layout.toList_of_text hl, piecesFrom_chars]
  rfl

/-- The faults of a text are those of its pieces: each piece is reported in one way, all faults are
given in the order of the pieces, and the text is read if there are none. A blank text has only the
fault that it is blank. -/
theorem tokenize_reports (text : String) :
    ((∀ c ∈ text.toList, isSpace c = true) → tokenize text = .error [.blank]) ∧
      ((∃ c ∈ text.toList, isSpace c = false) →
        (∃ l : Layout, l.text = text) ∧ ∀ l : Layout, l.text = text →
          (∃! found, List.Forall₂ Reports l.pieces found) ∧
            ∀ found, List.Forall₂ Reports l.pieces found →
              (∀ faults, tokenize text = .error faults ↔
                faults = found.flatten ∧ faults ≠ []) ∧
              ((∃ tokens, tokenize text = .ok tokens) ↔ found.flatten = [])) := by
  refine ⟨fun hblank => ?_, fun hsome => ⟨Layout.exists_layout text, fun l hl => ?_⟩⟩
  · rw [tokenize_eq_collect, if_pos (List.all_eq_true.mpr hblank)]
  · have hreports := @forall₂_reports_iff l.pieces fun piece hpiece c hc =>
      l.isSpace_of_mem_words (l.map_snd_pieces ▸ List.mem_map_of_mem hpiece) hc
    refine ⟨⟨_, hreports.mpr rfl, fun found h => hreports.mp h⟩, fun found hfound => ?_⟩
    obtain rfl := hreports.mp hfound
    have hflatten : (l.pieces.map fun piece => faultsOf (readPiece piece)).flatten =
        (l.pieces.map readPiece).flatMap faultsOf := by
      rw [List.flatMap_map, List.flatMap_def]
    rw [tokenize_of_text hl hsome, hflatten]
    rcases collect_cases (l.pieces.map readPiece) with ⟨⟨tokens, hok⟩, hnil⟩ | ⟨herror, hne⟩
    · simp [hok, hnil]
    · rw [herror]
      refine ⟨fun faults => ⟨?_, fun h => by rw [h.1]⟩, by simp [hne]⟩
      rintro ⟨⟩
      exact ⟨rfl, hne⟩

/-- A text with all there is to report but a stray bracket: a bracket that is not closed, nothing
between two separators, a bracket that is not opened, and nothing between brackets. -/
def faultyLayout : Layout where
  init := [(['<', 'ä'], ' '), ([], '\u2003'), (['b', '>'], ' ')]
  last := ['<', '>']
  init_spec := by simp [isSpace]
  last_spec := by simp [isSpace]

theorem faultyLayout_tokenize_reports :
    let text := "<ä \u2003b> <>"
    let found : List (List Fault) :=
      [[.malformed .unmatchedOpen "<ä" ⟨0, 3⟩], [.emptyToken 4],
        [.malformed .unmatchedClose "b>" ⟨7, 9⟩], [.malformed .emptyArgument "<>" ⟨10, 12⟩]]
    faultyLayout.text = text ∧ List.Forall₂ Reports faultyLayout.pieces found ∧
      tokenize text = .error found.flatten ∧ tokenize " \u2003" = .error [.blank] := by
  intro text found
  have htext : faultyLayout.text = text := by decide +kernel
  have hreports : List.Forall₂ Reports faultyLayout.pieces found :=
    .cons (.malformed 0 (.unmatchedOpen rfl (by decide))) <| .cons (.empty 4) <|
      .cons (.malformed 7 (.unmatchedClose (by decide) rfl)) <|
      .cons (.malformed 10 .emptyArgument) .nil
  have hsome : ∃ c ∈ text.toList, isSpace c = false := ⟨'b', by decide +kernel, rfl⟩
  have hblank : " \u2003".toList.all isSpace = true := by decide +kernel
  obtain ⟨-, hfaults⟩ := ((tokenize_reports text).2 hsome).2 faultyLayout htext
  exact ⟨htext, hreports, ((hfaults found hreports).1 _).mpr ⟨rfl, by simp [found]⟩,
    (tokenize_reports _).1 (List.all_eq_true.mp hblank)⟩

end CommandTree.Namespace
