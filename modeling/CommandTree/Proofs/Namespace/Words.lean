import CommandTree.Proofs.Namespace.Memo

/-!
# The words of a namespace

A namespace is read word by word: `words` cuts it at white space, and it can be read exactly if
no word is empty and each of them stands for an identity (`tokenize_iff`). The words of joined
segments are the segments (`words_segmentText`), so a namespace of segments is read segment by
segment.

A word that can be read is a literal without angle brackets, or an argument between a pair of them
(`Word.read_eq_ok_iff`). So what it names is a *name* (`IsName`): not empty, without white space
and without angle brackets. So is every alias that is accepted.
-/

namespace CommandTree.Namespace

open Text (isSpace)

/-! ## One word -/

/-- A name of a command. -/
def IsName (name : String) : Prop :=
  name ≠ "" ∧ ∀ c ∈ name.toList, isSpace c = false ∧ c ≠ '<' ∧ c ≠ '>'

instance (name : String) : Decidable (IsName name) :=
  decidable_of_iff
    (name ≠ "" ∧ name.toList.all (fun c => !isSpace c && c != '<' && c != '>') = true)
    (by simp [IsName, and_assoc])

namespace Word

theorem isBracket_eq_false {c : Char} : isBracket c = false ↔ c ≠ '<' ∧ c ≠ '>' := by
  simp [isBracket]

theorem any_isBracket_eq_false {cs : List Char} :
    cs.any isBracket = false ↔ ∀ c ∈ cs, c ≠ '<' ∧ c ≠ '>' := by
  simp [isBracket_eq_false]

/-- A word that opens and closes has its name between the brackets. -/
theorem eq_of_brackets {word : List Char} (hopen : word.head? = some '<')
    (hclose : word.getLast? = some '>') : word = '<' :: (word.tail.dropLast ++ ['>']) := by
  obtain ⟨rest, rfl⟩ := List.head?_eq_some_iff.mp hopen
  rcases List.eq_nil_or_concat rest with rfl | ⟨name, last, rfl⟩
  · simp at hclose
  · obtain rfl : last = '>' := by simpa [List.getLast?_cons] using hclose
    simp

/-- A word is a literal if it has no bracket, and an argument if a name without brackets stands
between a pair of them. -/
theorem read_eq_ok_iff {word : List Char} {identity : Identity} :
    read word = .ok identity ↔
      identity = .literal (String.ofList word) ∧ (∀ c ∈ word, c ≠ '<' ∧ c ≠ '>') ∨
      ∃ name, word = '<' :: (name ++ ['>']) ∧ name ≠ [] ∧ (∀ c ∈ name, c ≠ '<' ∧ c ≠ '>') ∧
        identity = .argument (String.ofList name) := by
  constructor
  · intro h
    unfold read at h
    dsimp only at h
    split at h
    · rename_i hopen
      split at h
      · rename_i hclose
        rw [beq_iff_eq] at hopen hclose
        refine Or.inr ⟨word.tail.dropLast, eq_of_brackets hopen hclose, ?_⟩
        unfold readArgument at h
        split at h
        · cases h
        · rename_i hne
          split at h
          · cases h
          · rename_i hany
            cases h
            exact ⟨by simpa using hne, any_isBracket_eq_false.mp (by simpa using hany), rfl⟩
      · cases h
    · split at h
      · cases h
      · split at h
        · cases h
        · rename_i hany
          cases h
          exact Or.inl ⟨rfl, any_isBracket_eq_false.mp (by simpa using hany)⟩
  · rintro (⟨rfl, hplain⟩ | ⟨name, rfl, hne, hplain, rfl⟩)
    · have hopen : (word.head? == some '<') = false := by
        rw [beq_eq_false_iff_ne]
        exact fun h => (hplain _ (List.mem_of_mem_head? h)).1 rfl
      have hclose : (word.getLast? == some '>') = false := by
        rw [beq_eq_false_iff_ne]
        exact fun h => (hplain _ (List.mem_of_getLast? h)).2 rfl
      simp [read, hopen, hclose, any_isBracket_eq_false.mpr hplain]
    · have hlast : ('<' :: (name ++ ['>'])).getLast? = some '>' := by
        simp [List.getLast?_cons]
      simp [read, readArgument, hlast, hne, any_isBracket_eq_false.mpr hplain]

/-- What a word stands for has a name. -/
theorem isName_of_read {word : List Char} {identity : Identity} (hne : word ≠ [])
    (hspace : ∀ c ∈ word, isSpace c = false) (h : read word = .ok identity) :
    IsName identity.name := by
  rcases read_eq_ok_iff.mp h with ⟨rfl, hplain⟩ | ⟨name, rfl, hname, hplain, rfl⟩
  · refine ⟨by simpa [Identity.literal] using hne, fun c hc => ?_⟩
    have hc' : c ∈ word := by simpa [Identity.literal] using hc
    exact ⟨hspace c hc', hplain c hc'⟩
  · refine ⟨by simpa [Identity.argument] using hname, fun c hc => ?_⟩
    have hc' : c ∈ name := by simpa [Identity.argument] using hc
    exact ⟨hspace c (by simp [hc']), hplain c hc'⟩

end Word

/-- A word that may be an alias is a name. -/
theorem isName_of_isAliasWord {word : String} (h : isAliasWord word = true) : IsName word := by
  unfold isAliasWord at h
  simp only [Bool.and_eq_true, Bool.not_eq_true', List.isEmpty_eq_false_iff] at h
  obtain ⟨⟨hne, hspace⟩, hread⟩ := h
  split at hread
  · rename_i identity hok
    rcases Word.read_eq_ok_iff.mp hok with ⟨rfl, hplain⟩ | ⟨_, _, _, _, rfl⟩
    · refine ⟨fun heq => hne (by simp [heq]), fun c hc => ⟨?_, hplain c hc⟩⟩
      simpa using List.any_eq_false.mp hspace c hc
    · simp [Identity.argument] at hread
  · cases hread

/-! ## All words -/

/-- The text between white-space characters. -/
def words (text : String) : List (List Char) :=
  text.toList.splitOnP isSpace

/-- The pieces of a text are its parts between white space. -/
theorem map_snd_piecesFrom (start : Nat) (cs : List Char) :
    (piecesFrom start cs).map (·.2) = cs.splitOnP isSpace := by
  induction cs generalizing start with
  | nil => rfl
  | cons c cs ih =>
    rw [piecesFrom, List.splitOnP_cons_eq_if_modifyHead]
    split
    · rw [List.map_cons, ih]
    · have hne := piecesFrom_ne_nil (start + c.utf8Size) cs
      rw [← ih (start + c.utf8Size)]
      cases hrest : piecesFrom (start + c.utf8Size) cs with
      | nil => exact absurd hrest hne
      | cons piece rest => simp

/-- A word has no white space. -/
theorem isSpace_of_mem_splitOnP {cs word : List Char} (h : word ∈ cs.splitOnP isSpace) {c : Char}
    (hc : c ∈ word) : isSpace c = false := by
  induction cs generalizing word with
  | nil =>
    obtain rfl : word = [] := by simpa using h
    cases hc
  | cons first rest ih =>
    rw [List.splitOnP_cons_eq_if_modifyHead] at h
    split at h
    · rcases List.mem_cons.mp h with rfl | h
      · cases hc
      · exact ih h hc
    · rename_i hfirst
      obtain ⟨head, tail, htail⟩ := List.exists_cons_of_ne_nil (List.splitOnP_ne_nil isSpace rest)
      rw [htail, List.modifyHead_cons] at h
      rw [htail] at ih
      rcases List.mem_cons.mp h with rfl | h
      · rcases List.mem_cons.mp hc with rfl | hc
        · simpa using hfirst
        · exact ih List.mem_cons_self hc
      · exact ih (List.mem_cons_of_mem _ h) hc

/-- A piece is read if it is a word that can be read. -/
theorem readPiece_eq_ok_iff {start : Nat} {word : List Char} {token : Token} :
    readPiece (start, word) = .ok token ↔ word ≠ [] ∧ ∃ identity, Word.read word = .ok identity ∧
      token = { identity, span := ⟨start, start + Text.byteLength word⟩ } := by
  by_cases hne : word = []
  · simp [readPiece, hne]
  · cases hread : Word.read word with
    | error defect => simp [readPiece, readWord, hne, hread]
    | ok identity =>
      simp [readPiece, readWord, hne, hread]
      exact eq_comm

theorem collect_map_ok {ε α : Type} (as : List α) :
    collect (as.map (Except.ok : α → Except ε α)) = .ok as := by
  induction as with
  | nil => rfl
  | cons a as ih => simp [collect, ih]

/-- Pieces can be read if none is empty and each stands for an identity. -/
theorem readPieces_iff {pieces : List (Nat × List Char)} {identities : List Identity} :
    (∃ tokens : List Token, pieces.map readPiece = tokens.map .ok ∧
        tokens.map (·.identity) = identities) ↔
      [] ∉ pieces.map (·.2) ∧ (pieces.map (·.2)).map Word.read = identities.map .ok := by
  induction pieces generalizing identities with
  | nil =>
    cases identities <;> simp
  | cons piece rest ih =>
    obtain ⟨start, word⟩ := piece
    constructor
    · rintro ⟨tokens, htokens, rfl⟩
      cases tokens with
      | nil => cases htokens
      | cons token tokens =>
        rw [List.map_cons, List.map_cons, List.cons.injEq, readPiece_eq_ok_iff] at htokens
        obtain ⟨⟨hne, identity, hread, rfl⟩, hrest⟩ := htokens
        obtain ⟨hempty, hreads⟩ := ih.mp ⟨tokens, hrest, rfl⟩
        exact ⟨by simpa [hne.symm] using hempty, by simpa [hread] using hreads⟩
    · rintro ⟨hempty, hreads⟩
      cases identities with
      | nil => cases hreads
      | cons identity identities =>
        rw [List.map_cons, List.map_cons, List.map_cons, List.cons.injEq] at hreads
        rw [List.map_cons, List.mem_cons, not_or] at hempty
        obtain ⟨tokens, htokens, rfl⟩ := ih.mpr ⟨hempty.2, hreads.2⟩
        have hpiece := (@readPiece_eq_ok_iff start word _).mpr
          ⟨Ne.symm hempty.1, identity, hreads.1, rfl⟩
        exact ⟨_ :: tokens, by rw [List.map_cons, List.map_cons, hpiece, htokens], rfl⟩

/-- A text that starts with a word is not blank. -/
theorem not_blank_of_words {text : String} (h : [] ∉ words text) :
    text.toList.all isSpace = false := by
  unfold words at h
  cases hcs : text.toList with
  | nil => simp [hcs] at h
  | cons c cs =>
    rw [hcs, List.splitOnP_cons_eq_if_modifyHead] at h
    split at h
    · exact absurd List.mem_cons_self h
    · rename_i hc
      simp [hc]

/-- A namespace can be read exactly if none of its words is empty and each stands for an
identity. -/
theorem tokenize_iff {text : String} {identities : List Identity} :
    (∃ tokens, tokenize text = .ok tokens ∧ tokens.map (·.identity) = identities) ↔
      [] ∉ words text ∧ (words text).map Word.read = identities.map .ok := by
  have hpieces := @readPieces_iff (piecesFrom 0 text.toList) identities
  rw [map_snd_piecesFrom] at hpieces
  rw [words, ← hpieces]
  constructor
  · rintro ⟨tokens, h, hidentities⟩
    rw [tokenize_eq_collect] at h
    split at h
    · cases h
    · exact ⟨tokens, eq_map_of_collect h, hidentities⟩
  · rintro ⟨tokens, h, hidentities⟩
    have hblank := not_blank_of_words (hpieces.mp ⟨tokens, h, hidentities⟩).1
    refine ⟨tokens, ?_, hidentities⟩
    rw [tokenize_eq_collect, hblank, h]
    exact collect_map_ok tokens

/-- What is read has names. -/
theorem isName_of_tokenize {text : String} {tokens : List Token} (h : tokenize text = .ok tokens)
    {token : Token} (ht : token ∈ tokens) : IsName token.identity.name := by
  obtain ⟨hempty, hreads⟩ := tokenize_iff.mp ⟨tokens, h, rfl⟩
  have hmem : Except.ok token.identity ∈ (words text).map Word.read := by
    rw [hreads]
    exact List.mem_map_of_mem (List.mem_map_of_mem ht)
  obtain ⟨word, hword, hread⟩ := List.mem_map.mp hmem
  exact Word.isName_of_read (fun hnil => hempty (hnil ▸ hword))
    (fun c hc => isSpace_of_mem_splitOnP hword hc) hread

/-! ## Segments -/

/-- No segment is reported exactly if none has white space. -/
theorem compoundSegments_eq_nil {start : Nat} {segments : List String} :
    compoundSegments start segments = [] ↔
      ∀ segment ∈ segments, ∀ c ∈ segment.toList, isSpace c = false := by
  induction segments generalizing start with
  | nil => simp [compoundSegments]
  | cons segment rest ih =>
    rw [compoundSegments, List.forall_mem_cons,
      ← @ih (start + Text.byteLength segment.toList + 1)]
    split
    · rename_i hspace
      simp only [List.any_eq_true] at hspace
      obtain ⟨c, hc, hcs⟩ := hspace
      simp only [reduceCtorEq, false_iff, not_and]
      exact fun h => absurd (h c hc) (by simp [hcs])
    · rename_i hspace
      have hplain : ∀ c ∈ segment.toList, isSpace c = false := by simpa using hspace
      exact (and_iff_right hplain).symm

/-- Segments are joined if none of them has white space. -/
theorem joinSegments_eq_ok {segments : List String} {text : String} :
    joinSegments segments = .ok text ↔ text = segmentText segments ∧
      ∀ segment ∈ segments, ∀ c ∈ segment.toList, isSpace c = false := by
  rw [← @compoundSegments_eq_nil 0]
  unfold joinSegments
  split
  · rename_i hnil
    simp only [hnil, Except.ok.injEq, and_true]
    exact eq_comm
  · rename_i hne
    simpa using fun _ => hne

/-- Otherwise those that have white space are reported. -/
theorem joinSegments_eq_error {segments : List String} {faults : List Fault} :
    joinSegments segments = .error faults ↔
      faults = compoundSegments 0 segments ∧ faults ≠ [] := by
  unfold joinSegments
  split
  · rename_i hnil
    simp [hnil]
  · rename_i hne
    constructor
    · rintro ⟨⟩
      exact ⟨rfl, hne⟩
    · rintro ⟨rfl, -⟩
      rfl

/-- The words of joined segments are the segments. -/
theorem words_segmentText {segments : List String} (hne : segments ≠ [])
    (h : ∀ segment ∈ segments, ∀ c ∈ segment.toList, isSpace c = false) :
    words (segmentText segments) = segments.map String.toList := by
  rw [words, segmentText, String.toList_intercalate]
  induction segments with
  | nil => exact absurd rfl hne
  | cons first rest ih =>
    rw [List.forall_mem_cons] at h
    cases rest with
    | nil => simpa using List.splitOnP_eq_singleton h.1
    | cons second rest =>
      have hspace : isSpace ' ' = true := by decide
      rw [List.map_cons, List.map_cons, List.intercalate_cons_cons, List.append_assoc]
      rw [show " ".toList = [' '] from rfl, List.singleton_append]
      rw [List.splitOnP_append_cons_of_forall_mem h.1 _ hspace]
      exact congrArg _ (ih (by simp) h.2)

/-! ## Aliases -/

/-- Aliases without a fault are all accepted, and are names. -/
theorem checkAliases_of_no_faults {primary? : Option String} {accepted aliases : List String}
    (h : (checkAliases primary? accepted aliases).2 = []) :
    (checkAliases primary? accepted aliases).1 = accepted ++ aliases ∧
      ∀ word ∈ aliases, IsName word := by
  induction aliases generalizing accepted with
  | nil => simp [checkAliases]
  | cons word rest ih =>
    rw [checkAliases] at h ⊢
    split at h
    · rename_i hword
      split at h
      · cases h
      · rename_i hnew
        obtain ⟨hall, hnames⟩ := ih h
        rw [if_pos hword, if_neg hnew]
        exact ⟨by simpa using hall,
          List.forall_mem_cons.mpr ⟨isName_of_isAliasWord hword, hnames⟩⟩
    · cases h

/-- Reading with aliases puts all of them on the last token. -/
theorem readAliased_eq_ok {text : String} {aliases : List String} {tokens : List Token}
    (h : readAliased text aliases = .ok tokens) :
    ∃ read, tokenize text = .ok read ∧ tokens = aliasLast aliases read ∧
      ∀ word ∈ aliases, IsName word := by
  unfold readAliased at h
  split at h
  · rename_i hnil
    obtain rfl := List.isEmpty_iff.mp hnil
    exact ⟨tokens, h, (aliasLast_nil fun _ ht => aliases_of_tokenize h ht).symm, by simp⟩
  · obtain ⟨read, primary?, hread, hfaults, rfl⟩ := eq_aliasLast_of_addAliases h
    obtain ⟨haccepted, hnames⟩ := checkAliases_of_no_faults hfaults
    exact ⟨read, hread, by rw [haccepted, List.nil_append], hnames⟩

end CommandTree.Namespace
