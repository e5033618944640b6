import CommandTree.Proofs.Namespace.Layout

/-!
# The grammar of namespaces

`Word.Names` says which words there are and what each stands for: a name is a literal, and a name
between angle brackets an argument. It is what `Word.read` accepts (`Word.names_iff`), and the word
is how the identity is shown. So identities that are shown one after the other are read back
(`tokenize_display`).

A namespace can be read exactly if it has a layout of such words, and then each word gives one
token, which spans its bytes (`tokenize_grammar`).
-/

namespace CommandTree.Namespace

open Text (byteLength isSpace)

/-! ## Identities as words -/

/-- The words of a namespace, with what they stand for. -/
inductive Word.Names : List Char → Identity → Prop
  | literal {name : String} (h : IsName name) : Names name.toList (.literal name)
  | argument {name : String} (h : IsName name) :
      Names ('<' :: (name.toList ++ ['>'])) (.argument name)

/-- An identity is shown as a word that stands for it. -/
theorem Word.read_display {i : Identity} (h : IsName i.name) :
    Word.read i.display.toList = .ok i := by
  obtain ⟨kind, name⟩ := i
  obtain ⟨hne, hplain⟩ := h
  rw [Word.read_eq_ok_iff]
  cases kind with
  | literal =>
    exact Or.inl ⟨by simp [Identity.display, Identity.literal], fun c hc => (hplain c hc).2⟩
  | argument =>
    exact Or.inr ⟨name.toList, by simp [Identity.display], by simpa using hne,
      fun c hc => (hplain c hc).2, by simp [Identity.argument]⟩

theorem isSpace_of_mem_display {i : Identity} (h : IsName i.name) :
    ∀ c ∈ i.display.toList, isSpace c = false := by
  obtain ⟨kind, name⟩ := i
  cases kind with
  | literal => exact fun c hc => (h.2 c hc).1
  | argument =>
    have hopen : isSpace '<' = false := by decide
    have hclose : isSpace '>' = false := by decide
    intro c hc
    have hc' : c = '<' ∨ c ∈ name.toList ∨ c = '>' := by simpa [Identity.display] using hc
    rcases hc' with rfl | hc | rfl
    · exact hopen
    · exact (h.2 c hc).1
    · exact hclose

theorem display_ne_nil {i : Identity} (h : IsName i.name) : i.display.toList ≠ [] := by
  obtain ⟨kind, name⟩ := i
  cases kind with
  | literal => simpa [Identity.display] using h.1
  | argument => simp [Identity.display]

/-- Identities that are shown one after the other are read back. -/
theorem tokenize_display {ids : List Identity} (hne : ids ≠ []) (h : ∀ i ∈ ids, IsName i.name) :
    ∃ tokens, tokenize (segmentText (ids.map Identity.display)) = .ok tokens ∧
      tokens.map (·.identity) = ids := by
  have hwords : words (segmentText (ids.map Identity.display)) =
      ids.map fun i => i.display.toList := by
    rw [words_segmentText (by simpa using hne)
      (List.forall_mem_map.mpr fun i hi => isSpace_of_mem_display (h i hi)), List.map_map]
    rfl
  rw [tokenize_iff, hwords]
  constructor
  · intro hnil
    obtain ⟨i, hi, hdisplay⟩ := List.mem_map.mp hnil
    exact display_ne_nil (h i hi) hdisplay
  · rw [List.map_map]
    exact List.map_congr_left fun i hi => Word.read_display (h i hi)

/-- A word is how the identity that it stands for is shown. -/
theorem Word.Names.display {word : List Char} {i : Identity} (h : Names word i) :
    IsName i.name ∧ i.display.toList = word := by
  cases h with
  | literal h => exact ⟨h, rfl⟩
  | argument h => exact ⟨h, by simp [Identity.display, Identity.argument]⟩

/-- Reading takes the words of the grammar, and no others. -/
theorem Word.names_iff {word : List Char} (hspace : ∀ c ∈ word, isSpace c = false)
    {i : Identity} : Names word i ↔ word ≠ [] ∧ read word = .ok i := by
  constructor
  · intro h
    obtain ⟨hname, rfl⟩ := h.display
    exact ⟨display_ne_nil hname, read_display hname⟩
  · rintro ⟨hne, hread⟩
    have hname := isName_of_read hne hspace hread
    rcases read_eq_ok_iff.mp hread with ⟨rfl, -⟩ | ⟨name, rfl, -, -, rfl⟩
    · simpa [Identity.literal] using Names.literal hname
    · simpa [Identity.argument] using Names.argument hname

/-! ## Whole namespaces -/

namespace Layout

variable {l : Layout} {text : String} {tokens : List Token}

theorem words_of_text (h : l.text = text) : Namespace.words text = l.words := by
  rw [Namespace.words, toList_of_text h, ← map_snd_piecesFrom 0, piecesFrom_chars, map_snd_pieces]

/-- A namespace that is read gives one token for each piece. -/
theorem map_readPiece (h : l.text = text) (hread : tokenize text = .ok tokens) :
    l.pieces.map readPiece = tokens.map .ok := by
  rw [tokenize_eq_collect] at hread
  split at hread
  · cases hread
  · rw [toList_of_text h, piecesFrom_chars] at hread
    exact eq_map_of_collect hread

/-- The token of the word at index `i`. Its span is the bytes that the word takes in the text. -/
structure TokenAt (l : Layout) (i : Nat) (word : List Char) (token : Token) : Prop where
  names : Word.Names word token.identity
  display : token.identity.display = String.ofList word
  slice : l.before i ++ word <+: l.chars
  span : token.span = ⟨byteLength (l.before i), byteLength (l.before i) + byteLength word⟩
  aliases : token.aliases = []

/-- Each word of a namespace that is read has its token. -/
theorem tokenAt (h : l.text = text) (hread : tokenize text = .ok tokens) {i : Nat}
    {word : List Char} {token : Token} (hword : l.words[i]? = some word)
    (htoken : tokens[i]? = some token) : l.TokenAt i word token := by
  have hpiece : readPiece (byteLength (l.before i), word) = .ok token := by
    have hi := congrArg (·[i]?) (map_readPiece h hread)
    simpa [List.getElem?_map, getElem?_pieces, hword, htoken] using hi
  obtain ⟨hne, identity, hok, rfl⟩ := readPiece_eq_ok_iff.mp hpiece
  have hnames := (Word.names_iff fun c hc =>
    l.isSpace_of_mem_words (List.mem_of_getElem? hword) hc).mpr ⟨hne, hok⟩
  exact ⟨hnames, by rw [← hnames.display.2, String.ofList_toList], l.before_append_prefix hword,
    rfl, rfl⟩

/-- There is one token for each word. -/
theorem length_tokens (h : l.text = text) (hread : tokenize text = .ok tokens) :
    tokens.length = l.words.length := by
  have hlength := congrArg List.length (map_readPiece h hread)
  simpa [pieces] using hlength.symm

/-- A text can be read if each of its words stands for an identity. -/
theorem exists_tokenize_iff (h : l.text = text) :
    (∃ tokens, tokenize text = .ok tokens) ↔
      ∀ word ∈ l.words, ∃ identity, Word.Names word identity := by
  constructor
  · rintro ⟨tokens, hread⟩ word hword
    obtain ⟨i, hi⟩ := List.mem_iff_getElem?.mp hword
    have hlt : i < tokens.length := by
      rw [length_tokens h hread]
      exact (List.getElem?_eq_some_iff.mp hi).1
    exact ⟨_, (tokenAt h hread hi (List.getElem?_eq_getElem hlt)).names⟩
  · intro hnames
    choose! identityOf hidentity using hnames
    have hread : ∀ word ∈ l.words, word ≠ [] ∧ Word.read word = .ok (identityOf word) :=
      fun word hword => (Word.names_iff fun c hc => l.isSpace_of_mem_words hword hc).mp
        (hidentity word hword)
    obtain ⟨tokens, htokens, -⟩ := (@tokenize_iff text (l.words.map identityOf)).mpr (by
      rw [words_of_text h, List.map_map]
      exact ⟨fun hnil => (hread _ hnil).1 rfl,
        List.map_congr_left fun word hword => (hread word hword).2⟩)
    exact ⟨tokens, htokens⟩

end Layout

/-- A text is a namespace exactly if it is words of the grammar with one white-space character
between any two of them. Then reading gives one token for each word, and the words that the
tokens are shown as can be read again. -/
theorem tokenize_grammar (text : String) :
    ((∃ tokens, tokenize text = .ok tokens) ↔ ∃ l : Layout, l.text = text ∧
        ∀ word ∈ l.words, ∃ identity, Word.Names word identity) ∧
      ∀ l : Layout, l.text = text → ∀ tokens, tokenize text = .ok tokens →
        tokens.length = l.words.length ∧
          (∀ i word token, l.words[i]? = some word → tokens[i]? = some token →
            l.TokenAt i word token) ∧
          ∃ again, tokenize (segmentText (tokens.map (·.identity.display))) = .ok again ∧
            again.map (·.identity) = tokens.map (·.identity) := by
  refine ⟨⟨fun hread => ?_, ?_⟩, fun l hl tokens hread => ?_⟩
  · obtain ⟨l, hl⟩ := Layout.exists_layout text
    exact ⟨l, hl, (Layout.exists_tokenize_iff hl).mp hread⟩
  · rintro ⟨l, hl, hnames⟩
    exact (Layout.exists_tokenize_iff hl).mpr hnames
  · refine ⟨Layout.length_tokens hl hread, fun i word token => Layout.tokenAt hl hread, ?_⟩
    have hdisplay := @tokenize_display (tokens.map (·.identity))
      (by simpa using ne_nil_of_tokenize hread)
      (List.forall_mem_map.mpr fun token ht => isName_of_tokenize hread ht)
    rwa [List.map_map] at hdisplay

/-- A literal and an argument with a wide space between them. -/
def wideTeleport : Layout where
  init := [(['t', 'p'], '\u3000')]
  last := ['<', 'g', 'r', 'ö', 'ß', 'e', '>']
  init_spec := by simp [isSpace]
  last_spec := by simp [isSpace]

/-- The argument starts behind the three bytes of the space, and two of its characters take two
bytes each. -/
theorem wideTeleport_tokenize_grammar :
    let size : Token := { identity := .argument "größe", span := ⟨5, 14⟩ }
    wideTeleport.text = "tp\u3000<größe>" ∧
      tokenize "tp\u3000<größe>" = .ok [{ identity := .literal "tp", span := ⟨0, 2⟩ }, size] ∧
      wideTeleport.TokenAt 1 ['<', 'g', 'r', 'ö', 'ß', 'e', '>'] size ∧
      ∃ again, tokenize (segmentText ["tp", "<größe>"]) = .ok again ∧
        again.map (·.identity) = [.literal "tp", .argument "größe"] := by
  intro size
  have htext : wideTeleport.text = "tp\u3000<größe>" := by decide +kernel
  have hread : tokenize "tp\u3000<größe>" =
      .ok [{ identity := .literal "tp", span := ⟨0, 2⟩ }, size] := by decide +kernel
  obtain ⟨-, htokens, hagain⟩ := (tokenize_grammar _).2 wideTeleport htext _ hread
  exact ⟨htext, hread, htokens 1 _ size rfl rfl, hagain⟩

end CommandTree.Namespace
