import CommandTree.Namespace.Memo
import CommandTree.Proofs.Namespace.Pieces
import Mathlib.Data.List.Basic

/-!
# Reading with a memory is reading

A memory is *sound* if it holds only what `tokenize` gives. Then reading a namespace from it
is reading the namespace (`fst_lex`), and reading keeps it sound. What is read has at least one
token and no aliases; giving aliases to a namespace changes its last token only.
-/

namespace CommandTree.Namespace

/-! ## Reading -/

/-- A piece is read without aliases. -/
theorem aliases_of_readPiece {piece : Nat × List Char} {token : Token}
    (h : readPiece piece = .ok token) : token.aliases = [] := by
  unfold readPiece readWord at h
  split at h
  · cases h
  · split at h
    · cases h
      rfl
    · cases h

/-- A namespace that can be read has a token. -/
theorem ne_nil_of_tokenize {text : String} {tokens : List Token}
    (h : tokenize text = .ok tokens) : tokens ≠ [] := by
  rw [tokenize_eq_collect] at h
  split at h
  · cases h
  · rintro rfl
    have := eq_map_of_collect h
    exact piecesFrom_ne_nil 0 text.toList (by simpa using this)

/-- A namespace that cannot be read has a fault. -/
theorem faults_ne_nil_of_tokenize {text : String} {faults : List Fault}
    (h : tokenize text = .error faults) : faults ≠ [] := by
  rw [tokenize_eq_collect] at h
  split at h
  · cases h
    simp
  · exact (eq_flatMap_of_collect h).2

/-- Reading gives no aliases. -/
theorem aliases_of_tokenize {text : String} {tokens : List Token}
    (h : tokenize text = .ok tokens) {token : Token} (ht : token ∈ tokens) :
    token.aliases = [] := by
  rw [tokenize_eq_collect] at h
  split at h
  · cases h
  · have hmem : Except.ok token ∈ (piecesFrom 0 text.toList).map readPiece := by
      rw [eq_map_of_collect h]
      exact List.mem_map_of_mem ht
    obtain ⟨piece, -, hpiece⟩ := List.mem_map.mp hmem
    exact aliases_of_readPiece hpiece

/-! ## The memory -/

namespace Memo

/-- The memory holds only what reading gives. -/
def Sound (m : Memo) : Prop :=
  ∀ e ∈ m.entries, tokenize e.1 = .ok e.2

theorem sound_empty : empty.Sound := by
  simp [Sound, empty]

theorem Sound.remember {m : Memo} (hm : m.Sound) {text : String} {tokens : List Token}
    (h : tokenize text = .ok tokens) : (m.remember text tokens).Sound := by
  intro e he
  rcases List.mem_cons.mp he with rfl | he
  · exact h
  · exact hm e he

/-- What is remembered of a text is what reading it gives. -/
theorem Sound.tokenize_of_lookup {m : Memo} (hm : m.Sound) {text : String}
    {tokens : List Token} (h : m.lookup text = some tokens) : tokenize text = .ok tokens := by
  obtain ⟨l₁, l₂, heq, -⟩ := List.lookup_eq_some_iff.mp h
  exact hm (text, tokens) (by simp [heq])

/-- From a sound memory a namespace is read as it is. -/
theorem Sound.fst_lex {m : Memo} (hm : m.Sound) (text : String) :
    (m.lex text).1 = tokenize text := by
  unfold lex
  split
  · rename_i tokens h
    exact (hm.tokenize_of_lookup h).symm
  · split <;> simp_all

/-- Reading remembers at most what was read. -/
theorem snd_lex (m : Memo) (text : String) : (m.lex text).2 = m ∨
    ∃ tokens, tokenize text = .ok tokens ∧ (m.lex text).2 = m.remember text tokens := by
  unfold lex
  split
  · exact Or.inl rfl
  · split
    · rename_i tokens h
      exact Or.inr ⟨tokens, h, rfl⟩
    · exact Or.inl rfl

theorem snd_lexAliased (m : Memo) (text : String) (aliases : List String) :
    (m.lexAliased text aliases).2 = (m.lex text).2 := by
  unfold lexAliased
  dsimp only
  split <;> rfl

end Memo

/-! ## Aliases -/

theorem aliasLast_cons_cons (aliases : List String) (first second : Token)
    (rest : List Token) : aliasLast aliases (first :: second :: rest) =
      first :: aliasLast aliases (second :: rest) :=
  rfl

theorem aliasLast_eq_nil {aliases : List String} {tokens : List Token} :
    aliasLast aliases tokens = [] ↔ tokens = [] := by
  match tokens with
  | [] => simp [aliasLast]
  | [_] => simp [aliasLast]
  | _ :: _ :: _ => simp [aliasLast]

/-- Only the last token gets aliases. -/
theorem mem_aliasLast {aliases : List String} {token : Token} :
    ∀ {tokens : List Token}, token ∈ aliasLast aliases tokens →
      token ∈ tokens ∨ (aliasLast aliases tokens).getLast? = some token
  | [], h => by simp [aliasLast] at h
  | [last], h => by
    right
    simpa [aliasLast, eq_comm] using h
  | first :: second :: rest, h => by
    rw [aliasLast_cons_cons] at h ⊢
    rcases List.mem_cons.mp h with rfl | h
    · exact Or.inl (by simp)
    · rcases mem_aliasLast h with h | h
      · exact Or.inl (List.mem_cons_of_mem _ h)
      · exact Or.inr (by rw [List.getLast?_cons, h]; rfl)

/-- Without aliases nothing changes. -/
theorem aliasLast_nil {tokens : List Token} (h : ∀ token ∈ tokens, token.aliases = []) :
    aliasLast [] tokens = tokens := by
  match tokens with
  | [] => rfl
  | [last] => rw [aliasLast, ← h last List.mem_cons_self]
  | first :: second :: rest =>
    rw [aliasLast_cons_cons, aliasLast_nil fun token ht => h token (List.mem_cons_of_mem _ ht)]

/-- The last token has the aliases. -/
theorem getLast?_aliasLast (aliases : List String) : ∀ tokens : List Token,
    (aliasLast aliases tokens).getLast? = tokens.getLast?.map ({ · with aliases })
  | [] => rfl
  | [_] => rfl
  | first :: second :: rest => by
    rw [aliasLast_cons_cons, List.getLast?_cons, getLast?_aliasLast, List.getLast?_cons_cons]
    cases h : (second :: rest).getLast? with
    | none => simp at h
    | some last => rfl

theorem map_identity_aliasLast (aliases : List String) : ∀ tokens : List Token,
    (aliasLast aliases tokens).map (·.identity) = tokens.map (·.identity)
  | [] => rfl
  | [_] => rfl
  | first :: second :: rest => by
    rw [aliasLast_cons_cons, List.map_cons, map_identity_aliasLast]
    rfl

/-- Aliases are added to a namespace that was read, if they have no fault. -/
theorem eq_aliasLast_of_addAliases {text : String} {aliases : List String}
    {tokens : List Token} (h : addAliases aliases (tokenize text) = .ok tokens) :
    ∃ read primary?, tokenize text = .ok read ∧ (checkAliases primary? [] aliases).2 = [] ∧
      tokens = aliasLast (checkAliases primary? [] aliases).1 read := by
  unfold addAliases at h
  cases hread : tokenize text with
  | error faults =>
    rw [hread] at h
    dsimp only at h
    split at h
    · rename_i hnil
      rw [List.append_eq_nil_iff, List.append_eq_nil_iff] at hnil
      exact absurd hnil.1.1 (faults_ne_nil_of_tokenize hread)
    · cases h
  | ok read =>
    rw [hread] at h
    dsimp only at h
    split at h
    · rename_i hnil
      rw [List.append_eq_nil_iff, List.nil_append] at hnil
      cases h
      exact ⟨read, _, rfl, hnil.1, rfl⟩
    · cases h

/-- What reading with aliases gives, whatever is remembered. -/
def readAliased (text : String) (aliases : List String) : Except (List Fault) (List Token) :=
  if aliases.isEmpty then tokenize text else addAliases aliases (tokenize text)

/-- Reading with a memo gives what reading gives. -/
theorem Memo.Sound.fst_lexAliased {m : Memo} (hm : m.Sound) (text : String)
    (aliases : List String) : (m.lexAliased text aliases).1 = readAliased text aliases := by
  unfold Memo.lexAliased readAliased
  dsimp only
  rw [hm.fst_lex]
  split <;> rfl

/-- The faults of a namespace with aliases are those of the namespace, those of the aliases, and
that its last token is an argument. -/
theorem readAliased_eq_error {text : String} {aliases : List String} {faults : List Fault}
    (h : readAliased text aliases = .error faults) :
    faults ≠ [] ∧ ∀ fault ∈ faults,
      (∃ read, tokenize text = .error read ∧ fault ∈ read) ∨
        (∃ primary?, fault ∈ (checkAliases primary? [] aliases).2) ∨
        ∃ tokens, tokenize text = .ok tokens ∧ fault ∈ aliasedArgument tokens := by
  unfold readAliased at h
  split at h
  · exact ⟨faults_ne_nil_of_tokenize h, fun fault hf => Or.inl ⟨faults, h, hf⟩⟩
  · unfold addAliases at h
    dsimp only at h
    split at h
    · cases h
    · rename_i hne
      cases h
      refine ⟨hne, fun fault hf => ?_⟩
      rw [List.mem_append, List.mem_append] at hf
      cases hread : tokenize text with
      | error read =>
        rw [hread] at hf
        rcases hf with (hf | hf) | hf
        · exact Or.inl ⟨read, rfl, hf⟩
        · exact Or.inr (Or.inl ⟨_, hf⟩)
        · cases hf
      | ok tokens =>
        rw [hread] at hf
        rcases hf with (hf | hf) | hf
        · cases hf
        · exact Or.inr (Or.inl ⟨_, hf⟩)
        · exact Or.inr (Or.inr ⟨tokens, rfl, hf⟩)

end CommandTree.Namespace
