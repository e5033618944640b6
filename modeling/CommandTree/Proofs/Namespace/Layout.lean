import CommandTree.Proofs.Namespace.Words

/-!
# Texts cut at white space

A `Layout` is a text as words with one white-space character between any two of them. A word has
no white space and may be empty, so every text has a layout (`exists_layout`). The text in front of
the word at index `i` is `before i`: the word takes the bytes that follow it
(`before_append_prefix`).

Reading goes through the words of a layout, each with the byte it starts at (`piecesFrom_chars`).
-/

namespace CommandTree.Namespace

open Text (byteLength isSpace)

/-- Words with one white-space character between any two of them. -/
structure Layout where
  /-- All words but the last, each with the white space behind it. -/
  init : List (List Char × Char)
  last : List Char
  init_spec : ∀ p ∈ init, (∀ c ∈ p.1, isSpace c = false) ∧ isSpace p.2 = true
  last_spec : ∀ c ∈ last, isSpace c = false

/-- Words with the white space behind each of them, as one text. -/
def spread (init : List (List Char × Char)) : List Char :=
  init.flatMap fun p => p.1 ++ [p.2]

@[simp] theorem spread_nil : spread [] = [] := rfl

@[simp] theorem spread_cons (p : List Char × Char) (init : List (List Char × Char)) :
    spread (p :: init) = p.1 ++ p.2 :: spread init := by
  simp [spread]

/-- A word stands behind those before it, each with its white space. -/
theorem spread_take_append_prefix {last word : List Char} (init : List (List Char × Char)) {i : Nat}
    (h : (init.map (·.1) ++ [last])[i]? = some word) :
    spread (init.take i) ++ word <+: spread init ++ last := by
  induction init generalizing i with
  | nil =>
    obtain ⟨rfl, rfl⟩ : i = 0 ∧ last = word := by
      simpa [List.getElem?_singleton] using h
    simp
  | cons p init ih =>
    cases i with
    | zero =>
      obtain rfl : p.1 = word := by simpa using h
      exact ⟨p.2 :: spread init ++ last, by simp⟩
    | succ i =>
      obtain ⟨after, hafter⟩ := ih (by simpa using h)
      exact ⟨after, by simp [← hafter]⟩

namespace Layout

/-- The words in order. -/
def words (l : Layout) : List (List Char) :=
  l.init.map (·.1) ++ [l.last]

/-- The text in front of the word at index `i`. -/
def before (l : Layout) (i : Nat) : List Char :=
  spread (l.init.take i)

/-- The characters of the text. -/
def chars (l : Layout) : List Char :=
  spread l.init ++ l.last

/-- The text. -/
def text (l : Layout) : String :=
  String.ofList l.chars

/-- A text consists of the characters of its layout. -/
theorem toList_of_text {l : Layout} {text : String} (h : l.text = text) :
    text.toList = l.chars := by
  rw [← h, Layout.text, String.toList_ofList]

/-- One more character starts a word, or belongs to the first one. -/
theorem exists_layout_cons (c : Char) (l : Layout) : ∃ l' : Layout, l'.chars = c :: l.chars := by
  obtain ⟨init, last, hinit, hlast⟩ := l
  cases hc : isSpace c with
  | true => exact ⟨⟨([], c) :: init, last, by simpa [hc] using hinit, hlast⟩, by simp [chars]⟩
  | false =>
    cases init with
    | nil => exact ⟨⟨[], c :: last, by simp, by simpa [hc] using hlast⟩, by simp [chars]⟩
    | cons p init =>
      rw [List.forall_mem_cons] at hinit
      refine ⟨⟨(c :: p.1, p.2) :: init, last, ?_, hlast⟩, by simp [chars]⟩
      exact List.forall_mem_cons.mpr ⟨⟨List.forall_mem_cons.mpr ⟨hc, hinit.1.1⟩, hinit.1.2⟩,
        hinit.2⟩

/-- Every text has a layout. -/
theorem exists_layout (text : String) : ∃ l : Layout, l.text = text := by
  have hchars : ∀ cs : List Char, ∃ l : Layout, l.chars = cs := by
    intro cs
    induction cs with
    | nil => exact ⟨⟨[], [], by simp, by simp⟩, rfl⟩
    | cons c cs ih =>
      obtain ⟨l, rfl⟩ := ih
      exact exists_layout_cons c l
  obtain ⟨l, hl⟩ := hchars text.toList
  exact ⟨l, by rw [Layout.text, hl, String.ofList_toList]⟩

/-- A word has no white space. -/
theorem isSpace_of_mem_words (l : Layout) {word : List Char} (h : word ∈ l.words) {c : Char}
    (hc : c ∈ word) : isSpace c = false := by
  rcases List.mem_append.mp h with h | h
  · obtain ⟨p, hp, rfl⟩ := List.mem_map.mp h
    exact (l.init_spec p hp).1 c hc
  · obtain rfl := List.mem_singleton.mp h
    exact l.last_spec c hc

/-- A word stands right behind the text in front of it. -/
theorem before_append_prefix (l : Layout) {i : Nat} {word : List Char}
    (h : l.words[i]? = some word) : l.before i ++ word <+: l.chars :=
  spread_take_append_prefix l.init h

/-- The words, each with the byte it starts at. -/
def pieces (l : Layout) : List (Nat × List Char) :=
  l.words.mapIdx fun i word => (byteLength (l.before i), word)

theorem getElem?_pieces (l : Layout) (i : Nat) :
    l.pieces[i]? = l.words[i]?.map fun word => (byteLength (l.before i), word) :=
  List.getElem?_mapIdx

theorem map_snd_pieces (l : Layout) : l.pieces.map (·.2) = l.words := by
  refine List.ext_getElem? fun i => ?_
  rw [List.getElem?_map, getElem?_pieces, Option.map_map]
  exact Option.map_id'

end Layout

/-! ## Reading piece by piece -/

/-- A word at the end is one piece. -/
theorem piecesFrom_of_plain (start : Nat) {word : List Char}
    (h : ∀ c ∈ word, isSpace c = false) : piecesFrom start word = [(start, word)] := by
  induction word generalizing start with
  | nil => rfl
  | cons c word ih =>
    rw [List.forall_mem_cons] at h
    simp [piecesFrom, h.1, ih _ h.2]

/-- A word before white space is a piece, and the others start behind the white space. -/
theorem piecesFrom_append_cons (start : Nat) {word : List Char}
    (h : ∀ c ∈ word, isSpace c = false) {sep : Char} (hsep : isSpace sep = true)
    (cs : List Char) : piecesFrom start (word ++ sep :: cs) =
      (start, word) :: piecesFrom (start + byteLength (word ++ [sep])) cs := by
  induction word generalizing start with
  | nil => simp [piecesFrom, hsep]
  | cons c word ih =>
    rw [List.forall_mem_cons] at h
    simp [piecesFrom, h.1, ih _ h.2, Nat.add_assoc]

/-- The pieces of a text are the words of its layout. -/
theorem piecesFrom_chars (l : Layout) : piecesFrom 0 l.chars = l.pieces := by
  have hshift : ∀ (init : List (List Char × Char)) (start : Nat),
      (∀ p ∈ init, (∀ c ∈ p.1, isSpace c = false) ∧ isSpace p.2 = true) →
        piecesFrom start (spread init ++ l.last) = (init.map (·.1) ++ [l.last]).mapIdx
          fun i word => (start + byteLength (spread (init.take i)), word) := by
    intro init
    induction init with
    | nil =>
      intro start _
      simpa using piecesFrom_of_plain start l.last_spec
    | cons p init ih =>
      intro start h
      rw [List.forall_mem_cons] at h
      rw [spread_cons, List.append_assoc, List.cons_append,
        piecesFrom_append_cons start h.1.1 h.1.2, ih _ h.2, List.map_cons, List.cons_append,
        List.mapIdx_cons]
      simp [Nat.add_assoc]
  have hpieces := hshift l.init 0 l.init_spec
  simp only [Nat.zero_add] at hpieces
  exact hpieces

end CommandTree.Namespace
