import CommandTree.Proofs.Factory.Writing
import Mathlib.Algebra.Group.Nat.Defs
import Mathlib.Data.List.Induction
import Mathlib.Tactic.SplitIfs

/-!
# Quoted text is a string literal

Generated source is read by the rules for string literals (`Literal.read`): a literal goes from a
quote to the next quote that is not escaped, and stands for a text. There are more ways to write a
text than quoting uses: code points below 128 in two digits, a line that is continued.

Quoted text is such a literal whatever the text is and whatever stands behind it
(`read_quote_append`). Its only quotes between the first and the last are those of escapes, each
with an odd number of backslashes before it, and it is on one line. The names of nodes are written
in no other way (`names_stay_quoted`).
-/

namespace CommandTree.Text

/-! ## String literals -/

namespace Literal

/-- Where a reader of a string literal stands. -/
inductive Place
  /-- Between two characters of the text. -/
  | text
  /-- Behind a backslash. -/
  | escape
  /-- Behind a line that is continued: the white space at the start of the next is skipped. -/
  | continued
  /-- Before the first digit of a code point below 128. -/
  | high
  /-- Before its second digit. -/
  | low (high : Nat)
  /-- Before the opening brace of a code point. -/
  | brace
  /-- Behind so many digits of a code point, with this value. -/
  | digits (count value : Nat)

/-- What a character tells a reader. -/
inductive Move
  /-- The literal ends. -/
  | close
  /-- A character of the text is complete. -/
  | yield (c : Char)
  /-- An escape goes on. -/
  | go (place : Place)

/-- The character that a backslash and a letter stand for. -/
def ofShortEscape (letter : Char) : Option Char :=
  if letter = '0' then some '\x00'
  else if letter = 't' then some '\t'
  else if letter = 'r' then some '\r'
  else if letter = 'n' then some '\n'
  else if letter = '"' then some '"'
  else if letter = '\x27' then some '\x27'
  else if letter = '\\' then some '\\'
  else none

/-- A character outside of escapes. A carriage return does not stand for itself. -/
def moveText (c : Char) : Option Move :=
  if c = '"' then some .close
  else if c = '\\' then some (.go .escape)
  else if c = '\r' then none
  else some (.yield c)

/-- What a character tells a reader at a place, if it may stand there. -/
def move : Place → Char → Option Move
  | .text, c => moveText c
  | .escape, c =>
    if c = '\n' then some (.go .continued)
    else if c = 'x' then some (.go .high)
    else if c = 'u' then some (.go .brace)
    else (ofShortEscape c).map .yield
  | .continued, c =>
    if c = ' ' ∨ c = '\t' ∨ c = '\n' ∨ c = '\r' then some (.go .continued) else moveText c
  | .high, c => do
    let digit ← Quoted.hexValue c
    if digit < 8 then some (.go (.low digit)) else none
  | .low high, c => do
    let digit ← Quoted.hexValue c
    some (.yield (Char.ofNat (high * 16 + digit)))
  | .brace, c => if c = '\x7b' then some (.go (.digits 0 0)) else none
  | .digits count value, c =>
    if c = '\x7d' then
      if 0 < count ∧ value.isValidChar then some (.yield (Char.ofNat value)) else none
    else if c = '_' then
      if 0 < count then some (.go (.digits count value)) else none
    else do
      let digit ← Quoted.hexValue c
      if count < 6 then some (.go (.digits (count + 1) (value * 16 + digit))) else none

/-- Reads the rest of a literal: the rest of its text, and what stands behind it. -/
def readFrom : Place → List Char → Option (List Char × List Char)
  | _, [] => none
  | place, c :: cs =>
    match move place c with
    | none => none
    | some .close => some ([], cs)
    | some (.yield d) => (readFrom .text cs).map (Prod.map (d :: ·) id)
    | some (.go place) => readFrom place cs

/-- Reads a literal: its text, and what stands behind it. -/
def read : List Char → Option (List Char × List Char)
  | '"' :: cs => readFrom .text cs
  | _ => none

end Literal

namespace Quoted

open Literal (Place move moveText ofShortEscape readFrom)

/-! ## Escapes -/

/-- A short escape is read back as its character. -/
theorem ofShortEscape_of_shortEscape {c letter : Char} (h : shortEscape c = some letter) :
    ofShortEscape letter = some c ∧ letter ≠ '\n' ∧ letter ≠ 'x' ∧ letter ≠ 'u' ∧
      (letter = '"' → c = '"') ∧ (letter = '\\' → c = '\\') := by
  unfold shortEscape at h
  split_ifs at h
  all_goals
    cases h
    subst_vars
    decide

theorem ne_of_shortEscape_eq_none {c : Char} (h : shortEscape c = none) :
    c ≠ '"' ∧ c ≠ '\\' ∧ c ≠ '\r' ∧ c ≠ '\n' := by
  refine ⟨?_, ?_, ?_, ?_⟩ <;> rintro rfl <;> simp [shortEscape] at h

/-- A character is written as a short escape, as a code point, or as itself. -/
theorem encodeChar_cases (c : Char) :
    (∃ letter, shortEscape c = some letter ∧ encodeChar c = ['\\', letter]) ∨
    shortEscape c = none ∧
      (encodeChar c = '\\' :: 'u' :: '\x7b' :: (hexDigits c.toNat ++ ['\x7d']) ∨
        isPrintable c = true ∧ encodeChar c = [c]) := by
  unfold encodeChar
  cases hshort : shortEscape c with
  | some letter => exact Or.inl ⟨letter, rfl, rfl⟩
  | none =>
    refine Or.inr ⟨rfl, ?_⟩
    cases hprintable : isPrintable c with
    | false => exact Or.inl (by simp)
    | true => cases hjoining : isJoining c <;> simp

/-! ## Digits -/

theorem mem_hexDigits {n : Nat} {c : Char} (h : c ∈ hexDigits n) : ∃ d < 16, c = hexDigit d := by
  fun_induction hexDigits n with
  | case1 n hn => exact ⟨n, hn, List.mem_singleton.mp h⟩
  | case2 n hn ih =>
    rcases List.mem_append.mp h with h | h
    · exact ih h
    · exact ⟨n % 16, Nat.mod_lt _ (by decide), List.mem_singleton.mp h⟩

theorem hexDigits_ne_nil (n : Nat) : hexDigits n ≠ [] := by
  fun_cases hexDigits n <;> simp

theorem length_hexDigits_le {n k : Nat} (h : n < 16 ^ (k + 1)) :
    (hexDigits n).length ≤ k + 1 := by
  fun_induction hexDigits n generalizing k with
  | case1 n hn => simp
  | case2 n hn ih =>
    cases k with
    | zero => simp at h; omega
    | succ k =>
      have := ih (k := k) (by rw [Nat.div_lt_iff_lt_mul (by decide), ← Nat.pow_succ]; exact h)
      simpa using this

theorem move_hexDigit {d : Nat} (hd : d < 16) {count value : Nat} (hcount : count < 6) :
    move (.digits count value) (hexDigit d) =
      some (.go (.digits (count + 1) (value * 16 + d))) := by
  have hne : ∀ d < 16, hexDigit d ≠ '\x7d' ∧ hexDigit d ≠ '_' := by decide
  simp [move, hne d hd, hexValue_hexDigit hd, hcount]

/-- The digits of a number are read as the number. -/
theorem readFrom_hexDigits {n : Nat} (h : (hexDigits n).length ≤ 6) (rest : List Char) :
    readFrom (.digits 0 0) (hexDigits n ++ rest) =
      readFrom (.digits (hexDigits n).length n) rest := by
  fun_induction hexDigits n generalizing rest with
  | case1 n hn =>
    rw [List.singleton_append, readFrom, move_hexDigit hn (by decide)]
    simp
  | case2 n hn ih =>
    rw [List.length_append, List.length_singleton] at h
    rw [List.append_assoc, List.singleton_append, ih (by omega), readFrom,
      move_hexDigit (Nat.mod_lt _ (by decide)) (by omega)]
    simp only [Nat.div_add_mod', List.length_append, List.length_singleton]

/-! ## Reading -/

/-- A code point is read back, whatever comes behind it. -/
theorem readFrom_codePoint (c : Char) (cs : List Char) :
    readFrom .text ('\\' :: 'u' :: '\x7b' :: (hexDigits c.toNat ++ '\x7d' :: cs)) =
      (readFrom .text cs).map (Prod.map (c :: ·) id) := by
  have hvalid : c.toNat.isValidChar := c.valid
  have hlt : c.toNat < 16 ^ 6 := by
    unfold Nat.isValidChar at hvalid
    omega
  have hlength := length_hexDigits_le hlt
  have hpos : 0 < (hexDigits c.toNat).length := List.length_pos_iff.mpr (hexDigits_ne_nil _)
  simp [readFrom, move, moveText, readFrom_hexDigits hlength, hpos, hvalid]

/-- A character that is written as itself or as an escape is read back. -/
theorem readFrom_encodeChar (c : Char) (cs : List Char) :
    readFrom .text (encodeChar c ++ cs) =
      (readFrom .text cs).map (Prod.map (c :: ·) id) := by
  rcases encodeChar_cases c with ⟨letter, hshort, h⟩ | ⟨hnone, h | ⟨-, h⟩⟩
  · obtain ⟨hread, hlf, hx, hu, -⟩ := ofShortEscape_of_shortEscape hshort
    simp [h, readFrom, move, moveText, hread, hlf, hx, hu]
  · simpa [h] using readFrom_codePoint c cs
  · obtain ⟨hquote, hback, hcr, -⟩ := ne_of_shortEscape_eq_none hnone
    simp [h, readFrom, move, moveText, hquote, hback, hcr]

/-- Quoted text is read back up to its quote. -/
theorem readFrom_encode (cs rest : List Char) :
    readFrom .text (encode cs ++ '"' :: rest) = some (cs, rest) := by
  induction cs with
  | nil => rfl
  | cons c cs ih =>
    have hcons : encode (c :: cs) = encodeChar c ++ encode cs := List.flatMap_cons
    rw [hcons, List.append_assoc, readFrom_encodeChar, ih]
    rfl

/-! ## Quotes and lines -/

/-- The number of backslashes that a text ends with. -/
def backslashRun (cs : List Char) : Nat :=
  (cs.reverse.takeWhile (· == '\\')).length

theorem backslashRun_concat (cs : List Char) :
    backslashRun (cs ++ ['\\']) = backslashRun cs + 1 := by
  simp [backslashRun]

theorem backslashRun_concat_of_ne {c : Char} (hc : c ≠ '\\') (cs : List Char) :
    backslashRun (cs ++ [c]) = 0 := by
  simp [backslashRun, hc]

/-- A character is written with a last character other than a backslash, unless it is one and is
written as two. -/
theorem encodeChar_last (c : Char) :
    encodeChar c = ['\\', '\\'] ∨ ∃ start last, encodeChar c = start ++ [last] ∧ last ≠ '\\' := by
  rcases encodeChar_cases c with ⟨letter, hshort, h⟩ | ⟨hnone, h | ⟨-, h⟩⟩
  · by_cases hback : letter = '\\'
    · exact Or.inl (hback ▸ h)
    · exact Or.inr ⟨['\\'], letter, h, hback⟩
  · exact Or.inr ⟨'\\' :: 'u' :: '\x7b' :: hexDigits c.toNat, '\x7d', by simp [h], by decide⟩
  · exact Or.inr ⟨[], c, h, (ne_of_shortEscape_eq_none hnone).2.1⟩

/-- Backslashes at the end of a written text come in pairs. -/
theorem even_backslashRun_encode (cs : List Char) : backslashRun (encode cs) % 2 = 0 := by
  induction cs using List.reverseRecOn with
  | nil => rfl
  | append_singleton cs c ih =>
    have hconcat : encode (cs ++ [c]) = encode cs ++ encodeChar c := by simp [encode]
    rw [hconcat]
    rcases encodeChar_last c with h | ⟨start, last, h, hne⟩
    · have hpair : encode cs ++ encodeChar c = encode cs ++ ['\\'] ++ ['\\'] := by simp [h]
      rw [hpair, backslashRun_concat, backslashRun_concat]
      omega
    · rw [h, ← List.append_assoc, backslashRun_concat_of_ne hne]

theorem mem_codePoint {n : Nat} {c : Char}
    (h : c ∈ '\\' :: 'u' :: '\x7b' :: (hexDigits n ++ ['\x7d'])) :
    c ∈ ['\\', 'u', '\x7b', '\x7d'] ∨ ∃ d < 16, c = hexDigit d := by
  by_cases hdigit : c ∈ hexDigits n
  · exact Or.inr (mem_hexDigits hdigit)
  · exact Or.inl (by simpa [hdigit] using h)

theorem quote_mem_encodeChar {c : Char} (h : '"' ∈ encodeChar c) : c = '"' := by
  rcases encodeChar_cases c with ⟨letter, hshort, heq⟩ | ⟨-, heq | ⟨-, heq⟩⟩
  · have hletter : letter = '"' := by simpa [heq, eq_comm] using h
    exact (ofShortEscape_of_shortEscape hshort).2.2.2.2.1 hletter
  · have hdigit : ∀ d < 16, '"' ≠ hexDigit d := by decide
    rcases mem_codePoint (heq ▸ h) with h | ⟨d, hd, h⟩
    · simp at h
    · exact absurd h (hdigit d hd)
  · exact (List.mem_singleton.mp (heq ▸ h)).symm

/-- A quote in a written text is that of an escape. -/
theorem eq_of_encode_eq_append {cs before after : List Char}
    (h : encode cs = before ++ '"' :: after) : ∃ start, before = encode start ++ ['\\'] := by
  induction cs generalizing before with
  | nil => simp [encode] at h
  | cons c cs ih =>
    have hcons : encode (c :: cs) = encodeChar c ++ encode cs := List.flatMap_cons
    rw [hcons, List.append_eq_append_iff] at h
    rcases h with ⟨more, rfl, h⟩ | ⟨more, hchar, h⟩
    · obtain ⟨start, rfl⟩ := ih h
      exact ⟨c :: start, by simp [encode]⟩
    · -- the quote is the first of what follows the character, or it is in what is written for it
      cases more with
      | nil =>
        obtain ⟨start, hstart⟩ := @ih [] h.symm
        simp at hstart
      | cons d more =>
        obtain ⟨rfl, -⟩ := List.cons.inj h
        have hquote : c = '"' := quote_mem_encodeChar (by rw [hchar]; simp)
        have hpair : ['\\', '"'] = before ++ '"' :: more := by rw [← hchar, hquote]; rfl
        refine ⟨[], ?_⟩
        cases before with
        | nil => cases hpair
        | cons e before =>
          obtain ⟨rfl, hrest⟩ := List.cons.inj hpair
          cases before with
          | nil => rfl
          | cons e before => simp at hrest

/-- Every character of a written text can be shown. -/
theorem isPrintable_of_mem_encode {cs : List Char} {c : Char} (h : c ∈ encode cs) :
    isPrintable c = true := by
  obtain ⟨a, -, h⟩ := List.mem_flatMap.mp h
  rcases encodeChar_cases a with ⟨letter, hshort, heq⟩ | ⟨-, heq | ⟨hprintable, heq⟩⟩
  · have hall : (['\\', '0', 't', 'r', 'n', '"'].all isPrintable) = true := by decide +kernel
    have hletter : letter ∈ ['\\', '0', 't', 'r', 'n', '"'] := by
      unfold shortEscape at hshort
      split_ifs at hshort <;> cases hshort <;> decide
    have hc : c = '\\' ∨ c = letter := by simpa [heq] using h
    rcases hc with rfl | rfl
    · exact List.all_eq_true.mp hall _ List.mem_cons_self
    · exact List.all_eq_true.mp hall _ hletter
  · have hall : (['\\', 'u', '\x7b', '\x7d'].all isPrintable) = true := by decide +kernel
    have hdigit : ∀ d < 16, isPrintable (hexDigit d) = true := by decide +kernel
    rw [heq] at h
    rcases mem_codePoint h with h | ⟨d, hd, rfl⟩
    · exact List.all_eq_true.mp hall _ h
    · exact hdigit d hd
  · rw [heq] at h
    rwa [List.mem_singleton.mp h]

end Quoted

/-! ## Names in generated source -/

/-- Quoted text stands between two quotes. -/
theorem toList_quote (s : String) :
    (quote s).toList = '"' :: (Quoted.encode s.toList ++ ['"']) := by
  simp [quote]

/-- Quoted text is read as the text, and the literal ends where the quoted text does. -/
theorem read_quote_append (s : String) (rest : List Char) :
    Literal.read ((quote s).toList ++ rest) = some (s.toList, rest) := by
  rw [toList_quote, List.cons_append, List.append_assoc]
  exact Quoted.readFrom_encode s.toList rest

/-- A text is known from its quoted form, wherever this stands. -/
theorem quote_between_inj {start s t rest rest' : String}
    (h : start ++ (quote s ++ rest) = start ++ (quote t ++ rest')) : s = t := by
  have hlists := congrArg String.toList h
  simp only [String.toList_append, List.append_cancel_left_eq] at hlists
  have hread := read_quote_append s rest.toList
  rw [hlists, read_quote_append] at hread
  exact String.toList_inj.mp (Prod.mk.inj (Option.some.inj hread)).1.symm

/-- The characters at which a line ends. -/
def lineBreaks : List Char :=
  ['\n', '\x0b', '\x0c', '\r', '\u0085', '\u2028', '\u2029']

/-- No line break is printable. -/
theorem notMem_lineBreaks_of_isPrintable {c : Char} (h : isPrintable c = true) :
    c ∉ lineBreaks := by
  have hall : (lineBreaks.all fun c => !isPrintable c) = true := by decide +kernel
  intro hc
  have := List.all_eq_true.mp hall c hc
  simp [h] at this

/-- A name is written between quotes, on one line and with a backslash that is not escaped before
each quote between them, and it is read back as the name, whatever stands behind it. This is how the
name of a node and its other names stand in generated text, so different names are written
differently there. -/
theorem names_stay_quoted (s : String) :
    (∃ inside, (quote s).toList = '"' :: (inside ++ ['"']) ∧ (∀ c ∈ inside, c ∉ lineBreaks) ∧
      ∀ before after, inside = before ++ '"' :: after → Quoted.backslashRun before % 2 = 1) ∧
    (∀ rest, Literal.read ((quote s).toList ++ rest) = some (s.toList, rest)) ∧
    (Factory.Builder.literal s).print = "Literal::builder(" ++ quote s ++ ")" ∧
    (∀ type, (Factory.Builder.argument s type).print =
      "Argument::builder(" ++ quote s ++ ", " ++ type.print ++ ")") ∧
    (Factory.Call.otherName s).print = ".alias(" ++ quote s ++ ")" ∧
    ∀ t,
      (quote s = quote t → s = t) ∧
      ((Factory.Builder.literal s).print = (Factory.Builder.literal t).print → s = t) ∧
      (∀ type type', (Factory.Builder.argument s type).print =
        (Factory.Builder.argument t type').print → s = t) ∧
      ((Factory.Call.otherName s).print = (Factory.Call.otherName t).print → s = t) := by
  have hliteral (s : String) := (Factory.Builder.Writes.literal s).print_eq
  have hargument (s : String) (type : Factory.Expr) :=
    (Factory.Builder.Writes.argument s type.writes_print).print_eq
  have hother (s : String) := (Factory.Call.Writes.otherName s).print_eq
  refine ⟨⟨Quoted.encode s.toList, toList_quote s, fun c hc => ?_, fun before after h => ?_⟩,
    read_quote_append s, hliteral s, hargument s, hother s,
    fun t => ⟨fun h => ?_, fun h => ?_, fun type type' h => ?_, fun h => ?_⟩⟩
  · exact notMem_lineBreaks_of_isPrintable (Quoted.isPrintable_of_mem_encode hc)
  · obtain ⟨start, rfl⟩ := Quoted.eq_of_encode_eq_append h
    have heven := Quoted.even_backslashRun_encode start
    rw [Quoted.backslashRun_concat]
    omega
  · have hplain : "" ++ (quote s ++ "") = "" ++ (quote t ++ "") := by rw [h]
    exact quote_between_inj hplain
  · simp only [hliteral, String.append_assoc] at h
    exact quote_between_inj h
  · simp only [hargument, String.append_assoc] at h
    exact quote_between_inj h
  · simp only [hother, String.append_assoc] at h
    exact quote_between_inj h

end CommandTree.Text
