import CommandTree.Json.Reader
import CommandTree.Json.Value
import Mathlib.Tactic.SplitIfs

/-!
# Written values are read back

A character of a string is written as itself, as a short escape or as a code unit, and each of these
is scanned as one unit that stands for the character (`scanString_charText`). So a string is read
back (`readString_flatMap`), and by induction on the value so is every value that is written: its
text is the document `Value.doc` with nothing left over (`Doc.read_text`).

The reader counts its steps. An item or entry takes two more than its value and has a character of
its own behind it, so three steps for each character are enough.
-/

namespace CommandTree.Json

open CommandTree.Text.Quoted (hexDigit hexValue hexValue_hexDigit)

/-! ## Strings -/

/-- The letter of a short escape stands for the character, and does not start a code unit. -/
theorem ofEscape_of_shortEscape? {c letter : Char} (h : shortEscape? c = some letter) :
    letter ≠ 'u' ∧ ofEscape letter = some c := by
  unfold shortEscape? at h
  split_ifs at h with hself
  · cases h
    rcases hself with rfl | rfl <;> decide
  all_goals
    cases h
    subst_vars
    decide

theorem codeUnit?_hexDigit {n : Nat} (h : n < 0x20) :
    codeUnit? '0' '0' (hexDigit (n / 16)) (hexDigit (n % 16)) = some n := by
  have hzero : hexValue '0' = some 0 := by decide
  have hhigh := hexValue_hexDigit (show n / 16 < 16 by omega)
  have hlow := hexValue_hexDigit (show n % 16 < 16 by omega)
  have hsum : n / 16 * 0x10 + n % 16 = n := by omega
  simp [codeUnit?, hzero, hhigh, hlow, hsum]

/-- The unit that a written character is scanned as. -/
def charUnit (c : Char) : CodeUnit :=
  if shortEscape? c = none ∧ c.toNat < 0x20 then .code c.toNat else .plain c

/-- A character is read back, whatever comes behind it. -/
theorem scanString_charText (c : Char) (cs : List Char) :
    scanString (charText c ++ cs) = (charUnit c :: (scanString cs).1, (scanString cs).2) := by
  unfold charText charUnit
  cases hshort : shortEscape? c with
  | some letter =>
    obtain ⟨hne, hescape⟩ := ofEscape_of_shortEscape? hshort
    simp [scanString, hne, hescape]
  | none =>
    by_cases hcontrol : c.toNat < 0x20
    · simp [hcontrol, scanString, codeUnit?_hexDigit hcontrol]
    · -- The last equation of the scan asks that the character is neither a quote nor a backslash.
      have hquote : c ≠ '"' := by
        rintro rfl
        cases hshort
      have hslash : c ≠ '\\' := by
        rintro rfl
        cases hshort
      simp [hcontrol, scanString, hslash]

/-- The characters of a string are read up to the closing quote. -/
theorem scanString_flatMap (s rest : List Char) :
    scanString (s.flatMap charText ++ '"' :: rest) = (s.map charUnit, .ok rest) := by
  induction s with
  | nil => simp [scanString]
  | cons c s ih =>
    rw [List.flatMap_cons, List.append_assoc, scanString_charText, ih, List.map_cons]

/-- A unit of a written character stands for the character by itself, since no half of a character
is a control character. -/
theorem unitsText_charUnit (c : Char) (units : List CodeUnit) :
    unitsText none (charUnit c :: units) = (unitsText none units).map (c :: ·) := by
  unfold charUnit
  split_ifs with h
  · have htrailing : isTrailing c.toNat = false := by simp [isTrailing]; omega
    have hleading : isLeading c.toNat = false := by simp [isLeading]; omega
    rw [unitsText.eq_def]
    simp [htrailing, hleading]
  · rw [unitsText]

/-- The units of characters are decoded as the characters. -/
theorem unitsText_map_charUnit (s : List Char) : unitsText none (s.map charUnit) = .ok s := by
  induction s with
  | nil => rfl
  | cons c s ih =>
    rw [List.map_cons, unitsText_charUnit, ih]
    rfl

/-- The text of a string is read as the string. -/
theorem readString_flatMap (s : String) (rest : List Char) :
    readString (s.toList.flatMap charText ++ '"' :: rest) = (Doc.ofString s, some rest) := by
  simp [readString, scanString_flatMap, unitsText_map_charUnit, Doc.ofString, Except.map]

/-! ## Values -/

/-- A written value starts with no white space, and with no end of an array or object. -/
theorem Value.exists_text_eq_cons (v : Value) :
    ∃ c cs, v.text = c :: cs ∧ isBlank c = false ∧ c ≠ ']' ∧ c ≠ '\x7d' := by
  cases v with
  | string s => exact ⟨'"', _, by rw [text, stringText]; rfl, by decide⟩
  | array items => exact ⟨'[', _, by rw [text], by decide⟩
  | object entries => exact ⟨'\x7b', _, by rw [text], by decide⟩

theorem Value.length_text_pos (v : Value) : 0 < v.text.length := by
  obtain ⟨c, cs, htext, -⟩ := v.exists_text_eq_cons
  simp [htext]

theorem Value.length_itemsText_pos (isFirst : Bool) (items : List Value) :
    0 < (itemsText isFirst items).length := by
  cases items with
  | nil => simp [itemsText]
  | cons item items =>
    have := item.length_text_pos
    simp only [itemsText, List.length_append]
    omega

theorem skipBlank_cons {c : Char} (h : isBlank c = false) (cs : List Char) :
    skipBlank (c :: cs) = c :: cs := by
  simp [skipBlank, h]

theorem readValue_stringText (s : String) (fuel : Nat) (rest : List Char) :
    readValue (fuel + 1) (stringText s ++ rest) = (Doc.ofString s, some rest) := by
  have htext : stringText s ++ rest = '"' :: (s.toList.flatMap charText ++ '"' :: rest) := by
    simp [stringText]
  rw [htext, readValue, skipBlank_cons (by decide)]
  simp [readString_flatMap]

theorem readItems_commaText (v : Value) (isFirst : Bool) (fuel : Nat) (cs : List Char) :
    readItems (fuel + 1) isFirst (commaText isFirst ++ (v.text ++ cs)) =
      readItem fuel (v.text ++ cs) := by
  cases isFirst with
  | false => simp [commaText, readItems, skipBlank_cons (show isBlank ',' = false by decide)]
  | true =>
    obtain ⟨c, text, htext, hblank, hend, -⟩ := v.exists_text_eq_cons
    simp [commaText, htext, readItems, skipBlank_cons hblank, hend]

theorem readEntries_commaText (v : Value) (isFirst : Bool) (fuel : Nat) (cs : List Char) :
    readEntries (fuel + 1) isFirst (commaText isFirst ++ (v.text ++ cs)) =
      readEntry fuel (v.text ++ cs) := by
  cases isFirst with
  | false => simp [commaText, readEntries, skipBlank_cons (show isBlank ',' = false by decide)]
  | true =>
    obtain ⟨c, text, htext, hblank, -, hend⟩ := v.exists_text_eq_cons
    simp [commaText, htext, readEntries, skipBlank_cons hblank, hend]

namespace Value

mutual

/-- A value is read back from the front of a text. -/
theorem readValue_text : ∀ (v : Value) (fuel : Nat) (rest : List Char),
    3 * v.text.length ≤ fuel → readValue fuel (v.text ++ rest) = (v.doc, some rest)
  | .string s, fuel, rest, h => by
    simp only [text, stringText, List.cons_append, List.length_cons] at h
    obtain ⟨fuel, rfl⟩ : ∃ n, fuel = n + 1 := Nat.exists_eq_add_one.2 (by omega)
    rw [text, readValue_stringText, doc]
  | .array items, fuel, rest, h => by
    rw [text, List.length_cons] at h
    obtain ⟨fuel, rfl⟩ : ∃ n, fuel = n + 1 := Nat.exists_eq_add_one.2 (by omega)
    have hitems := readItems_itemsText items true fuel rest (by omega)
    rw [text, List.cons_append, readValue, skipBlank_cons (by decide)]
    simp [hitems, doc]
  | .object entries, fuel, rest, h => by
    rw [text, List.length_cons] at h
    obtain ⟨fuel, rfl⟩ : ∃ n, fuel = n + 1 := Nat.exists_eq_add_one.2 (by omega)
    have hentries := readEntries_entriesText entries true fuel rest (by omega)
    rw [text, List.cons_append, readValue, skipBlank_cons (by decide)]
    simp [hentries, doc]

/-- The members of an array are read back. -/
theorem readItems_itemsText : ∀ (items : List Value) (isFirst : Bool) (fuel : Nat)
    (rest : List Char), 3 * (itemsText isFirst items).length ≤ fuel →
      readItems fuel isFirst (itemsText isFirst items ++ rest) = (itemDocs items, none, some rest)
  | [], isFirst, fuel, rest, h => by
    rw [itemsText, List.length_singleton] at h
    obtain ⟨fuel, rfl⟩ : ∃ n, fuel = n + 1 := Nat.exists_eq_add_one.2 (by omega)
    rw [itemsText, List.singleton_append, readItems, skipBlank_cons (by decide)]
    simp [itemDocs]
  | item :: items, isFirst, fuel, rest, h => by
    simp only [itemsText, List.length_append] at h
    have hpos := item.length_text_pos
    have hmore := length_itemsText_pos false items
    obtain ⟨fuel, rfl⟩ : ∃ n, fuel = n + 2 := ⟨fuel - 2, by omega⟩
    have hitem := readValue_text item fuel (itemsText false items ++ rest) (by omega)
    have hitems := readItems_itemsText items false fuel rest (by omega)
    rw [itemsText, List.append_assoc, List.append_assoc, readItems_commaText, readItem, hitem]
    simp [hitems, itemDocs]

/-- The entries of an object are read back. -/
theorem readEntries_entriesText : ∀ (entries : List (String × Value)) (isFirst : Bool) (fuel : Nat)
    (rest : List Char), 3 * (entriesText isFirst entries).length ≤ fuel →
      readEntries fuel isFirst (entriesText isFirst entries ++ rest) =
        (entryDocs entries, none, some rest)
  | [], isFirst, fuel, rest, h => by
    rw [entriesText, List.length_singleton] at h
    obtain ⟨fuel, rfl⟩ : ∃ n, fuel = n + 1 := Nat.exists_eq_add_one.2 (by omega)
    rw [entriesText, List.singleton_append, readEntries, skipBlank_cons (by decide)]
    simp [entryDocs]
  | (key, value) :: entries, isFirst, fuel, rest, h => by
    simp only [entriesText, List.length_append, List.length_cons] at h
    obtain ⟨fuel, rfl⟩ : ∃ n, fuel = n + 3 := ⟨fuel - 3, by omega⟩
    have hkey := readValue_stringText key fuel
      (':' :: (value.text ++ (entriesText false entries ++ rest)))
    have hvalue := readValue_text value (fuel + 1) (entriesText false entries ++ rest) (by omega)
    have hentries := readEntries_entriesText entries false (fuel + 1) rest (by omega)
    have hcomma := readEntries_commaText (.string key) isFirst (fuel + 2)
      (':' :: (value.text ++ (entriesText false entries ++ rest)))
    rw [text] at hcomma
    simp only [entriesText, List.append_assoc, List.cons_append]
    rw [hcomma, readEntry, hkey]
    simp [skipBlank_cons (show isBlank ':' = false by decide), hvalue, hentries, entryDocs]

end

end Value

/-- The text of a value is read as its document, with nothing left over. -/
theorem Doc.read_text (v : Value) : Doc.read v.text = (v.doc, some []) := by
  have h := v.readValue_text (3 * v.text.length + 3) [] (by omega)
  rwa [List.append_nil] at h

end CommandTree.Json
