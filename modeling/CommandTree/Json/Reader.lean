import CommandTree.Json.Document

/-!
# Reading a document

`Doc.read` reads a text as a document, with the text left over if there is no flaw. A value is
known by its first character. At most three steps go by before a character is used up, so
three times the length of the text bounds the number of steps.
-/

namespace CommandTree.Json

/-- White space of a JSON text. -/
def isBlank (c : Char) : Bool :=
  c == ' ' || c == '\n' || c == '\t' || c == '\r'

/-- The text from its first character that is no white space. -/
def skipBlank (cs : List Char) : List Char :=
  cs.dropWhile isBlank

/-- Reads the rest of a word. -/
def readWord (value : Option Bool) : List Char → List Char → Doc × Option (List Char)
  | [], cs => (.word (.ok value), some cs)
  | _ :: _, [] => (.word (.error .truncated), none)
  | expected :: more, c :: cs =>
    if c = expected then readWord value more cs else (.word (.error .malformed), none)

/-- Reads a number. -/
def readNumber (cs : List Char) : Doc × Option (List Char) :=
  match scanNumber cs with
  | .ok (text, rest) =>
    match text.value? with
    | some value => (.number (.ok value) none, some rest)
    | none => (.number (.error .malformed) none, some rest)
  | .error flaw => (.number (.error flaw) (some .malformed), none)

/-- Reads a string from behind its first quote. -/
def readString (cs : List Char) : Doc × Option (List Char) :=
  match scanString cs with
  | (units, .ok rest) => (.string ((unitsText none units).map String.ofList) none, some rest)
  | (units, .error flaw) =>
    (.string ((unitsText (some flaw) units).map String.ofList) (some flaw), none)

/-- What stands where a character is expected: the end of the text, or another character. -/
def flawAt (cs : List Char) : Flaw :=
  if cs.isEmpty then .truncated else .malformed

mutual

/-- Reads a value. -/
def readValue : Nat → List Char → Doc × Option (List Char)
  | 0, _ => (.missing .truncated, none)
  | fuel + 1, cs =>
    match skipBlank cs with
    | [] => (.missing .truncated, none)
    | c :: rest =>
      if c = 'n' then readWord none ['u', 'l', 'l'] rest
      else if c = 't' then readWord (some true) ['r', 'u', 'e'] rest
      else if c = 'f' then readWord (some false) ['a', 'l', 's', 'e'] rest
      else if c = '-' ∨ c.isDigit then readNumber (c :: rest)
      else if c = '"' then readString rest
      else if c = '[' then
        let (items, ending, rest) := readItems fuel true rest
        (.array items ending, rest)
      else if c = '\x7b' then
        let (entries, ending, rest) := readEntries fuel true rest
        (.object entries ending, rest)
      else (.missing .malformed, none)

/-- Reads the items of an array. Behind the first one, a comma stands before each. -/
def readItems : Nat → Bool → List Char → List Doc × Option Flaw × Option (List Char)
  | 0, _, _ => ([], some .truncated, none)
  | fuel + 1, isFirst, cs =>
    match skipBlank cs with
    | [] => ([], some .truncated, none)
    | c :: rest =>
      if c = ']' then ([], none, some rest)
      else if isFirst then readItem fuel (c :: rest)
      else if c = ',' then readItem fuel rest
      else ([], some .malformed, none)

/-- Reads an item of an array and those behind it. -/
def readItem : Nat → List Char → List Doc × Option Flaw × Option (List Char)
  | 0, _ => ([], some .truncated, none)
  | fuel + 1, cs =>
    match readValue fuel cs with
    | (item, none) => ([item], some .malformed, none)
    | (item, some rest) =>
      let (items, ending, rest) := readItems fuel false rest
      (item :: items, ending, rest)

/-- Reads the entries of an object. Behind the first one, a comma stands before each. -/
def readEntries : Nat → Bool → List Char → List (Doc × Doc) × Option Flaw × Option (List Char)
  | 0, _, _ => ([], some .truncated, none)
  | fuel + 1, isFirst, cs =>
    match skipBlank cs with
    | [] => ([], some .truncated, none)
    | c :: rest =>
      if c = '\x7d' then ([], none, some rest)
      else if isFirst then readEntry fuel (c :: rest)
      else if c = ',' then readEntry fuel rest
      else ([], some .malformed, none)

/-- Reads a key, a colon and a value, and the entries behind them. -/
def readEntry : Nat → List Char → List (Doc × Doc) × Option Flaw × Option (List Char)
  | 0, _ => ([], some .truncated, none)
  | fuel + 1, cs =>
    match readValue fuel cs with
    | (key, none) => ([(key, .missing .malformed)], some .malformed, none)
    | (key, some rest) =>
      match skipBlank rest with
      | ':' :: rest =>
        match readValue fuel rest with
        | (value, none) => ([(key, value)], some .malformed, none)
        | (value, some rest) =>
          let (entries, ending, rest) := readEntries fuel false rest
          ((key, value) :: entries, ending, rest)
      | rest => ([(key, .missing (flawAt rest))], some .malformed, none)

end

/-- Reads a document from the front of a text. -/
def Doc.read (cs : List Char) : Doc × Option (List Char) :=
  readValue (3 * cs.length + 3) cs

end CommandTree.Json
