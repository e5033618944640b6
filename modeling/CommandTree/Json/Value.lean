import CommandTree.Json.Document

/-!
# JSON values as they are written

The values that a manifest is written with: strings, arrays and objects. `Value.text` writes a
value without white space, and `Value.doc` is the document that the written text stands for.
-/

namespace CommandTree.Json

/-- A value that can be written. -/
inductive Value
  | string (s : String)
  | array (items : List Value)
  /-- Keys with their values in order. -/
  | object (entries : List (String × Value))

/-- The letter behind the backslash, for a character with a short escape. -/
def shortEscape? (c : Char) : Option Char :=
  if c = '"' ∨ c = '\\' then some c
  else if c = '\x08' then some 'b'
  else if c = '\x0c' then some 'f'
  else if c = '\n' then some 'n'
  else if c = '\r' then some 'r'
  else if c = '\t' then some 't'
  else none

/-- A character of a string. Quotes, backslashes and control characters are escaped. -/
def charText (c : Char) : List Char :=
  match shortEscape? c with
  | some letter => ['\\', letter]
  | none =>
    if c.toNat < 0x20 then
      ['\\', 'u', '0', '0', Text.Quoted.hexDigit (c.toNat / 16),
        Text.Quoted.hexDigit (c.toNat % 16)]
    else
      [c]

/-- A string between quotes. -/
def stringText (s : String) : List Char :=
  '"' :: s.toList.flatMap charText ++ ['"']

/-- The comma before all but the first. -/
def commaText (isFirst : Bool) : List Char :=
  if isFirst then [] else [',']

namespace Value

mutual

/-- The text of a value. -/
def text : Value → List Char
  | .string s => stringText s
  | .array items => '[' :: itemsText true items
  | .object entries => '\x7b' :: entriesText true entries

/-- The items of an array up to its end. -/
def itemsText : Bool → List Value → List Char
  | _, [] => [']']
  | isFirst, item :: rest => commaText isFirst ++ text item ++ itemsText false rest

/-- The entries of an object up to its end. -/
def entriesText : Bool → List (String × Value) → List Char
  | _, [] => ['\x7d']
  | isFirst, (key, value) :: rest =>
    commaText isFirst ++ stringText key ++ ':' :: text value ++ entriesText false rest

end

mutual

/-- The document of a value. -/
def doc : Value → Doc
  | .string s => Doc.ofString s
  | .array items => .array (itemDocs items) none
  | .object entries => .object (entryDocs entries) none

/-- The documents of the items of an array. -/
def itemDocs : List Value → List Doc
  | [] => []
  | item :: rest => doc item :: itemDocs rest

/-- The documents of the entries of an object. -/
def entryDocs : List (String × Value) → List (Doc × Doc)
  | [] => []
  | (key, value) :: rest => (Doc.ofString key, doc value) :: entryDocs rest

end

/-- An array of strings. -/
def ofStrings (strings : List String) : Value :=
  .array (strings.map .string)

end Value

end CommandTree.Json
