import CommandTree.Text.Printable

/-!
# Quoted text

Names are written between double quotes. `encode` escapes the quote, the backslash and four
control characters with a short escape, and every character that joins the one before it or
is not printable by its code point in lower-case hexadecimal.
-/

namespace CommandTree.Text.Quoted

/-- The digit of a number below 16. -/
def hexDigit (n : Nat) : Char :=
  if n < 10 then Char.ofNat (0x30 + n) else Char.ofNat (0x57 + n)

/-- The digits of a number in base 16, without leading zeros. -/
def hexDigits (n : Nat) : List Char :=
  if n < 16 then [hexDigit n] else hexDigits (n / 16) ++ [hexDigit (n % 16)]

/-- The value of a digit in base 16. -/
def hexValue (c : Char) : Option Nat :=
  let n := c.toNat
  if 0x30 ≤ n && n ≤ 0x39 then some (n - 0x30)
  else if 0x61 ≤ n && n ≤ 0x66 then some (n - 0x57)
  else if 0x41 ≤ n && n ≤ 0x46 then some (n - 0x37)
  else none

/-- A digit is read back. -/
theorem hexValue_hexDigit {n : Nat} (h : n < 16) : hexValue (hexDigit n) = some n := by
  have hall : ∀ n < 16, hexValue (hexDigit n) = some n := by decide
  exact hall n h

/-- The character after the backslash of a short escape. -/
def shortEscape (c : Char) : Option Char :=
  if c = '\x00' then some '0'
  else if c = '\t' then some 't'
  else if c = '\r' then some 'r'
  else if c = '\n' then some 'n'
  else if c = '"' then some '"'
  else if c = '\\' then some '\\'
  else none

/-- A character as it stands between the quotes. -/
def encodeChar (c : Char) : List Char :=
  match shortEscape c with
  | some short => ['\\', short]
  | none =>
    if isJoining c || !isPrintable c then
      ['\\', 'u', '\x7b'] ++ hexDigits c.toNat ++ ['\x7d']
    else
      [c]

/-- A text as it stands between the quotes. -/
def encode (cs : List Char) : List Char :=
  cs.flatMap encodeChar

end Quoted

/-- The text between double quotes, with escapes. -/
def quote (s : String) : String :=
  String.ofList ('"' :: Quoted.encode s.toList ++ ['"'])

end CommandTree.Text
