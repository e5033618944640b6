/-!
# White space

Words of a namespace stand between white-space characters, and texts are trimmed of them.
White space is the property `White_Space` of the Unicode standard: 25 characters, the
line breaks and the wide spaces among them. It is wider than `Char.isWhitespace`, which
knows four characters.
-/

namespace CommandTree.Text

/-- A character with the property `White_Space`. -/
def isSpace (c : Char) : Bool :=
  let n := c.toNat
  (0x9 ≤ n && n ≤ 0xD) || n == 0x20 || n == 0x85 || n == 0xA0 || n == 0x1680 ||
    (0x2000 ≤ n && n ≤ 0x200A) || n == 0x2028 || n == 0x2029 || n == 0x202F ||
    n == 0x205F || n == 0x3000

/-- The text from its first character that is no white space. -/
def trimStart (cs : List Char) : List Char :=
  cs.dropWhile isSpace

/-- The text up to its last character that is no white space. -/
def trimEnd (cs : List Char) : List Char :=
  (cs.reverse.dropWhile isSpace).reverse

/-- The text without white space at its ends. -/
def trim (cs : List Char) : List Char :=
  trimEnd (trimStart cs)

/-! ## Small facts -/

theorem length_trimStart_le (cs : List Char) : (trimStart cs).length ≤ cs.length :=
  (List.dropWhile_sublist isSpace).length_le

theorem length_trimEnd_le (cs : List Char) : (trimEnd cs).length ≤ cs.length := by
  have h := (List.dropWhile_sublist isSpace (l := cs.reverse)).length_le
  simpa [trimEnd] using h

theorem length_trim_le (cs : List Char) : (trim cs).length ≤ cs.length :=
  Nat.le_trans (length_trimEnd_le _) (length_trimStart_le _)

end CommandTree.Text
