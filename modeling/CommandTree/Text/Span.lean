/-!
# Byte spans

Positions in a text are counted in the bytes of its UTF-8 form. A span is a pair of such
positions. `splitAtByte?` cuts a text at a position and fails inside a character.
-/

namespace CommandTree.Text

/-- The bytes from `start` up to `stop`. -/
structure Span where
  start : Nat
  stop : Nat
  deriving DecidableEq, Repr, Inhabited

/-- The number of bytes of a text. -/
def byteLength : List Char → Nat
  | [] => 0
  | c :: cs => c.utf8Size + byteLength cs

/-- The text before and after byte `n`, unless byte `n` lies inside a character or past
the end. -/
def splitAtByte? : List Char → Nat → Option (List Char × List Char)
  | cs, 0 => some ([], cs)
  | [], _ + 1 => none
  | c :: cs, n + 1 =>
    if c.utf8Size ≤ n + 1 then
      (splitAtByte? cs (n + 1 - c.utf8Size)).map fun (before, after) => (c :: before, after)
    else
      none

/-! ## Small facts -/

@[simp] theorem byteLength_nil : byteLength [] = 0 := rfl

@[simp] theorem byteLength_cons (c : Char) (cs : List Char) :
    byteLength (c :: cs) = c.utf8Size + byteLength cs := rfl

@[simp] theorem byteLength_append (xs ys : List Char) :
    byteLength (xs ++ ys) = byteLength xs + byteLength ys := by
  induction xs with
  | nil => simp
  | cons c xs ih => simp [ih, Nat.add_assoc]

/-- A text is split where a part of it ends. -/
theorem splitAtByte?_append (xs ys : List Char) :
    splitAtByte? (xs ++ ys) (byteLength xs) = some (xs, ys) := by
  induction xs with
  | nil => simp [splitAtByte?]
  | cons c xs ih =>
    have hc : 0 < c.utf8Size := c.utf8Size_pos
    obtain ⟨k, hk⟩ : ∃ k, c.utf8Size + byteLength xs = k + 1 :=
      ⟨c.utf8Size + byteLength xs - 1, by omega⟩
    have hle : c.utf8Size ≤ k + 1 := by omega
    have hsub : k + 1 - c.utf8Size = byteLength xs := by omega
    simp [splitAtByte?, hk, hle, hsub, ih]

end CommandTree.Text
