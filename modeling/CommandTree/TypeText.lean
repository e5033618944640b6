import CommandTree.Text.Whitespace

/-!
# The name in a type's text

A field is known by the text of its type, such as a shared pointer to a trait object. `head`
looks through references, keywords and smart pointers for the bare name: of
`&Arc<dyn crate::Execution<S>>` it is `Execution`.
-/

namespace CommandTree.TypeText

open Text (trim trimStart length_trim_le length_trimStart_le)

/-- The text after a reference sign or a keyword. -/
def stripModifier? : List Char → Option (List Char)
  | '&' :: rest => some rest
  | 'm' :: 'u' :: 't' :: ' ' :: rest => some rest
  | 'd' :: 'y' :: 'n' :: ' ' :: rest => some rest
  | 'i' :: 'm' :: 'p' :: 'l' :: ' ' :: rest => some rest
  | _ => none

/-- Stripping a keyword makes a text shorter. -/
theorem length_stripModifier?_lt {cs rest : List Char} (h : stripModifier? cs = some rest) :
    rest.length < cs.length := by
  unfold stripModifier? at h
  split at h
  all_goals
    first
    | (cases h; simp only [List.length_cons]; omega)
    | simp at h

/-- The text after all reference signs and keywords at its start. -/
def stripModifiers (cs : List Char) : List Char :=
  match h : stripModifier? cs with
  | some rest =>
    have : (trimStart rest).length < cs.length :=
      Nat.lt_of_le_of_lt (length_trimStart_le rest) (length_stripModifier?_lt h)
    stripModifiers (trimStart rest)
  | none => cs
termination_by cs.length

/-- Stripping keywords does not make a text longer. -/
theorem length_stripModifiers_le (cs : List Char) :
    (stripModifiers cs).length ≤ cs.length := by
  fun_induction stripModifiers cs with
  | case1 cs rest h ih =>
    have hlt := length_stripModifier?_lt h
    have hle := length_trimStart_le rest
    omega
  | case2 cs h => exact Nat.le_refl _

/-- The text after the rightmost path separator, if there is one. -/
def afterSeparator? : List Char → Option (List Char)
  | [] => none
  | ':' :: ':' :: rest =>
    match afterSeparator? (':' :: rest) with
    | some last => some last
    | none => some rest
  | _ :: rest => afterSeparator? rest

/-- The last segment of a path. -/
def lastSegment (path : List Char) : List Char :=
  (afterSeparator? path).getD path

/-- The segments of a path, cut at each separator from the left. -/
def segments : List Char → List (List Char)
  | [] => [[]]
  | ':' :: ':' :: rest => [] :: segments rest
  | c :: rest =>
    match segments rest with
    | [] => [[c]]
    | first :: others => (c :: first) :: others

/-- The smart pointers that `head` looks through. -/
def pointers : List (List Char) :=
  ["Arc".toList, "Rc".toList, "Box".toList]

/-- The path of a type, and what stands behind its first opening bracket. -/
def splitGenerics (cs : List Char) : List Char × Option (List Char) :=
  (cs.takeWhile (· != '<'), (cs.dropWhile (· != '<')).tail?)

/-- The text without a closing bracket at its end. -/
def dropClosing (cs : List Char) : List Char :=
  if cs.getLast? = some '>' then cs.dropLast else cs

theorem length_dropClosing_le (cs : List Char) : (dropClosing cs).length ≤ cs.length := by
  unfold dropClosing
  split
  · simp
  · exact Nat.le_refl _

/-- What stands in brackets is shorter than the type. -/
theorem length_splitGenerics_lt {cs inner : List Char}
    (h : (splitGenerics cs).2 = some inner) : inner.length < cs.length := by
  have hle := (List.dropWhile_sublist (· != '<') (l := cs)).length_le
  simp only [splitGenerics] at h
  cases hd : cs.dropWhile (· != '<') with
  | nil => simp [hd] at h
  | cons c rest =>
    rw [hd] at hle h
    simp only [List.tail?_cons, Option.some.injEq] at h
    subst h
    rw [List.length_cons] at hle
    omega

/-- The bare name of a type. -/
def head (type : List Char) : List Char :=
  let name := trim (lastSegment (splitGenerics (stripModifiers (trim type))).1)
  match h : (splitGenerics (stripModifiers (trim type))).2 with
  | some inner =>
    have : (dropClosing inner).length < type.length := by
      have h1 := length_dropClosing_le inner
      have h2 := length_splitGenerics_lt h
      have h3 := length_stripModifiers_le (trim type)
      have h4 := length_trim_le type
      omega
    if name ∈ pointers then head (dropClosing inner) else name
  | none => name
termination_by type.length

end CommandTree.TypeText
