import CommandTree.Proofs.Namespace.Faults
import CommandTree.Proofs.Namespace.Segments

/-!
# Spans of a namespace

A span lies *within* a text if it is the bytes of a part of it (`Text.Span.Within`). The token of a
word lies within the namespace, since its span is the bytes of the word, and so does each fault
that points at something: a word, the gap where a word is missing, or a segment of the joined
text. Aliases are not part of the text, and their faults point at nothing.
-/

namespace CommandTree

open Text (Span byteLength isSpace)

/-- The span is the bytes of a part of the text. -/
def Text.Span.Within (span : Span) (text : String) : Prop :=
  ∃ before inside, before ++ inside <+: text.toList ∧
    span = ⟨byteLength before, byteLength before + byteLength inside⟩

namespace Namespace

/-- A fault points into the text, if it points at anything. -/
def Fault.Within (text : String) (fault : Fault) : Prop :=
  ∀ span ∈ fault.span?, span.Within text

/-! ## Namespaces -/

/-- The words of a layout are within its text. -/
theorem Layout.within_of_mem_pieces {l : Layout} {text : String} (hl : l.text = text)
    {piece : Nat × List Char} (h : piece ∈ l.pieces) :
    Span.Within ⟨piece.1, piece.1 + byteLength piece.2⟩ text := by
  obtain ⟨i, hi⟩ := List.mem_iff_getElem?.mp h
  rw [l.getElem?_pieces, Option.map_eq_some_iff] at hi
  obtain ⟨word, hword, rfl⟩ := hi
  exact ⟨l.before i, word, toList_of_text hl ▸ l.before_append_prefix hword, rfl⟩

/-- A token spans a part of the namespace. -/
theorem within_of_tokenize {text : String} {tokens : List Token} (h : tokenize text = .ok tokens)
    {token : Token} (ht : token ∈ tokens) : token.span.Within text := by
  obtain ⟨l, hl⟩ := Layout.exists_layout text
  have hmem : Except.ok token ∈ l.pieces.map readPiece := by
    rw [Layout.map_readPiece hl h]
    exact List.mem_map_of_mem ht
  obtain ⟨⟨start, word⟩, hpiece, hread⟩ := List.mem_map.mp hmem
  obtain ⟨-, identity, -, rfl⟩ := readPiece_eq_ok_iff.mp hread
  exact l.within_of_mem_pieces hl hpiece

/-- The fault of a piece points at the piece. -/
theorem span?_of_readPiece {piece : Nat × List Char} {fault : Fault}
    (h : readPiece piece = .error fault) :
    fault.span? = some ⟨piece.1, piece.1 + byteLength piece.2⟩ := by
  obtain ⟨start, word⟩ := piece
  by_cases hne : word = []
  · subst hne
    cases h
    rfl
  · cases hread : Word.read word with
    | ok identity => simp [readPiece, readWord, hne, hread] at h
    | error defect =>
      obtain rfl := by simpa [readPiece, readWord, hne, hread] using h
      rfl

/-- The faults of a namespace point into it. -/
theorem within_of_tokenize_error {text : String} {faults : List Fault}
    (h : tokenize text = .error faults) {fault : Fault} (hf : fault ∈ faults) :
    fault.Within text := by
  obtain ⟨l, hl⟩ := Layout.exists_layout text
  by_cases hsome : ∃ c ∈ text.toList, isSpace c = false
  · rw [tokenize_of_text hl hsome] at h
    rw [(eq_flatMap_of_collect h).1, List.flatMap_map, List.mem_flatMap] at hf
    obtain ⟨piece, hpiece, hf⟩ := hf
    cases hread : readPiece piece with
    | ok token => simp [hread, faultsOf] at hf
    | error fault' =>
      obtain rfl : fault = fault' := by simpa [hread, faultsOf] using hf
      intro span hspan
      obtain rfl := Option.some.inj ((span?_of_readPiece hread).symm.trans hspan)
      exact l.within_of_mem_pieces hl hpiece
  · have hblank : text.toList.all isSpace = true := by simpa using hsome
    rw [tokenize_eq_collect, if_pos hblank] at h
    cases h
    rw [List.mem_singleton.mp hf]
    exact fun span hspan => by cases hspan

/-! ## Segments -/

/-- A segment with white space is pointed at in the joined text. -/
theorem within_of_compoundSegments {segments : List String} {fault : Fault}
    (h : fault ∈ compoundSegments 0 segments) : fault.Within (segmentText segments) := by
  rw [compoundSegments_eq, List.mem_flatten] at h
  obtain ⟨found, hfound, hf⟩ := h
  obtain ⟨i, hi⟩ := List.mem_iff_getElem?.mp hfound
  rw [List.getElem?_mapIdx, Option.map_eq_some_iff] at hi
  obtain ⟨segment, hsegment, rfl⟩ := hi
  unfold segmentReport at hf
  split at hf
  · obtain rfl := List.mem_singleton.mp hf
    rintro span ⟨⟩
    exact ⟨leading segments i, segment.toList, leading_append_prefix hsegment, rfl⟩
  · cases hf

/-! ## Aliases -/

/-- Aliases are not part of the text. -/
theorem span?_of_checkAliases {primary? : Option String} {accepted aliases : List String}
    {fault : Fault} (h : fault ∈ (checkAliases primary? accepted aliases).2) :
    fault.span? = none := by
  induction aliases generalizing accepted with
  | nil => cases h
  | cons word rest ih =>
    rw [checkAliases] at h
    split at h
    · split at h
      · rcases List.mem_cons.mp h with rfl | h
        · rfl
        · exact ih h
      · exact ih h
    · rcases List.mem_cons.mp h with rfl | h
      · rfl
      · exact ih h

/-- That an argument has aliases is said of the last token. -/
theorem span?_of_aliasedArgument {tokens : List Token} {fault : Fault}
    (h : fault ∈ aliasedArgument tokens) : ∃ last ∈ tokens, fault.span? = some last.span := by
  unfold aliasedArgument at h
  split at h
  · rename_i last hlast
    split at h
    · obtain rfl := List.mem_singleton.mp h
      exact ⟨last, List.mem_of_getLast? hlast, rfl⟩
    · cases h
  · cases h

/-- The faults of a namespace with aliases point into it. -/
theorem within_of_readAliased {text : String} {aliases : List String} {faults : List Fault}
    (h : readAliased text aliases = .error faults) {fault : Fault} (hf : fault ∈ faults) :
    fault.Within text := by
  rcases (readAliased_eq_error h).2 fault hf with
    ⟨read, hread, hf⟩ | ⟨primary?, hf⟩ | ⟨tokens, hread, hf⟩
  · exact within_of_tokenize_error hread hf
  · simp [Fault.Within, span?_of_checkAliases hf]
  · obtain ⟨last, hlast, hspan⟩ := span?_of_aliasedArgument hf
    simpa [Fault.Within, hspan] using within_of_tokenize hread hlast

end Namespace

end CommandTree
