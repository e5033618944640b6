import CommandTree.Proofs.Namespace.Grammar

/-!
# Namespaces of segments

Segments are joined with a space between any two of them. The segment at index `i` stands behind
those before it, each with its space (`leading`), and so takes the bytes `segmentSpan` of the joined
text (`leading_append_prefix`). Joining fails exactly if a segment has white space in it, and each
such segment is reported with its bytes (`compoundSegments_eq`).

Segments without white space are the words of the joined text (`Layout.ofSegments`). So they can be
read exactly if each of them is a word of the grammar, and then each gives one token, which is shown
as the segment and spans its bytes (`joinSegments_tokenize`).
-/

namespace CommandTree.Namespace

open Text (Span byteLength isSpace)

/-! ## Where a segment stands -/

/-- Segments with the space behind each of them. -/
def spaced (segments : List String) : List (List Char × Char) :=
  segments.map fun segment => (segment.toList, ' ')

@[simp] theorem spaced_nil : spaced [] = [] := rfl

@[simp] theorem spaced_cons (segment : String) (rest : List String) :
    spaced (segment :: rest) = (segment.toList, ' ') :: spaced rest := rfl

theorem map_fst_spaced (segments : List String) :
    (spaced segments).map (·.1) = segments.map String.toList := by
  simp [spaced]

/-- The text in front of the segment at index `i`. -/
def leading (segments : List String) (i : Nat) : List Char :=
  spread (spaced (segments.take i))

/-- The bytes that the segment at index `i` takes in the joined text. -/
def segmentSpan (segments : List String) (i : Nat) (segment : String) : Span :=
  ⟨byteLength (leading segments i), byteLength (leading segments i) + byteLength segment.toList⟩

/-- One more segment adds its bytes and that of the space. -/
theorem byteLength_spread_concat (segments : List String) (segment : String) :
    byteLength (spread (spaced (segments ++ [segment]))) =
      byteLength (spread (spaced segments)) + byteLength segment.toList + 1 := by
  have hspace : ' '.utf8Size = 1 := rfl
  simp [spread, spaced, hspace, Nat.add_assoc]

/-- All segments but the last have a space behind them. -/
theorem toList_segmentText_concat (front : List String) (final : String) :
    (segmentText (front ++ [final])).toList = spread (spaced front) ++ final.toList := by
  induction front with
  | nil => simp [segmentText]
  | cons segment front ih =>
    obtain ⟨second, rest, hrest⟩ := List.exists_cons_of_ne_nil (l := front ++ [final]) (by simp)
    rw [hrest] at ih
    rw [List.cons_append, hrest, spaced_cons, spread_cons, List.append_assoc, List.cons_append,
      ← ih]
    simp [segmentText]

theorem le_length_of_getElem?_concat {front : List String} {final segment : String} {i : Nat}
    (h : (front ++ [final])[i]? = some segment) : i ≤ front.length := by
  obtain ⟨hi, -⟩ := List.getElem?_eq_some_iff.mp h
  rw [List.length_append, List.length_singleton] at hi
  omega

/-- What comes before a segment is the segments in front of it, each with its space. -/
theorem leading_concat {front : List String} {i : Nat} (h : i ≤ front.length) (final : String) :
    leading (front ++ [final]) i = spread ((spaced front).take i) := by
  rw [leading, List.take_append_of_le_length h, spaced, spaced, List.map_take]

/-- A segment stands right behind the text in front of it. -/
theorem leading_append_prefix {segments : List String} {i : Nat} {segment : String}
    (h : segments[i]? = some segment) :
    leading segments i ++ segment.toList <+: (segmentText segments).toList := by
  rcases List.eq_nil_or_concat' segments with rfl | ⟨front, final, rfl⟩
  · simp at h
  · rw [leading_concat (le_length_of_getElem?_concat h), toList_segmentText_concat]
    refine spread_take_append_prefix _ ?_
    have hword := congrArg (Option.map String.toList) h
    rw [← List.getElem?_map, List.map_append] at hword
    simpa [map_fst_spaced] using hword

/-! ## Segments with white space -/

/-- What there is to report of the segment at index `i`. -/
def segmentReport (segments : List String) (i : Nat) (segment : String) : List Fault :=
  if segment.toList.any isSpace then
    [.compoundSegment segment (segmentSpan segments i segment)]
  else
    []

/-- Each segment with white space is reported with its bytes. -/
theorem compoundSegments_eq (segments : List String) :
    compoundSegments 0 segments = (segments.mapIdx (segmentReport segments)).flatten := by
  have hrest : ∀ rest passed : List String,
      compoundSegments (byteLength (spread (spaced passed))) rest =
        (rest.mapIdx fun i => segmentReport (passed ++ rest) (passed.length + i)).flatten := by
    intro rest
    induction rest with
    | nil => exact fun passed => rfl
    | cons segment rest ih =>
      intro passed
      have hspan : segmentSpan (passed ++ segment :: rest) (passed.length + 0) segment =
          ⟨byteLength (spread (spaced passed)),
            byteLength (spread (spaced passed)) + byteLength segment.toList⟩ := by
        simp [segmentSpan, leading]
      have htail := ih (passed ++ [segment])
      rw [byteLength_spread_concat] at htail
      rw [compoundSegments, List.mapIdx_cons, List.flatten_cons, segmentReport, hspan, htail]
      simp only [List.length_append, List.length_singleton, List.append_assoc,
        List.singleton_append, Nat.add_assoc, Nat.add_comm 1]
      split <;> rfl
  simpa using hrest segments []

/-! ## Reading segments -/

/-- Segments without white space as the words of a text. -/
def Layout.ofSegments (front : List String) (final : String)
    (h : ∀ segment ∈ front ++ [final], ∀ c ∈ segment.toList, isSpace c = false) : Layout where
  init := spaced front
  last := final.toList
  init_spec := by
    intro p hp
    obtain ⟨segment, hsegment, rfl⟩ := List.mem_map.mp hp
    exact ⟨h segment (List.mem_append_left _ hsegment), rfl⟩
  last_spec := h final (by simp)

namespace Layout

variable {front : List String} {final : String}
  (h : ∀ segment ∈ front ++ [final], ∀ c ∈ segment.toList, isSpace c = false)

theorem text_ofSegments : (ofSegments front final h).text = segmentText (front ++ [final]) := by
  rw [← String.toList_inj, toList_of_text rfl, toList_segmentText_concat]
  rfl

theorem words_ofSegments :
    (ofSegments front final h).words = (front ++ [final]).map String.toList := by
  rw [words, List.map_append]
  exact congrArg (· ++ [final.toList]) (map_fst_spaced front)

theorem before_ofSegments {i : Nat} (hi : i ≤ front.length) :
    (ofSegments front final h).before i = leading (front ++ [final]) i :=
  (leading_concat hi final).symm

end Layout

theorem Word.Names.isSpace {word : List Char} {identity : Identity} (h : Names word identity) :
    ∀ c ∈ word, isSpace c = false := by
  obtain ⟨hname, rfl⟩ := h.display
  exact isSpace_of_mem_display hname

/-- The text of no segments is blank. -/
theorem ne_nil_of_tokenize_segmentText {segments : List String} {tokens : List Token}
    (h : tokenize (segmentText segments) = .ok tokens) : segments ≠ [] := by
  rintro rfl
  simp [segmentText, tokenize_eq_collect] at h

/-- Segments without white space can be read if each of them is a word of the grammar. -/
theorem exists_tokenize_segmentText {segments : List String} (hne : segments ≠ [])
    (hspace : ∀ segment ∈ segments, ∀ c ∈ segment.toList, isSpace c = false) :
    (∃ tokens, tokenize (segmentText segments) = .ok tokens) ↔
      ∀ segment ∈ segments, ∃ identity, Word.Names segment.toList identity := by
  obtain ⟨front, final, rfl⟩ := (List.eq_nil_or_concat' segments).resolve_left hne
  rw [Layout.exists_tokenize_iff (Layout.text_ofSegments hspace), Layout.words_ofSegments,
    List.forall_mem_map]

/-- Each segment of a namespace that is read has its token. -/
theorem token_of_segment {segments : List String} {tokens : List Token}
    (hspace : ∀ segment ∈ segments, ∀ c ∈ segment.toList, isSpace c = false)
    (hread : tokenize (segmentText segments) = .ok tokens) :
    tokens.length = segments.length ∧
      ∀ i segment token, segments[i]? = some segment → tokens[i]? = some token →
        token.identity.display = segment ∧ token.span = segmentSpan segments i segment := by
  obtain ⟨front, final, rfl⟩ :=
    (List.eq_nil_or_concat' segments).resolve_left (ne_nil_of_tokenize_segmentText hread)
  have htext := Layout.text_ofSegments hspace
  have hwords := Layout.words_ofSegments hspace
  refine ⟨?_, fun i segment token hsegment htoken => ?_⟩
  · rw [Layout.length_tokens htext hread, hwords, List.length_map]
  · have hword : (Layout.ofSegments front final hspace).words[i]? = some segment.toList := by
      rw [hwords, List.getElem?_map, hsegment]
      rfl
    have hi : i ≤ front.length := le_length_of_getElem?_concat hsegment
    obtain ⟨-, hdisplay, -, hspan, -⟩ := Layout.tokenAt htext hread hword htoken
    rw [Layout.before_ofSegments hspace hi] at hspan
    exact ⟨by rw [hdisplay, String.ofList_toList], hspan⟩

/-- One segment is one word. Segments can be joined and read exactly if there are some and each of
them is a word of the grammar. Then each segment gives one token, which is shown as the segment and
spans the bytes of the segment in the joined text. If they cannot be joined, the segments with white
space are reported, each with its bytes. -/
theorem joinSegments_tokenize (segments : List String) :
    ((∃ text tokens, joinSegments segments = .ok text ∧ tokenize text = .ok tokens) ↔
        segments ≠ [] ∧ ∀ segment ∈ segments, ∃ identity, Word.Names segment.toList identity) ∧
      (∀ text tokens, joinSegments segments = .ok text → tokenize text = .ok tokens →
        text = segmentText segments ∧ tokens.length = segments.length ∧
          ∀ i segment token, segments[i]? = some segment → tokens[i]? = some token →
            token.identity.display = segment ∧ token.span = segmentSpan segments i segment) ∧
      (∀ faults, joinSegments segments = .error faults ↔
        faults = (segments.mapIdx (segmentReport segments)).flatten ∧ faults ≠ []) ∧
      ∀ i segment, segments[i]? = some segment →
        leading segments i ++ segment.toList <+: (segmentText segments).toList := by
  refine ⟨⟨?_, ?_⟩, fun text tokens hjoin hread => ?_, fun faults => ?_,
    fun i segment hsegment => ?_⟩
  · rintro ⟨text, tokens, hjoin, hread⟩
    obtain ⟨rfl, hspace⟩ := joinSegments_eq_ok.mp hjoin
    have hne := ne_nil_of_tokenize_segmentText hread
    exact ⟨hne, (exists_tokenize_segmentText hne hspace).mp ⟨tokens, hread⟩⟩
  · rintro ⟨hne, hnames⟩
    have hspace : ∀ segment ∈ segments, ∀ c ∈ segment.toList, isSpace c = false := by
      intro segment hsegment
      obtain ⟨identity, hidentity⟩ := hnames segment hsegment
      exact hidentity.isSpace
    obtain ⟨tokens, hread⟩ := (exists_tokenize_segmentText hne hspace).mpr hnames
    exact ⟨_, tokens, joinSegments_eq_ok.mpr ⟨rfl, hspace⟩, hread⟩
  · obtain ⟨rfl, hspace⟩ := joinSegments_eq_ok.mp hjoin
    exact ⟨rfl, token_of_segment hspace hread⟩
  · rw [joinSegments_eq_error, compoundSegments_eq]
  · exact leading_append_prefix hsegment

/-- Two segments are read as two words, the second behind the eight bytes of the first and the
space. Of three segments the two with white space are reported. -/
theorem wideSegments_joinSegments_tokenize :
    (∃ text tokens, joinSegments ["größe", "<n>"] = .ok text ∧ tokenize text = .ok tokens) ∧
      segmentSpan ["größe", "<n>"] 1 "<n>" = ⟨8, 11⟩ ∧
      joinSegments ["größe", "a b", "c\u2003"] = .error
        [.compoundSegment "a b" ⟨8, 11⟩, .compoundSegment "c\u2003" ⟨12, 16⟩] := by
  have hliteral : IsName "größe" := by decide +kernel
  have hargument : IsName "n" := by decide +kernel
  have hspan : segmentSpan ["größe", "<n>"] 1 "<n>" = ⟨8, 11⟩ := by decide +kernel
  have hnames : ∀ segment ∈ ["größe", "<n>"], ∃ identity, Word.Names segment.toList identity := by
    rintro segment (_ | ⟨_, _ | ⟨_, ⟨⟩⟩⟩)
    · exact ⟨_, .literal hliteral⟩
    · exact ⟨_, .argument hargument⟩
  have hreports : [.compoundSegment "a b" ⟨8, 11⟩, .compoundSegment "c\u2003" ⟨12, 16⟩] =
      (["größe", "a b", "c\u2003"].mapIdx
        (segmentReport ["größe", "a b", "c\u2003"])).flatten := by decide +kernel
  refine ⟨(joinSegments_tokenize _).1.mpr ⟨by simp, hnames⟩, hspan, ?_⟩
  exact ((joinSegments_tokenize _).2.2.1 _).mpr ⟨hreports, by simp⟩

end CommandTree.Namespace
