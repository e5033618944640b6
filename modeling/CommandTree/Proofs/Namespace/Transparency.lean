import CommandTree.Proofs.Namespace.Memo
import Mathlib.Data.List.Dedup

/-!
# A memory that does not show

A reader answers queries one after the other from one memory (`Memo.run`), with aliases and
without. The memory *records* a list of texts (`Records`) if it has exactly one entry for each of
them that can be read, with the tokens that reading gives, and no other entry.

An empty memory records no text, and each query adds its own text to those that are recorded
(`Records.answer`), whether or not there is something wrong with its aliases. So each answer is the
one that a new reader gives, and what is remembered depends on the texts alone (`run_transparent`).
-/

namespace CommandTree.Namespace

/-! ## Queries -/

/-- What a reader is asked to read: a namespace, or a namespace with aliases. -/
inductive Query
  | plain (text : String)
  | aliased (text : String) (aliases : List String)

namespace Query

/-- The namespace of a query. -/
def text : Query → String
  | plain text => text
  | aliased text _ => text

/-- What reading gives, whatever is remembered. -/
def reading : Query → Except (List Fault) (List Token)
  | plain text => tokenize text
  | aliased text aliases => readAliased text aliases

end Query

namespace Memo

/-- Answers a query. -/
def answer (m : Memo) : Query → Except (List Fault) (List Token) × Memo
  | .plain text => m.lex text
  | .aliased text aliases => m.lexAliased text aliases

/-- Answers queries one after the other, each from what is remembered after those before it. -/
def run (m : Memo) : List Query → List (Except (List Fault) (List Token)) × Memo
  | [] => ([], m)
  | query :: rest =>
    let (first, m) := m.answer query
    let (others, m) := m.run rest
    (first :: others, m)

theorem fst_run_cons (m : Memo) (query : Query) (rest : List Query) :
    (m.run (query :: rest)).1 = (m.answer query).1 :: ((m.answer query).2.run rest).1 :=
  rfl

theorem snd_run_cons (m : Memo) (query : Query) (rest : List Query) :
    (m.run (query :: rest)).2 = ((m.answer query).2.run rest).2 :=
  rfl

/-- Aliases are not remembered. -/
theorem snd_answer (m : Memo) (query : Query) : (m.answer query).2 = (m.lex query.text).2 := by
  cases query with
  | plain text => rfl
  | aliased text aliases => exact m.snd_lexAliased text aliases

/-- A sound memo gives the answers of reading. -/
theorem Sound.fst_answer {m : Memo} (hm : m.Sound) (query : Query) :
    (m.answer query).1 = query.reading := by
  cases query with
  | plain text => exact hm.fst_lex text
  | aliased text aliases => exact hm.fst_lexAliased text aliases

/-! ## What is remembered -/

/-- The memory has one entry for each of the texts that can be read, and no other entry. -/
structure Records (m : Memo) (texts : List String) : Prop where
  mem_entries : ∀ {text tokens},
    (text, tokens) ∈ m.entries ↔ text ∈ texts ∧ tokenize text = .ok tokens
  nodup : (m.entries.map (·.1)).Nodup

theorem records_empty : empty.Records [] := by
  constructor <;> simp [empty]

namespace Records

variable {m : Memo} {texts : List String} (h : m.Records texts)

include h

theorem sound : m.Sound :=
  fun _ he => (h.mem_entries.mp he).2

/-- A memory that stays as it is records one more text, if the text is recorded already or cannot
be read. -/
theorem unchanged {text : String} (hknown : ∀ tokens, tokenize text = .ok tokens → text ∈ texts) :
    m.Records (texts ++ [text]) := by
  refine ⟨fun {text' tokens} => ?_, h.nodup⟩
  rw [h.mem_entries, List.mem_append, List.mem_singleton]
  refine ⟨fun ⟨hmem, hread⟩ => ⟨Or.inl hmem, hread⟩, ?_⟩
  rintro ⟨hmem | rfl, hread⟩
  · exact ⟨hmem, hread⟩
  · exact ⟨hknown tokens hread, hread⟩

/-- Remembering a new text records it. -/
theorem remember {text : String} {tokens : List Token} (hnew : text ∉ texts)
    (hread : tokenize text = .ok tokens) :
    (m.remember text tokens).Records (texts ++ [text]) := by
  constructor
  · intro text' tokens'
    rw [Memo.remember, List.mem_cons, Prod.mk.injEq, h.mem_entries, List.mem_append,
      List.mem_singleton]
    constructor
    · rintro (⟨rfl, rfl⟩ | ⟨hmem, hread'⟩)
      · exact ⟨Or.inr rfl, hread⟩
      · exact ⟨Or.inl hmem, hread'⟩
    · rintro ⟨hmem | rfl, hread'⟩
      · exact Or.inr ⟨hmem, hread'⟩
      · exact Or.inl ⟨rfl, Except.ok.inj (hread'.symm.trans hread)⟩
  · refine List.nodup_cons.mpr ⟨fun hmem => ?_, h.nodup⟩
    obtain ⟨e, he, rfl⟩ := List.mem_map.mp hmem
    exact hnew (h.mem_entries.mp he).1

/-- Reading a text records it. -/
theorem lex (text : String) : (m.lex text).2.Records (texts ++ [text]) := by
  unfold Memo.lex
  split
  · rename_i tokens hlookup
    obtain ⟨l₁, l₂, heq, -⟩ := List.lookup_eq_some_iff.mp hlookup
    have hentry : (text, tokens) ∈ m.entries := by simp [heq]
    exact h.unchanged fun _ _ => (h.mem_entries.mp hentry).1
  · rename_i hnone
    split
    · rename_i tokens hread
      refine h.remember (fun hmem => ?_) hread
      have hentry := h.mem_entries.mpr ⟨hmem, hread⟩
      simpa using List.lookup_eq_none_iff.mp hnone _ hentry
    · rename_i faults hread
      exact h.unchanged fun tokens hok => by simp [hread] at hok

/-- Answering a query records its text. -/
theorem answer (query : Query) : (m.answer query).2.Records (texts ++ [query.text]) := by
  rw [snd_answer]
  exact h.lex query.text

/-- Answering queries records their texts, and each answer is what reading gives. -/
theorem run (queries : List Query) :
    (m.run queries).1 = queries.map Query.reading ∧
      (m.run queries).2.Records (texts ++ queries.map Query.text) := by
  induction queries generalizing m texts with
  | nil => exact ⟨rfl, by simpa [Memo.run] using h⟩
  | cons query rest ih =>
    obtain ⟨hanswers, hrecords⟩ := ih (h.answer query)
    rw [fst_run_cons, snd_run_cons, h.sound.fst_answer, hanswers]
    exact ⟨rfl, by simpa using hrecords⟩

/-- The recorded texts that can be read are remembered once each. -/
theorem perm_texts : (m.entries.map (·.1)).Perm
    (texts.filter fun text => (tokenize text).isOk).dedup := by
  rw [List.perm_ext_iff_of_nodup h.nodup (List.nodup_dedup _)]
  intro text
  rw [List.mem_dedup, List.mem_filter]
  constructor
  · intro hmem
    obtain ⟨e, he, rfl⟩ := List.mem_map.mp hmem
    obtain ⟨hmem, hread⟩ := h.mem_entries.mp he
    exact ⟨hmem, by rw [hread]; rfl⟩
  · rintro ⟨hmem, hok⟩
    cases hread : tokenize text with
    | error faults =>
      rw [hread] at hok
      cases hok
    | ok tokens => exact List.mem_map_of_mem (h.mem_entries.mpr ⟨hmem, hread⟩)

end Records

/-- The answers of a reader are those of new readers, one for each query, and what reading gives if
there are no aliases. Afterwards each text that was asked for and can be read is remembered once,
with its tokens and without aliases, and no other text is remembered. -/
theorem run_transparent (queries : List Query) :
    (empty.run queries).1 = queries.map (fun query => (empty.answer query).1) ∧
      (∀ text, (empty.answer (.plain text)).1 = tokenize text) ∧
      ((empty.run queries).2.entries.map (·.1)).Perm
        ((queries.map Query.text).filter fun text => (tokenize text).isOk).dedup ∧
      ∀ entry ∈ (empty.run queries).2.entries,
        tokenize entry.1 = .ok entry.2 ∧ ∀ token ∈ entry.2, token.aliases = [] := by
  have hnew : ∀ query, (empty.answer query).1 = query.reading := sound_empty.fst_answer
  obtain ⟨hanswers, hrecords⟩ := records_empty.run queries
  refine ⟨?_, fun text => hnew (.plain text), hrecords.perm_texts, fun entry he => ?_⟩
  · rw [hanswers]
    exact List.map_congr_left fun query _ => (hnew query).symm
  · have hread := hrecords.sound entry he
    exact ⟨hread, fun token ht => aliases_of_tokenize hread ht⟩

end Memo

end CommandTree.Namespace
