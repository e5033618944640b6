import CommandTree.Proofs.Namespace.Transparency
import CommandTree.Proofs.Namespace.Words

/-!
# The aliases of a namespace

Aliases are checked one by one, and each of them is reported in at most one way (`aliasReport`): it
is no name, or it repeats the name of the last token or an earlier alias. Checking goes through the
aliases with those that were accepted so far, and finds the same as looking back at all earlier ones
(`snd_checkAliases`). There is nothing to report exactly if the aliases are names, differ from each
other and differ from the name (`aliasReports_eq_nil`).

So reading with aliases gives them to the last token, or all that is wrong: the faults of the
namespace, then those of the aliases, and then that the last token is an argument
(`lexAliased_validates`).
-/

namespace CommandTree.Namespace

/-- A word can be an alias exactly if it is a name. -/
theorem isAliasWord_iff {word : String} : isAliasWord word = true ↔ IsName word := by
  refine ⟨isName_of_isAliasWord, fun ⟨hne, hplain⟩ => ?_⟩
  have hread : Word.read word.toList = .ok (.literal word) :=
    Word.read_eq_ok_iff.mpr (Or.inl ⟨by simp, fun c hc => (hplain c hc).2⟩)
  have hspace : word.toList.any Text.isSpace = false :=
    List.any_eq_false.mpr fun c hc => by simp [(hplain c hc).1]
  simp [isAliasWord, hne, hspace, hread, Identity.literal]

/-! ## What there is to report -/

/-- What there is to report of an alias of `primary?`, which stands behind the aliases `earlier`. An
earlier alias that is the same is a name too. -/
def aliasReport (primary? : Option String) (earlier : List String) (word : String) : List Fault :=
  if IsName word then
    if primary? = some word ∨ word ∈ earlier then [.duplicateAlias word (primary?.getD "")] else []
  else
    [.invalidAlias word]

/-- What there is to report of the aliases of `primary?`, in order. -/
def aliasReports (primary? : Option String) (aliases : List String) : List Fault :=
  (aliases.mapIdx fun i word => aliasReport primary? (aliases.take i) word).flatten

/-- What there is to report of a last token that is given aliases. -/
def lastReport (last : Token) : List Fault :=
  if last.identity.kind = .argument then [.aliasedArgument last.identity.display last.span] else []

/-- The token can be given the aliases. -/
structure Aliasable (last : Token) (aliases : List String) : Prop where
  literal : last.identity.kind = .literal
  names : ∀ word ∈ aliases, IsName word
  nodup : aliases.Nodup
  primary : last.identity.name ∉ aliases

/-- An alias is not reported if it is a name, and neither the primary name nor one that came before.
-/
theorem aliasReport_eq_nil {primary? : Option String} {earlier : List String} {word : String} :
    aliasReport primary? earlier word = [] ↔
      IsName word ∧ primary? ≠ some word ∧ word ∉ earlier := by
  unfold aliasReport
  by_cases hname : IsName word
  · by_cases hdup : primary? = some word ∨ word ∈ earlier
    · simpa [hname, hdup] using hdup.resolve_left
    · simpa [hname, hdup] using not_or.mp hdup
  · simp [hname]

theorem mapIdx_aliasReport_cons (primary? : Option String) (earlier : List String) (word : String)
    (rest : List String) :
    ((word :: rest).mapIdx fun i other =>
        aliasReport primary? (earlier ++ (word :: rest).take i) other).flatten =
      aliasReport primary? earlier word ++
        (rest.mapIdx fun i other =>
          aliasReport primary? (earlier ++ [word] ++ rest.take i) other).flatten := by
  simp [List.mapIdx_cons]

/-- Looking back at all earlier aliases, those of one list differ and are new if there is nothing to
report of them. -/
theorem mapIdx_aliasReport_eq_nil {primary? : Option String} {earlier aliases : List String} :
    (aliases.mapIdx fun i word =>
        aliasReport primary? (earlier ++ aliases.take i) word).flatten = [] ↔
      (∀ word ∈ aliases, IsName word ∧ primary? ≠ some word ∧ word ∉ earlier) ∧
        aliases.Nodup := by
  induction aliases generalizing earlier with
  | nil => simp
  | cons word rest ih =>
    rw [mapIdx_aliasReport_cons, List.append_eq_nil_iff, aliasReport_eq_nil, ih,
      List.forall_mem_cons, List.nodup_cons]
    constructor
    · rintro ⟨hword, hrest, hnodup⟩
      refine ⟨⟨hword, fun other hother => ?_⟩, fun hmem => ?_, hnodup⟩
      · obtain ⟨hname, hprimary, hnew⟩ := hrest other hother
        exact ⟨hname, hprimary, fun h => hnew (List.mem_append_left _ h)⟩
      · exact (hrest word hmem).2.2 (by simp)
    · rintro ⟨⟨hword, hrest⟩, hnot, hnodup⟩
      refine ⟨hword, fun other hother => ?_, hnodup⟩
      obtain ⟨hname, hprimary, hnew⟩ := hrest other hother
      refine ⟨hname, hprimary, fun h => ?_⟩
      rcases List.mem_append.mp h with h | h
      · exact hnew h
      · exact hnot (List.mem_singleton.mp h ▸ hother)

/-- There is nothing to report of names that differ from each other and from the name that they
stand for. -/
theorem aliasReports_eq_nil {name : String} {aliases : List String} :
    aliasReports (some name) aliases = [] ↔
      (∀ word ∈ aliases, IsName word) ∧ aliases.Nodup ∧ name ∉ aliases := by
  have h := @mapIdx_aliasReport_eq_nil (some name) [] aliases
  simp only [List.nil_append] at h
  rw [aliasReports, h]
  constructor
  · rintro ⟨hall, hnodup⟩
    exact ⟨fun word hword => (hall word hword).1, hnodup, fun hmem => (hall name hmem).2.1 rfl⟩
  · rintro ⟨hnames, hnodup, hname⟩
    refine ⟨fun word hword => ⟨hnames word hword, ?_, by simp⟩, hnodup⟩
    rintro ⟨⟩
    exact hname hword

theorem lastReport_eq_nil {last : Token} :
    lastReport last = [] ↔ last.identity.kind = .literal := by
  unfold lastReport
  cases last.identity.kind <;> simp

/-- Nothing is reported exactly if the last token can have the aliases. -/
theorem reports_eq_nil_iff {last : Token} {aliases : List String} :
    aliasReports (some last.identity.name) aliases ++ lastReport last = [] ↔
      Aliasable last aliases := by
  rw [List.append_eq_nil_iff, aliasReports_eq_nil, lastReport_eq_nil]
  exact ⟨fun ⟨⟨hnames, hnodup, hname⟩, hkind⟩ => ⟨hkind, hnames, hnodup, hname⟩,
    fun h => ⟨⟨h.names, h.nodup, h.primary⟩, h.literal⟩⟩

/-! ## Checking aliases -/

/-- Checking reports each alias by those before it, if the accepted ones tell which names were
there. -/
theorem snd_checkAliases_of_accepted {primary? : Option String}
    {accepted earlier aliases : List String}
    (h : ∀ word, IsName word → primary? ≠ some word → (word ∈ accepted ↔ word ∈ earlier)) :
    (checkAliases primary? accepted aliases).2 =
      (aliases.mapIdx fun i word =>
        aliasReport primary? (earlier ++ aliases.take i) word).flatten := by
  induction aliases generalizing accepted earlier with
  | nil => rfl
  | cons word rest ih =>
    rw [mapIdx_aliasReport_cons, checkAliases]
    by_cases hname : IsName word
    · have hmem : (primary? = some word ∨ word ∈ accepted) ↔
          (primary? = some word ∨ word ∈ earlier) := by
        by_cases hprimary : primary? = some word
        · simp [hprimary]
        · simp [hprimary, h word hname hprimary]
      rw [if_pos (isAliasWord_iff.mpr hname), aliasReport, if_pos hname]
      by_cases hdup : primary? = some word ∨ word ∈ accepted
      · rw [if_pos hdup, if_pos (hmem.mp hdup), List.singleton_append]
        refine congrArg _ (ih fun other hother hne => ?_)
        rw [List.mem_append, List.mem_singleton, ← h other hother hne]
        refine ⟨Or.inl, ?_⟩
        rintro (hin | rfl)
        · exact hin
        · exact hdup.resolve_left hne
      · rw [if_neg hdup, if_neg fun hdup' => hdup (hmem.mpr hdup'), List.nil_append]
        refine ih fun other hother hne => ?_
        simp only [List.mem_append, h other hother hne]
    · have hword : isAliasWord word ≠ true := fun hword => hname (isAliasWord_iff.mp hword)
      rw [if_neg hword, aliasReport, if_neg hname, List.singleton_append]
      refine congrArg _ (ih fun other hother hne => ?_)
      rw [List.mem_append, List.mem_singleton, h other hother hne]
      refine ⟨Or.inl, ?_⟩
      rintro (hin | rfl)
      · exact hin
      · exact absurd hother hname

/-- Checking finds what there is to report. -/
theorem snd_checkAliases (primary? : Option String) (aliases : List String) :
    (checkAliases primary? [] aliases).2 = aliasReports primary? aliases := by
  simpa [aliasReports] using
    @snd_checkAliases_of_accepted primary? [] [] aliases fun _ _ _ => Iff.rfl

/-! ## Giving aliases to the last token -/

theorem aliasLast_concat (aliases : List String) (init : List Token) (last : Token) :
    aliasLast aliases (init ++ [last]) = init ++ [{ last with aliases }] := by
  induction init with
  | nil => rfl
  | cons first init ih =>
    obtain ⟨second, rest, hrest⟩ := List.exists_cons_of_ne_nil (l := init ++ [last]) (by simp)
    rw [List.cons_append, List.cons_append, ← ih, hrest, aliasLast_cons_cons]

theorem aliasedArgument_concat (init : List Token) (last : Token) :
    aliasedArgument (init ++ [last]) = lastReport last := by
  simp [aliasedArgument, lastReport]

/-- The aliases of a namespace with faults are checked too. -/
theorem addAliases_error (aliases : List String) {found : List Fault} (hne : found ≠ []) :
    addAliases aliases (.error found) = .error (found ++ aliasReports none aliases) := by
  unfold addAliases
  dsimp only
  rw [List.getLast?_nil, Option.map_none, snd_checkAliases]
  split
  · rename_i hnil
    simp [hne] at hnil
  · simp [aliasedArgument]

/-- A namespace without faults gets the aliases, or all that is wrong with giving them is
reported. -/
theorem addAliases_ok (aliases : List String) (init : List Token) (last : Token) :
    Aliasable last aliases ∧ addAliases aliases (.ok (init ++ [last])) =
        .ok (init ++ [{ last with aliases }]) ∨
      ¬Aliasable last aliases ∧ addAliases aliases (.ok (init ++ [last])) =
        .error (aliasReports (some last.identity.name) aliases ++ lastReport last) := by
  have hchecked := snd_checkAliases (some last.identity.name) aliases
  rw [← reports_eq_nil_iff, addAliases]
  dsimp only
  rw [List.getLast?_concat, Option.map_some, aliasedArgument_concat, hchecked, List.nil_append]
  split
  · rename_i hnil
    rw [List.append_eq_nil_iff, ← hchecked] at hnil
    rw [(checkAliases_of_no_faults hnil.1).1, List.nil_append, aliasLast_concat]
    exact Or.inl ⟨by rw [← hchecked, hnil.1, hnil.2]; rfl, rfl⟩
  · rename_i hne
    exact Or.inr ⟨hne, rfl⟩

/-- A reader that was asked any queries before gives aliases to a namespace exactly if it can be
read and ends in a literal, and if the aliases are names that differ from each other and from the
name of the literal. Then the last token has the aliases, in their order, and no other token has
any. Otherwise all that is wrong is reported: the faults of the namespace, then what there is to
report of each alias, and then that the last token is an argument. -/
theorem lexAliased_validates (queries : List Query) (text : String) {aliases : List String}
    (hne : aliases ≠ []) :
    ((∃ tokens, ((Memo.empty.run queries).2.lexAliased text aliases).1 = .ok tokens) ↔
        ∃ init last, tokenize text = .ok (init ++ [last]) ∧ Aliasable last aliases) ∧
      (∀ tokens, ((Memo.empty.run queries).2.lexAliased text aliases).1 = .ok tokens →
        ∃ init last, tokenize text = .ok (init ++ [last]) ∧
          tokens = init ++ [{ last with aliases }] ∧ ∀ token ∈ init, token.aliases = []) ∧
      ∀ faults, ((Memo.empty.run queries).2.lexAliased text aliases).1 = .error faults →
        (∃ found, tokenize text = .error found ∧ faults = found ++ aliasReports none aliases) ∨
          ∃ init last, tokenize text = .ok (init ++ [last]) ∧
            faults = aliasReports (some last.identity.name) aliases ++ lastReport last := by
  rw [(Memo.records_empty.run queries).2.sound.fst_lexAliased, readAliased,
    if_neg (by simpa using hne)]
  cases hread : tokenize text with
  | error found =>
    rw [addAliases_error aliases (faults_ne_nil_of_tokenize hread)]
    refine ⟨by simp, by simp, ?_⟩
    rintro _ ⟨⟩
    exact Or.inl ⟨found, rfl, rfl⟩
  | ok read =>
    obtain ⟨init, last, rfl⟩ :=
      (List.eq_nil_or_concat' read).resolve_left (ne_nil_of_tokenize hread)
    have hplain : ∀ token ∈ init, token.aliases = [] := fun token ht =>
      aliases_of_tokenize hread (by simp [ht])
    rcases addAliases_ok aliases init last with ⟨hcan, hok⟩ | ⟨hcannot, herror⟩
    · rw [hok]
      refine ⟨⟨fun _ => ⟨init, last, rfl, hcan⟩, fun _ => ⟨_, rfl⟩⟩, ?_, by simp⟩
      rintro _ ⟨⟩
      exact ⟨init, last, rfl, rfl, hplain⟩
    · rw [herror]
      refine ⟨⟨by simp, ?_⟩, by simp, ?_⟩
      · rintro ⟨init', last', heq, hcan⟩
        have hlast : last = last' := by
          have := congrArg List.getLast? (Except.ok.inj heq)
          simpa using this
        exact absurd (hlast ▸ hcan) hcannot
      · rintro _ ⟨⟩
        exact Or.inr ⟨init, last, rfl, rfl⟩

/-- A reader that was asked for the same namespace with another alias before. -/
def askedBefore : List Query :=
  [.aliased "go home" ["x"], .plain "go <"]

/-- Two good aliases are given. Of four others three are reported: one is no name, one is the name
itself, and one was there before. -/
theorem askedBefore_lexAliased_validates :
    (∃ tokens, ((Memo.empty.run askedBefore).2.lexAliased "go home" ["base", "h"]).1 = .ok tokens) ∧
      ((Memo.empty.run askedBefore).2.lexAliased "go home" ["a b", "home", "h", "h"]).1 =
        .error
          [.invalidAlias "a b", .duplicateAlias "home" "home", .duplicateAlias "h" "home"] := by
  have hread : tokenize "go home" = .ok ([{ identity := .literal "go", span := ⟨0, 2⟩ }] ++
      [{ identity := .literal "home", span := ⟨3, 7⟩ }]) := by decide +kernel
  have hreports : aliasReports (some "home") ["a b", "home", "h", "h"] =
      [.invalidAlias "a b", .duplicateAlias "home" "home", .duplicateAlias "h" "home"] := by
    decide +kernel
  have hnames : ∀ word ∈ ["base", "h"], IsName word := by decide +kernel
  obtain ⟨hgiven, -⟩ := @lexAliased_validates askedBefore "go home" ["base", "h"] (by simp)
  obtain ⟨hrefused, -, hfaults⟩ :=
    @lexAliased_validates askedBefore "go home" ["a b", "home", "h", "h"] (by simp)
  refine ⟨hgiven.mpr ⟨_, _, hread, rfl, hnames, by decide, by decide⟩, ?_⟩
  cases hresult :
      ((Memo.empty.run askedBefore).2.lexAliased "go home" ["a b", "home", "h", "h"]).1 with
  | ok tokens =>
    obtain ⟨_, _, _, hcan⟩ := hrefused.mp ⟨tokens, hresult⟩
    exact absurd hcan.nodup (by decide)
  | error faults =>
    rcases hfaults faults hresult with ⟨_, hfound, -⟩ | ⟨init, last, hok, rfl⟩
    · simp [hread] at hfound
    · obtain ⟨-, hlast⟩ := List.append_inj' (Except.ok.inj (hread.symm.trans hok)) rfl
      obtain rfl := List.singleton_inj.mp hlast
      simpa [lastReport, Identity.literal] using hreports

end CommandTree.Namespace
