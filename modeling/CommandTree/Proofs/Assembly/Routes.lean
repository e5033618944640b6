import CommandTree.Assembly.Route
import CommandTree.Proofs.Namespace.Words

/-!
# Routes that are read

`Directive.Reads` says what `readRoute` gives for each directive: the tokens of a namespace, with
the aliases of a literal or the type of an argument at its last token. So a route is *valid*: it
has a token, its tokens and their aliases are names, aliases stand on literals only, and what is
said of an argument is said of one. A route that cannot be read gives the faults that
`Directive.Faulty` says, and there are some. What is remembered was read without a fault.
-/

namespace CommandTree

open Namespace (Fault IsName Memo Token aliasLast joinSegments readAliased segmentText tokenize)

/-- The directive names the route. -/
inductive Directive.Reads : Directive → Route → Prop
  | command {path : String} {tokens : List Token} (h : tokenize path = .ok tokens) :
      Reads (.command path) { text := path, tokens }
  | bind {path : String} {tokens : List Token} (h : tokenize path = .ok tokens) :
      Reads (.bind path) { text := path, tokens }
  | literal {segments aliases : List String} {text : String} {tokens : List Token}
      (hjoin : joinSegments segments = .ok text) (h : tokenize text = .ok tokens)
      (hlast : ∀ last ∈ tokens.getLast?, last.identity.kind = .literal)
      (haliases : ∀ word ∈ aliases, IsName word) :
      Reads (.literal segments aliases) { text, tokens := aliasLast aliases tokens }
  | argument {segments : List String} {type : String} {suggestions : Option String}
      {text : String} {tokens : List Token} (hjoin : joinSegments segments = .ok text)
      (h : tokenize text = .ok tokens) :
      Reads (.argument segments type suggestions)
        { text, tokens := Route.nameArgument tokens, info := some ⟨some type, suggestions⟩ }

namespace Route

/-- The tokens of the route fit what it says of them. -/
structure Valid (route : Route) : Prop where
  tokens_ne : route.tokens ≠ []
  names : ∀ token ∈ route.tokens, IsName token.identity.name ∧ ∀ word ∈ token.aliases, IsName word
  aliased : ∀ token ∈ route.tokens, token.aliases ≠ [] → token.identity.kind = .literal
  named : ∀ info ∈ route.info, ∀ last ∈ route.tokens.getLast?, last.identity.kind = .argument

theorem nameArgument_cons_cons (first second : Token) (rest : List Token) :
    nameArgument (first :: second :: rest) = first :: nameArgument (second :: rest) :=
  rfl

theorem nameArgument_eq_nil {tokens : List Token} : nameArgument tokens = [] ↔ tokens = [] := by
  match tokens with
  | [] => simp [nameArgument]
  | [_] => simp [nameArgument]
  | _ :: _ :: _ => simp [nameArgument]

/-- Naming an argument keeps the names and the aliases. -/
theorem mem_nameArgument {token : Token} : ∀ {tokens : List Token}, token ∈ nameArgument tokens →
    ∃ read ∈ tokens, token.identity.name = read.identity.name ∧ token.aliases = read.aliases
  | [], h => by simp [nameArgument] at h
  | [last], h => by
    obtain rfl := by simpa [nameArgument] using h
    exact ⟨last, List.mem_cons_self, rfl, rfl⟩
  | first :: second :: rest, h => by
    rw [nameArgument_cons_cons] at h
    rcases List.mem_cons.mp h with rfl | h
    · exact ⟨token, List.mem_cons_self, rfl, rfl⟩
    · obtain ⟨read, hread, heq⟩ := mem_nameArgument h
      exact ⟨read, List.mem_cons_of_mem _ hread, heq⟩

/-- The last token of a route to an argument is an argument. -/
theorem kind_of_getLast?_nameArgument : ∀ {tokens : List Token} {last : Token},
    (nameArgument tokens).getLast? = some last → last.identity.kind = .argument
  | [], _, h => by simp [nameArgument] at h
  | [_], _, h => by
    obtain rfl := by simpa [nameArgument] using h
    rfl
  | first :: second :: rest, last, h => by
    rw [nameArgument_cons_cons, List.getLast?_cons] at h
    cases hlast : (nameArgument (second :: rest)).getLast? with
    | none =>
      rw [List.getLast?_eq_none_iff, nameArgument_eq_nil] at hlast
      cases hlast
    | some last' =>
      rw [hlast] at h
      obtain rfl := by simpa using h
      exact kind_of_getLast?_nameArgument hlast

/-- A plain namespace is a valid route. -/
theorem valid_of_tokenize {text : String} {tokens : List Token}
    (h : tokenize text = .ok tokens) : Valid { text, tokens } where
  tokens_ne := Namespace.ne_nil_of_tokenize h
  names token ht := by
    rw [Namespace.aliases_of_tokenize h ht]
    exact ⟨Namespace.isName_of_tokenize h ht, by simp⟩
  aliased token ht hne := absurd (Namespace.aliases_of_tokenize h ht) hne
  named := by simp

/-- The last of the tokens may be given aliases if it is a literal. -/
theorem valid_aliasLast {text : String} {tokens : List Token} {aliases : List String}
    (h : tokenize text = .ok tokens)
    (hlast : ∀ last ∈ tokens.getLast?, last.identity.kind = .literal)
    (haliases : ∀ word ∈ aliases, IsName word) :
    Valid { text, tokens := aliasLast aliases tokens } := by
  have hread := valid_of_tokenize h
  have hgiven : ∀ token, (aliasLast aliases tokens).getLast? = some token →
      IsName token.identity.name ∧ token.aliases = aliases ∧ token.identity.kind = .literal := by
    intro token ht
    rw [Namespace.getLast?_aliasLast, Option.map_eq_some_iff] at ht
    obtain ⟨last, hget, rfl⟩ := ht
    exact ⟨(hread.names last (List.mem_of_getLast? hget)).1, rfl, hlast last hget⟩
  refine ⟨?_, fun token ht => ?_, fun token ht hne => ?_, by simp⟩
  · rw [Ne, Namespace.aliasLast_eq_nil]
    exact hread.tokens_ne
  · rcases Namespace.mem_aliasLast ht with ht | ht
    · exact hread.names token ht
    · obtain ⟨hname, heq, -⟩ := hgiven token ht
      rw [heq]
      exact ⟨hname, haliases⟩
  · rcases Namespace.mem_aliasLast ht with ht | ht
    · exact hread.aliased token ht hne
    · exact (hgiven token ht).2.2

/-- The last of the tokens may be made an argument. -/
theorem valid_nameArgument {text : String} {tokens : List Token}
    (h : tokenize text = .ok tokens) (info : ArgumentInfo) :
    Valid { text, tokens := nameArgument tokens, info := some info } := by
  have hread := valid_of_tokenize h
  refine ⟨?_, fun token ht => ?_, fun token ht hne => ?_,
    fun _ _ last hlast => kind_of_getLast?_nameArgument hlast⟩
  · rw [Ne, nameArgument_eq_nil]
    exact hread.tokens_ne
  · obtain ⟨read, hmem, hname, haliases⟩ := mem_nameArgument ht
    rw [hname, haliases]
    exact hread.names read hmem
  · obtain ⟨read, hmem, -, haliases⟩ := mem_nameArgument ht
    rw [haliases, Namespace.aliases_of_tokenize h hmem] at hne
    exact absurd rfl hne

/-- Only a route to a literal is let through, and it is not changed. -/
theorem requireLiteral_eq_ok {site : Element} {route route' : Route}
    (h : requireLiteral site route = .ok route') :
    route' = route ∧ ∀ last ∈ route.tokens.getLast?, last.identity.kind = .literal := by
  unfold requireLiteral at h
  split at h
  · rename_i last hget
    split at h
    · cases h
    · rename_i hkind
      cases h
      refine ⟨rfl, fun last' hlast' => ?_⟩
      obtain rfl := Option.some.inj (hget.symm.trans hlast')
      cases hk : last.identity.kind with
      | literal => rfl
      | argument => exact absurd hk hkind
  · rename_i hget
    cases h
    simp [hget]

end Route

/-- What a directive is read as is a valid route. -/
theorem Directive.Reads.valid {directive : Directive} {route : Route}
    (h : directive.Reads route) : route.Valid := by
  cases h with
  | command h => exact Route.valid_of_tokenize h
  | bind h => exact Route.valid_of_tokenize h
  | literal _ h hlast haliases => exact Route.valid_aliasLast h hlast haliases
  | argument _ h => exact Route.valid_nameArgument h _

variable {site : Element} {directive : Directive} {memo : Memo}

theorem ofLexed_eq_ok {text : String} {lexed : Except (List Namespace.Fault) (List Token)}
    {route : Route} (h : Route.ofLexed site text lexed = .ok route) :
    ∃ tokens, lexed = .ok tokens ∧ route = { text, tokens } := by
  unfold Route.ofLexed at h
  split at h
  · cases h
    exact ⟨_, rfl, rfl⟩
  · cases h

theorem ofSegments_eq_ok {segments : List String} {text : String}
    (h : Route.ofSegments site segments = .ok text) : joinSegments segments = .ok text := by
  unfold Route.ofSegments at h
  split at h
  · rename_i hjoin
    cases h
    exact hjoin
  · cases h

/-- A route that is read is the one that the directive names. -/
theorem readRoute_reads (hm : memo.Sound) {route : Route}
    (h : (readRoute site directive memo).1 = .ok route) : directive.Reads route := by
  cases directive with
  | command path =>
    obtain ⟨tokens, hlex, rfl⟩ := ofLexed_eq_ok h
    exact .command ((hm.fst_lex path).symm.trans hlex)
  | bind path =>
    obtain ⟨tokens, hlex, rfl⟩ := ofLexed_eq_ok h
    exact .bind ((hm.fst_lex path).symm.trans hlex)
  | literal segments aliases =>
    unfold readRoute at h
    dsimp only at h
    split at h
    · cases h
    · rename_i text hsegments
      dsimp only at h
      cases hroute : Route.ofLexed site text (memo.lexAliased text aliases).1 with
      | error ds =>
        rw [hroute] at h
        cases h
      | ok route' =>
        rw [hroute] at h
        obtain ⟨rfl, hlast⟩ := Route.requireLiteral_eq_ok h
        obtain ⟨_, hlex, rfl⟩ := ofLexed_eq_ok hroute
        rw [hm.fst_lexAliased] at hlex
        obtain ⟨tokens, hread, rfl, haliases⟩ := Namespace.readAliased_eq_ok hlex
        refine .literal (ofSegments_eq_ok hsegments) hread (fun last hget => ?_) haliases
        exact hlast { last with aliases } (by
          rw [Namespace.getLast?_aliasLast, hget]
          rfl)
  | argument segments type suggestions =>
    unfold readRoute at h
    dsimp only at h
    split at h
    · cases h
    · rename_i text hsegments
      dsimp only at h
      cases hroute : Route.ofLexed site text (memo.lex text).1 with
      | error ds =>
        rw [hroute] at h
        cases h
      | ok route' =>
        rw [hroute] at h
        obtain ⟨tokens, hlex, rfl⟩ := ofLexed_eq_ok hroute
        cases h
        exact .argument (ofSegments_eq_ok hsegments) ((hm.fst_lex text).symm.trans hlex)

/-- Reading a route remembers at most what was read. -/
theorem snd_readRoute (site : Element) (directive : Directive) (memo : Memo) :
    (readRoute site directive memo).2 = memo ∨
      ∃ text tokens, tokenize text = .ok tokens ∧
        (readRoute site directive memo).2 = memo.remember text tokens := by
  have hlex : ∀ text, (memo.lex text).2 = memo ∨ ∃ text' tokens, tokenize text' = .ok tokens ∧
      (memo.lex text).2 = memo.remember text' tokens := fun text =>
    (memo.snd_lex text).imp_right fun ⟨tokens, h⟩ => ⟨text, tokens, h⟩
  cases directive with
  | command path => exact hlex path
  | bind path => exact hlex path
  | literal segments aliases =>
    unfold readRoute
    dsimp only
    split
    · exact Or.inl rfl
    · dsimp only
      rw [Memo.snd_lexAliased]
      exact hlex _
  | argument segments type suggestions =>
    unfold readRoute
    dsimp only
    split
    · exact Or.inl rfl
    · exact hlex _

/-! ## Errors -/

/-- The diagnostic is an error of this kind, on the element `site`. -/
structure Diagnostic.IsErrorAt (kind : DiagnosticKind) (site : Element) (d : Diagnostic) :
    Prop where
  severity : d.severity = .error
  kind : d.kind = kind
  site : d.site = site

/-- A fault is reported as an error of the namespace. -/
theorem isErrorAt_ofFault (site : Element) (text : String) (fault : Fault) :
    (Diagnostic.ofFault site text fault).IsErrorAt .lex site := by
  unfold Diagnostic.ofFault
  dsimp only
  split <;> exact ⟨rfl, rfl, rfl⟩

/-- The directive names the namespace `text`, which has these faults. -/
inductive Directive.Faulty : Directive → String → List Fault → Prop
  | command {path : String} {faults : List Fault} (h : tokenize path = .error faults) :
      Faulty (.command path) path faults
  | bind {path : String} {faults : List Fault} (h : tokenize path = .error faults) :
      Faulty (.bind path) path faults
  | literalSegments {segments aliases : List String} {faults : List Fault}
      (h : joinSegments segments = .error faults) :
      Faulty (.literal segments aliases) (segmentText segments) faults
  | literal {segments aliases : List String} {text : String} {faults : List Fault}
      (hjoin : joinSegments segments = .ok text) (h : readAliased text aliases = .error faults) :
      Faulty (.literal segments aliases) text faults
  | argumentSegments {segments : List String} {type : String} {suggestions : Option String}
      {faults : List Fault} (h : joinSegments segments = .error faults) :
      Faulty (.argument segments type suggestions) (segmentText segments) faults
  | argument {segments : List String} {type : String} {suggestions : Option String}
      {text : String} {faults : List Fault} (hjoin : joinSegments segments = .ok text)
      (h : tokenize text = .error faults) :
      Faulty (.argument segments type suggestions) text faults

theorem Directive.Faulty.ne_nil {text : String} {faults : List Fault}
    (h : directive.Faulty text faults) : faults ≠ [] := by
  cases h with
  | command h | bind h | argument _ h => exact Namespace.faults_ne_nil_of_tokenize h
  | literalSegments h | argumentSegments h => exact (Namespace.joinSegments_eq_error.mp h).2
  | literal _ h => exact (Namespace.readAliased_eq_error h).1

theorem ofLexed_eq_error {text : String} {lexed : Except (List Fault) (List Token)}
    {ds : List Diagnostic} (h : Route.ofLexed site text lexed = .error ds) :
    ∃ faults, lexed = .error faults ∧ ds = faults.map (.ofFault site text) := by
  unfold Route.ofLexed at h
  split at h
  · cases h
  · cases h
    exact ⟨_, rfl, rfl⟩

/-- Segments that are not joined report their faults. -/
theorem ofSegments_eq_error {segments : List String} {ds : List Diagnostic}
    (h : Route.ofSegments site segments = .error ds) :
    ∃ faults, joinSegments segments = .error faults ∧
      ds = faults.map (.ofFault site (segmentText segments)) := by
  unfold Route.ofSegments at h
  split at h
  · cases h
  · rename_i faults hjoin
    cases h
    exact ⟨faults, hjoin, rfl⟩

/-- The error that a literal ends in an argument points at the last token. -/
theorem requireLiteral_eq_error {route : Route} {ds : List Diagnostic}
    (h : Route.requireLiteral site route = .error ds) :
    ∃ last message, route.tokens.getLast? = some last ∧
      ds = [(Diagnostic.ofError .lex site message).withSnippet route.text last.span] := by
  unfold Route.requireLiteral at h
  split at h
  · rename_i last hlast
    split at h
    · cases h
      exact ⟨last, _, hlast, rfl⟩
    · cases h
  · cases h

/-- A route that cannot be read is reported by the faults of its namespace, or because a literal
ends in an argument. -/
theorem readRoute_eq_error (hm : memo.Sound) {ds : List Diagnostic}
    (h : (readRoute site directive memo).1 = .error ds) :
    (∃ text faults, directive.Faulty text faults ∧ ds = faults.map (.ofFault site text)) ∨
      ∃ text tokens last message, tokenize text = .ok tokens ∧ tokens.getLast? = some last ∧
        ds = [(Diagnostic.ofError .lex site message).withSnippet text last.span] := by
  cases directive with
  | command path =>
    obtain ⟨faults, hlex, rfl⟩ := ofLexed_eq_error h
    exact Or.inl ⟨path, faults, .command ((hm.fst_lex path).symm.trans hlex), rfl⟩
  | bind path =>
    obtain ⟨faults, hlex, rfl⟩ := ofLexed_eq_error h
    exact Or.inl ⟨path, faults, .bind ((hm.fst_lex path).symm.trans hlex), rfl⟩
  | literal segments aliases =>
    unfold readRoute at h
    dsimp only at h
    split at h
    · rename_i hsegments
      cases h
      obtain ⟨faults, hjoin, rfl⟩ := ofSegments_eq_error hsegments
      exact Or.inl ⟨_, faults, .literalSegments hjoin, rfl⟩
    · rename_i text hsegments
      dsimp only at h
      rw [hm.fst_lexAliased] at h
      cases hroute : Route.ofLexed site text (readAliased text aliases) with
      | error ds' =>
        rw [hroute] at h
        cases h
        obtain ⟨faults, hlex, rfl⟩ := ofLexed_eq_error hroute
        exact Or.inl ⟨text, faults, .literal (ofSegments_eq_ok hsegments) hlex, rfl⟩
      | ok route =>
        rw [hroute] at h
        obtain ⟨given, message, hlast, rfl⟩ := requireLiteral_eq_error h
        obtain ⟨_, hlex, rfl⟩ := ofLexed_eq_ok hroute
        obtain ⟨tokens, hread, rfl, -⟩ := Namespace.readAliased_eq_ok hlex
        rw [Namespace.getLast?_aliasLast, Option.map_eq_some_iff] at hlast
        obtain ⟨last, hlast, rfl⟩ := hlast
        exact Or.inr ⟨text, tokens, last, message, hread, hlast, rfl⟩
  | argument segments type suggestions =>
    unfold readRoute at h
    dsimp only at h
    split at h
    · rename_i hsegments
      cases h
      obtain ⟨faults, hjoin, rfl⟩ := ofSegments_eq_error hsegments
      exact Or.inl ⟨_, faults, .argumentSegments hjoin, rfl⟩
    · rename_i text hsegments
      dsimp only at h
      rw [hm.fst_lex] at h
      cases hroute : Route.ofLexed site text (tokenize text) with
      | error ds' =>
        rw [hroute] at h
        cases h
        obtain ⟨faults, hlex, rfl⟩ := ofLexed_eq_error hroute
        exact Or.inl ⟨text, faults, .argument (ofSegments_eq_ok hsegments) hlex, rfl⟩
      | ok route =>
        rw [hroute] at h
        cases h

/-- Reading that fails gives errors of the namespace, at least one. -/
def FailsAt (site : Element) (ds : List Diagnostic) : Prop :=
  ds ≠ [] ∧ ∀ d ∈ ds, d.IsErrorAt .lex site

/-- A route that cannot be read is reported as errors of the namespace. -/
theorem readRoute_failsAt (hm : memo.Sound) {ds : List Diagnostic}
    (h : (readRoute site directive memo).1 = .error ds) : FailsAt site ds := by
  rcases readRoute_eq_error hm h with ⟨text, faults, hfaulty, rfl⟩ | ⟨_, _, _, _, _, _, rfl⟩
  · exact ⟨by simpa using hfaulty.ne_nil,
      List.forall_mem_map.mpr fun fault _ => isErrorAt_ofFault site text fault⟩
  · refine ⟨by simp, fun d hd => ?_⟩
    rw [List.mem_singleton.mp hd]
    exact ⟨rfl, rfl, rfl⟩

end CommandTree
