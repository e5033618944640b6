import CommandTree.Proofs.Assembly.Agreement
import CommandTree.Proofs.Assembly.Growth

/-!
# Declaring again

What is there already is not added again. A name leads to the node that it led to, merging what is
known of an argument keeps it, an alias that a node has is not made twice, a node does not enter a
scope that has it, and a namespace that was read is read from memory. So a walk over commands that
are as they are declared gives the environment back (`walk_of_arrived`).

Nothing of this is lost while an environment grows. A declaration that was placed without an error
changes nothing when it is placed again, after any further calls (`Reached.declare_again`).
-/

namespace CommandTree

open Namespace (Memo Token)
open Relation (ReflTransGen)

/-! ## What is known of an argument -/

namespace ArgumentInfo

/-- Filling in what is known changes nothing. -/
theorem fill_of_known {conflict : String → String → Conflict} {existing incoming : Option String}
    (h : ∀ {x}, incoming = some x → existing = some x) :
    fill conflict existing incoming = .ok existing := by
  cases incoming with
  | none => cases existing <;> rfl
  | some x =>
    rw [h rfl]
    simp [fill]

/-- Merging what is known keeps it. -/
theorem merge_of_extends {info incoming : ArgumentInfo} (h : incoming.Extends info) :
    info.merge incoming = (info, none) := by
  unfold merge
  rw [fill_of_known h.type, fill_of_known h.suggestions]

theorem extends_default (info : ArgumentInfo) : ({} : ArgumentInfo).Extends info :=
  ⟨by simp, by simp⟩

end ArgumentInfo

/-- A token before the last says no more than that it is an argument. -/
theorem Environment.detailOf_eq_argument {info : Option ArgumentInfo} {token : Token}
    {rest : List Token} {i : ArgumentInfo} (h : detailOf info token rest = .argument i) :
    (rest = [] ∧ info = some i) ∨ (token.identity.kind = .argument ∧ i = {}) := by
  unfold detailOf at h
  split at h
  · cases h
    exact Or.inl ⟨rfl, rfl⟩
  · cases hkind : token.identity.kind with
    | literal =>
      rw [hkind] at h
      cases h
    | argument =>
      rw [hkind] at h
      cases h
      exact Or.inr ⟨rfl, rfl⟩

namespace Tree

theorem modify_eq_self {t : Tree} {id : Nat} {f : Node → Node} (h : f (t.node id) = t.node id) :
    t.modify id f = t := by
  obtain ⟨nodes⟩ := t
  unfold modify
  congr 1
  refine Array.ext (by simp) fun i hi hi' => ?_
  rw [Array.getElem_modify]
  split
  · rename_i heq
    subst heq
    simpa [node, hi'] using h
  · rfl

/-- Merging what is known changes nothing. -/
theorem mergeArgument_of_knows {t : Tree} {id : Nat} {info : ArgumentInfo}
    (hid : (t.node id).aliasOf = none) (h : (t.node id).Knows info) :
    t.mergeArgument id info = (t, none) := by
  obtain ⟨known, hdetail, hinfo⟩ := h
  simp only [mergeArgument, primary_of_aliasOf_eq_none hid, hdetail,
    ArgumentInfo.merge_of_extends hinfo]
  refine Prod.ext (modify_eq_self ?_) rfl
  rw [← hdetail]

/-- An argument knows at least nothing. -/
theorem WellFormed.knows_default {t : Tree} (ht : t.WellFormed) {node : Nat} (hpos : 0 < node)
    (hlt : node < t.size) (hkind : (t.node node).identity.kind = .argument) :
    (t.node node).Knows {} := by
  obtain ⟨known, hknown⟩ := (ht.detail hpos hlt).argument_iff.mpr hkind
  exact ⟨known, hknown, known.extends_default⟩

/-- What a token says of an argument is known of the node if what is declared is. -/
theorem WellFormed.knows_detailOf {t : Tree} (ht : t.WellFormed) {info : Option ArgumentInfo}
    {token : Token} {rest : List Token} {node : Nat} (hpos : 0 < node) (hlt : node < t.size)
    (hkind : (t.node node).identity.kind = token.identity.kind)
    (hlast : rest = [] → ∀ i ∈ info, (t.node node).Knows i) {i : ArgumentInfo}
    (h : Environment.detailOf info token rest = .argument i) : (t.node node).Knows i := by
  rcases Environment.detailOf_eq_argument h with ⟨hrest, hinfo⟩ | ⟨htoken, rfl⟩
  · exact hlast hrest i hinfo
  · exact ht.knows_default hpos hlt (hkind.trans htoken)

end Tree

/-! ## Scopes -/

theorem insertLast_of_mem {α : Type} [DecidableEq α] {as : List α} {a : α} (h : a ∈ as) :
    insertLast as a = as :=
  if_pos h

namespace Scope

theorem add_of_mem {s : Scope} {node : Nat} {isCommand : Bool} (h : node ∈ s.nodes)
    (hcommand : isCommand = true → node ∈ s.commands) : s.add node isCommand = s := by
  unfold add
  rw [insertLast_of_mem h]
  cases isCommand with
  | false => rfl
  | true => rw [if_pos rfl, insertLast_of_mem (hcommand rfl)]

/-- Entering a scope again changes nothing. -/
theorem enter_of_mem {site : Element} {node : Nat} {isCommand : Bool} {scopes : List Scope}
    (hnames : (scopes.map (·.name)).Nodup) {s : Scope} (hs : s ∈ scopes)
    (hname : s.name = site.scope) (hadd : s.add node isCommand = s) :
    enter site node isCommand scopes = scopes := by
  induction scopes with
  | nil => cases hs
  | cons first rest ih =>
    rw [enter]
    by_cases hfirst : first.name = site.scope
    · obtain rfl := eq_of_name_eq hnames hs List.mem_cons_self (hname.trans hfirst.symm)
      rw [if_pos hfirst, hadd]
    · have hne : s ≠ first := fun heq => hfirst (heq ▸ hname)
      rw [if_neg hfirst, ih (List.nodup_cons.mp hnames).2 ((List.mem_cons.mp hs).resolve_left hne)]

end Scope

/-! ## Reading again -/

namespace Namespace.Memo

theorem lex_of_lookup {m : Memo} {text : String} {tokens : List Token}
    (h : m.lookup text = some tokens) : m.lex text = (.ok tokens, m) := by
  unfold lex
  rw [h]

/-- A namespace that can be read is remembered. -/
theorem isSome_lookup_lex {m : Memo} {text : String} {tokens : List Token}
    (h : (m.lex text).1 = .ok tokens) : ((m.lex text).2.lookup text).isSome = true := by
  unfold lex at h ⊢
  split at h
  · rename_i hlookup
    simp [hlookup]
  · split at h
    · simp_all [lookup, remember]
    · cases h

end Namespace.Memo

/-- What a directive names does not depend on what is remembered. -/
theorem fst_readRoute_congr {memo memo' : Memo} (hm : memo.Sound) (hm' : memo'.Sound)
    (site : Element) (directive : Directive) :
    (readRoute site directive memo).1 = (readRoute site directive memo').1 := by
  cases directive with
  | command path => simp [readRoute, hm.fst_lex, hm'.fst_lex]
  | bind path => simp [readRoute, hm.fst_lex, hm'.fst_lex]
  | literal segments aliases =>
    unfold readRoute
    dsimp only
    split
    · rfl
    · unfold Memo.lexAliased
      dsimp only
      rw [hm.fst_lex, hm'.fst_lex]
      split <;> rfl
  | argument segments type suggestions =>
    unfold readRoute
    dsimp only
    split
    · rfl
    · dsimp only
      rw [hm.fst_lex, hm'.fst_lex]

/-- The way that a declaration names, if it can be read. -/
def Declaration.route? (d : Declaration) : Option Route :=
  (readRoute d.element d.directive .empty).1.toOption

/-- A declaration is read as what it names. -/
theorem fst_readRoute_eq_ok {memo : Memo} (hm : memo.Sound) {d : Declaration} {route : Route} :
    (readRoute d.element d.directive memo).1 = .ok route ↔ d.route? = some route := by
  unfold Declaration.route?
  rw [fst_readRoute_congr hm Memo.sound_empty]
  cases (readRoute d.element d.directive .empty).1 <;> simp [Except.toOption]

/-- The text of a route can be read. -/
theorem Directive.Reads.exists_tokenize {directive : Directive} {route : Route}
    (h : directive.Reads route) : ∃ tokens, Namespace.tokenize route.text = .ok tokens := by
  cases h with
  | command h => exact ⟨_, h⟩
  | bind h => exact ⟨_, h⟩
  | literal _ h _ _ => exact ⟨_, h⟩
  | argument _ h => exact ⟨_, h⟩

/-- Reading a route is reading its text. -/
theorem snd_readRoute_of_ok {site : Element} {directive : Directive} {memo : Memo}
    (hm : memo.Sound) {route : Route} (h : (readRoute site directive memo).1 = .ok route) :
    (readRoute site directive memo).2 = (memo.lex route.text).2 := by
  cases readRoute_reads hm h with
  | command _ => rfl
  | bind _ => rfl
  | literal hjoin _ _ _ => simp [readRoute, Route.ofSegments, hjoin, Memo.snd_lexAliased]
  | argument hjoin _ => simp [readRoute, Route.ofSegments, hjoin]

/-- A declaration is read from memory once its text is remembered. -/
theorem readRoute_again {memo : Memo} (hm : memo.Sound) {d : Declaration} {route : Route}
    (h : d.route? = some route) (htext : (memo.lookup route.text).isSome = true) :
    readRoute d.element d.directive memo = (.ok route, memo) := by
  have hfst := (fst_readRoute_eq_ok hm).mpr h
  obtain ⟨tokens, htokens⟩ := Option.isSome_iff_exists.mp htext
  refine Prod.ext hfst ?_
  rw [snd_readRoute_of_ok hm hfst, Memo.lex_of_lookup htokens]

theorem Namespace.dropLast_aliasLast (aliases : List String) : ∀ tokens : List Token,
    (aliasLast aliases tokens).dropLast = tokens.dropLast
  | [] => rfl
  | [_] => rfl
  | first :: second :: rest => by
    have hne : aliasLast aliases (second :: rest) ≠ [] := by simp [aliasLast_eq_nil]
    rw [aliasLast_cons_cons, List.dropLast_cons_of_ne_nil hne, dropLast_aliasLast,
      List.dropLast_cons_cons]

theorem Route.dropLast_nameArgument : ∀ tokens : List Token,
    (nameArgument tokens).dropLast = tokens.dropLast
  | [] => rfl
  | [_] => rfl
  | first :: second :: rest => by
    have hne : nameArgument (second :: rest) ≠ [] := by simp [nameArgument_eq_nil]
    rw [nameArgument_cons_cons, List.dropLast_cons_of_ne_nil hne, dropLast_nameArgument,
      List.dropLast_cons_cons]

/-- Only the last token of a route has aliases. -/
theorem Directive.Reads.aliases_of_mem_dropLast {directive : Directive} {route : Route}
    (h : directive.Reads route) : ∀ token ∈ route.tokens.dropLast, token.aliases = [] := by
  intro token ht
  cases h with
  | command h => exact Namespace.aliases_of_tokenize h (List.dropLast_subset _ ht)
  | bind h => exact Namespace.aliases_of_tokenize h (List.dropLast_subset _ ht)
  | literal _ h _ _ =>
    rw [Namespace.dropLast_aliasLast] at ht
    exact Namespace.aliases_of_tokenize h (List.dropLast_subset _ ht)
  | argument _ h =>
    rw [Route.dropLast_nameArgument] at ht
    exact Namespace.aliases_of_tokenize h (List.dropLast_subset _ ht)

namespace Environment

variable {env env' : Environment} {site : Element}

/-- A node that a scope has does not enter it again. -/
theorem enterScope_of_inScope (henv : env.WellFormed) {node : Nat} (h : env.InScope site node) :
    env.enterScope site node = env := by
  obtain ⟨s, hs, hname, hn⟩ := h
  have hrooted := henv.rooted hs
  unfold enterScope
  rw [Tree.primary_of_aliasOf_eq_none (hrooted.aliasOf hn)]
  dsimp only
  rw [Scope.enter_of_mem henv.scope_names hs hname (Scope.add_of_mem hn fun hcommand => ?_)]
  rw [hrooted.commands]
  exact List.mem_filter.mpr ⟨hn, hcommand⟩

/-- Giving the names that a node has changes nothing. -/
theorem foldl_addAlias_of_mem {text : String} {token : Token} {node : Nat}
    (hnode : (env.tree.node node).aliasOf = none) {words : List String}
    (h : ∀ word ∈ words, word ∈ (env.tree.node node).aliases) :
    words.foldl (addAlias site text token node) env = env := by
  induction words with
  | nil => rfl
  | cons word rest ih =>
    rw [List.forall_mem_cons] at h
    rw [List.foldl_cons, addAlias, Tree.addAlias_of_mem hnode h.1]
    exact ih h.2

/-- A token whose node is there, of its kind and with what is declared of it, leads to the node and
changes nothing. -/
theorem reach_of_knows {text : String} {parent child : Nat} {token : Token} {detail : Detail}
    (hnone : (env.tree.node (env.tree.primary child)).aliasOf = none)
    (hfind : env.tree.find parent token.identity.name = some child)
    (hkind : (env.tree.node (env.tree.primary child)).identity.kind = token.identity.kind)
    (hknows : ∀ i, detail = .argument i → (env.tree.node (env.tree.primary child)).Knows i) :
    env.reach site text parent token detail = (env, some (env.tree.primary child)) := by
  unfold reach
  rw [hfind]
  dsimp only
  unfold meet
  rw [if_pos hkind]
  cases detail with
  | argument i =>
    dsimp only
    rw [Tree.mergeArgument_of_knows hnone (hknows i rfl)]
  | _ => rfl

/-- A walk over commands that are as they are declared changes nothing. -/
theorem walk_of_arrived (henv : env.WellFormed) (text : String) (info : Option ArgumentInfo) :
    ∀ {tokens : List Token} {parent last : Nat}, (env.tree.node parent).aliasOf = none →
      env.Arrived site tokens parent last → (∀ token ∈ tokens.dropLast, token.aliases = []) →
      (tokens ≠ [] → ∀ i ∈ info, (env.tree.node last).Knows i) →
      walk site text info tokens parent env = (env, some last)
  | [], parent, last, _, h, _, _ => by
    cases h.leads
    rfl
  | token :: rest, parent, last, hnone, ⟨hleads, haliases⟩, hplain, hknows => by
    cases hleads with
    | @cons _ child _ _ _ hfind hkind hscope hrest =>
      have hnode := henv.tree.aliasOf_primary child
      obtain ⟨hpos, hlt⟩ := henv.lt_of_inScope hscope
      have hwords : ∀ word ∈ token.aliases,
          word ∈ (env.tree.node (env.tree.primary child)).aliases := by
        cases rest with
        | nil =>
          cases hrest
          exact haliases token rfl
        | cons next rest => simp [hplain token (by simp)]
      have hlast : rest = [] → ∀ i ∈ info, (env.tree.node (env.tree.primary child)).Knows i := by
        rintro rfl
        cases hrest
        exact hknows (by simp)
      rw [walk, reach_of_knows hnode hfind hkind
        (fun i => henv.tree.knows_detailOf hpos hlt hkind hlast)]
      dsimp only
      rw [foldl_addAlias_of_mem hnode hwords, enterScope_of_inScope henv hscope]
      cases rest with
      | nil =>
        cases hrest
        rfl
      | cons next rest =>
        rw [List.getLast?_cons_cons] at haliases
        rw [List.dropLast_cons_of_ne_nil (by simp), List.forall_mem_cons] at hplain
        exact walk_of_arrived henv text info hnode ⟨hrest, haliases⟩ hplain.2
          fun _ => hknows (by simp)

/-! ## Any further calls -/

/-- One call on an environment. -/
inductive Call : Environment → Environment → Prop
  | declare (env : Environment) (names : TypeNames) (ds : List Declaration) :
      Call env (env.declare names ds)
  | bind (env : Environment) {node : Nat} (hnode : node < env.tree.size) (role : Role)
      (site : Element) : Call env (env.bind node role site)
  | report (env : Environment) (d : Diagnostic) : Call env (env.report d)

theorem Call.reached (h : env.Call env') (henv : Reached env) : Reached env' := by
  cases h with
  | declare names ds => exact henv.declare names ds
  | bind hnode role site => exact henv.bind hnode role site
  | report d => exact henv.report d

/-- The environments that any further calls lead to. -/
abbrev Later : Environment → Environment → Prop :=
  ReflTransGen Call

theorem Later.reached (h : env.Later env') (henv : Reached env) : Reached env' := by
  induction h with
  | refl => exact henv
  | tail _ hcall ih => exact hcall.reached ih

theorem Call.grows (h : env.Call env') (henv : env.WellFormed) : env.Grows env' := by
  cases h with
  | declare names ds => exact (declare_steps names henv ds).grows henv
  | bind _ role site => exact env.grows_bind _ role site
  | report d => exact env.grows_report d

/-- Calls grow the environment. -/
theorem Later.grows (h : env.Later env') (henv : Reached env) : env.Grows env' := by
  induction h with
  | refl => exact .refl env
  | tail hcalls hcall ih =>
    exact ih.trans (hcall.grows (Later.reached hcalls henv).orderly.toWellFormed)

theorem Later.extends (h : env.Later env') (henv : Reached env) : env.Extends env' :=
  (h.grows henv).extends

theorem Later.remembers (h : env.Later env') (henv : Reached env) {text : String}
    (htext : (env.memo.lookup text).isSome = true) : (env'.memo.lookup text).isSome = true :=
  (h.grows henv).remembers htext

/-- What is there of a declaration that was placed without an error. -/
theorem arrived_of_quiet (henv : env.WellFormed) {d : Declaration}
    (h : (env.place d).diagnostics = env.diagnostics) :
    ∃ route last, d.route? = some route ∧ d.directive.Reads route ∧
      (env.place d).Arrived d.element route.tokens 0 last ∧
      (∀ i ∈ route.info, ((env.place d).tree.node last).Knows i) ∧
      ((env.place d).memo.lookup route.text).isSome = true := by
  have hread := steps_readRoute env d.element d.directive
  unfold place at h ⊢
  cases hr : readRoute d.element d.directive env.memo with
  | mk result memo =>
    rw [hr] at h hread
    cases result with
    | error added =>
      have hadded := readRoute_failsAt henv.memo (congrArg Prod.fst hr)
      exact absurd (by simpa [reportAll] using h) hadded.1
    | ok route =>
      have hfst := congrArg Prod.fst hr
      have hreads := readRoute_reads henv.memo hfst
      have hready := Ready.start (hread.wellFormed henv) d.element hreads.valid
      obtain ⟨last, -, harrived, hknows⟩ := (walk_reportsOr _ route.text _ _ _ _ hready).of_eq h
      have hgrows := (walk_steps _ route.text _ _ _ _ hready).grows hready.wellFormed
      refine ⟨route, last, (fst_readRoute_eq_ok henv.memo).mp hfst, hreads, harrived,
        hknows hreads.valid.tokens_ne, hgrows.remembers ?_⟩
      obtain ⟨tokens, htokens⟩ := hreads.exists_tokenize
      have hmemo := snd_readRoute_of_ok henv.memo hfst
      rw [hr] at hmemo
      dsimp only at hmemo ⊢
      rw [hmemo]
      exact Memo.isSome_lookup_lex ((henv.memo.fst_lex route.text).trans htokens)

/-- A declaration that was placed without an error changes nothing when it is placed again, after
any further calls and with any settings. -/
theorem Reached.declare_again (henv : Reached env) {names : TypeNames} {d : Declaration}
    (hstructural : d.directive.isStructural = true)
    (hquiet : (env.declare names [d]).diagnostics = env.diagnostics)
    (hlater : (env.declare names [d]).Later env') (names' : TypeNames) :
    env'.declare names' [d] = env' := by
  have hplaced := henv.declare names [d]
  have henv' := (hlater.reached hplaced).orderly.toWellFormed
  rw [declare_of_structural names' env' hstructural]
  rw [declare_of_structural names env hstructural] at hquiet hlater hplaced
  have hext := hlater.extends hplaced
  have hwf := henv.orderly.toWellFormed
  have hwf' := hplaced.orderly.toWellFormed
  obtain ⟨route, last, hroute, hreads, harrived, hknows, htext⟩ := arrived_of_quiet hwf hquiet
  have hlast := harrived.leads.lt hwf' hwf'.tree.root_lt
  have hagain := readRoute_again henv'.memo hroute (hlater.remembers hplaced htext)
  have hwalk := walk_of_arrived henv' route.text route.info henv'.tree.root_aliasOf
    (harrived.extends hext hwf' henv' hwf'.tree.root_lt)
    hreads.aliases_of_mem_dropLast
    fun _ i hi => (hknows i hi).extends (hext.tree.node hlast)
  unfold place
  rw [hagain]
  dsimp only
  rw [hwalk]

/-- An argument that is declared through an alias. Later its command gets another alias, through
which more is declared of the argument, and a command that contradicts the argument is refused. -/
theorem teleport_declare_again :
    let run : Element := { owner := some "Teleport", name := "run", kind := .method }
    let home : Element := { owner := some "Home", name := "run", kind := .method }
    let d : Declaration := ⟨run, .argument ["tp", "player"] "Player" none⟩
    let env := empty.declare {} [⟨run, .literal ["teleport"] ["tp"]⟩]
    let env' := (((env.declare {} [d]).declare {} [⟨home, .literal ["teleport"] ["warp"]⟩,
      ⟨home, .argument ["warp", "player"] "Player" (some "online")⟩,
      ⟨home, .command "tp player"⟩]).bind 3 .execution home).report
        (.ofWarning .unexecuted home "not executed")
    (env.declare {} [d]).diagnostics = env.diagnostics ∧ env'.diagnostics.length = 2 ∧
      env'.tree.size = 5 ∧ env'.declare {} [d] = env' := by
  intro run home d env env'
  have henv : Reached env := .declare .empty {} _
  have hquiet : (env.declare {} [d]).diagnostics = env.diagnostics := by decide +kernel
  have hdiagnostics : env'.diagnostics.length = 2 := by decide +kernel
  have hsize : env'.tree.size = 5 := by decide +kernel
  have hlater : (env.declare {} [d]).Later env' :=
    ((ReflTransGen.single (.declare _ {} _)).tail
      (.bind _ (by decide +kernel) .execution home)).tail (.report _ _)
  exact ⟨hquiet, hdiagnostics, hsize, henv.declare_again rfl hquiet hlater {}⟩

end Environment

end CommandTree
