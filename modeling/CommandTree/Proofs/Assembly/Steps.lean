import CommandTree.Assembly
import CommandTree.Proofs.Assembly.Routes
import CommandTree.Proofs.Environment.WellFormed
import CommandTree.Proofs.Tree.Mirrors
import Mathlib.Logic.Relation

/-!
# Assembling step by step

`Step` lists all that assembling does to an environment, with what holds each time it does it:
a command is inserted only where its name is new, a node enters a scope only after its parent,
an element is bound only inside its own scope, and what is named has a name. Adding declarations is
a sequence of such steps (`declare_steps`), so what each step keeps holds of every environment that
assembling reaches (`Assembled.sound`).
-/

namespace CommandTree.Environment

open Namespace (IsName Memo Token tokenize)
open Relation (ReflTransGen)

/-- One step of assembling. -/
inductive Step : Environment → Environment → Prop
  /-- A namespace is read. -/
  | remember (env : Environment) {text : String} {tokens : List Token}
      (h : tokenize text = .ok tokens) :
      Step env { env with memo := env.memo.remember text tokens }
  /-- An error is reported. -/
  | report (env : Environment) {d : Diagnostic} (hsev : d.severity = .error)
      (hkind : d.kind ≠ .internal) : Step env (env.report d)
  /-- A command is made. -/
  | insert (env : Environment) {parent : Nat} {identity : Identity} {detail : Detail}
      {origin : Option Element}
      (h : env.tree.Graftable parent { identity, detail, parent := some parent, origin })
      (hname : IsName identity.name) :
      Step env { env with tree := env.tree.insert parent identity detail origin }
  /-- More is known of an argument. -/
  | merge (env : Environment) (id : Nat) (info : ArgumentInfo) :
      Step env { env with tree := (env.tree.mergeArgument id info).1 }
  /-- A literal gets another name. -/
  | pushEntry (env : Environment) {id parent : Nat} {word : String}
      (h : env.tree.Graftable parent (env.tree.aliasEntry id parent word))
      (hid : (env.tree.node id).parent = some parent) (hword : IsName word) :
      Step env { env with tree := env.tree.pushEntry id parent word }
  /-- A node enters the scope of an element. -/
  | enterScope (env : Environment) {site : Element} {node p : Nat}
      (hnone : (env.tree.node node).aliasOf = none)
      (hparent : (env.tree.node node).parent = some p) (hp : p = 0 ∨ env.InScope site p) :
      Step env (env.enterScope site node)
  /-- An element is bound to a node of its scope. -/
  | bind (env : Environment) {site : Element} {node : Nat} (role : Role)
      (h : env.InScope site node) : Step env (env.bind node role site)

/-- Several steps of assembling. -/
abbrev Steps : Environment → Environment → Prop :=
  ReflTransGen Step

/-! ## What a step keeps -/

theorem WellFormed.aliasOf_of_inScope {env : Environment} (henv : env.WellFormed)
    {site : Element} {node : Nat} (h : env.InScope site node) :
    (env.tree.node node).aliasOf = none := by
  obtain ⟨s, hs, -, hn⟩ := h
  exact (henv.rooted hs).aliasOf hn

theorem WellFormed.lt_of_inScope {env : Environment} (henv : env.WellFormed)
    {site : Element} {node : Nat} (h : env.InScope site node) :
    0 < node ∧ node < env.tree.size := by
  obtain ⟨s, hs, -, hn⟩ := h
  exact henv.node_lt hs hn

/-- A step keeps the environment well formed. -/
theorem Step.wellFormed {env env' : Environment} (h : Step env env') (henv : env.WellFormed) :
    env'.WellFormed := by
  cases h with
  | remember h => exact henv.withMemo (henv.memo.remember h)
  | report _ _ => exact henv.report _
  | insert h _ => exact henv.grafted h (Tree.grafted_insert henv.tree h)
  | merge id info => exact henv.mergeArgument id info
  | pushEntry h hid _ => exact henv.grafted h (Tree.grafted_pushEntry henv.tree h hid)
  | enterScope hnone hparent hp => exact henv.enterScope hnone hparent hp
  | bind role h => exact henv.bind (henv.lt_of_inScope h).2 role _

/-- A step extends the environment. -/
theorem Step.extends {env env' : Environment} (h : Step env env') (henv : env.WellFormed) :
    env.Extends env' := by
  cases h with
  | remember h => exact ⟨.refl _, id⟩
  | report _ _ => exact ⟨.refl _, id⟩
  | insert h _ => exact ⟨(Tree.grafted_insert henv.tree h).extends henv.tree, id⟩
  | merge i info => exact ⟨Tree.extends_mergeArgument _ i info, id⟩
  | pushEntry h hid _ => exact ⟨(Tree.grafted_pushEntry henv.tree h hid).extends henv.tree, id⟩
  | enterScope _ _ _ => exact ⟨.refl _, inScope_enterScope⟩
  | bind role h => exact ⟨Tree.extends_bind _ _ _, id⟩

/-- A well-formed environment in which each element is bound inside its scope and every
diagnostic is an error of the declarations. -/
structure Sound (env : Environment) : Prop extends env.WellFormed where
  sited : ∀ {b}, b ∈ env.bindings → env.InScope b.site b.node
  errors : ∀ {d}, d ∈ env.diagnostics → d.severity = .error ∧ d.kind ≠ .internal

/-- The scope of a bound element has the node that it is bound to. -/
theorem Sound.mem_nodes_of_bound {env : Environment} (henv : env.Sound) {b : Binding}
    (hb : b ∈ env.bindings) {s : Scope} (hs : s ∈ env.scopes) (hscope : b.site.scope = s.name) :
    b.node ∈ s.nodes := by
  obtain ⟨s', hs', hname, hn⟩ := henv.sited hb
  rwa [Scope.eq_of_name_eq henv.scope_names hs hs' (hscope.symm.trans hname.symm)]

theorem Sound.empty : empty.Sound :=
  ⟨.empty, by simp [Environment.empty], by simp [Environment.empty]⟩

/-- A step keeps the environment sound. -/
theorem Step.sound {env env' : Environment} (h : Step env env') (henv : env.Sound) :
    env'.Sound := by
  have hext := h.extends henv.toWellFormed
  refine ⟨h.wellFormed henv.toWellFormed, ?_, ?_⟩
  · intro b hb
    cases h with
    | bind role h =>
      rename_i site node
      have hnone := henv.aliasOf_of_inScope h
      rcases List.mem_append.mp hb with hb | hb
      · exact hext.inScope (henv.sited hb)
      · obtain rfl := List.mem_singleton.mp hb
        rw [Tree.primary_of_aliasOf_eq_none hnone]
        exact hext.inScope h
    | _ => exact hext.inScope (henv.sited hb)
  · intro d hd
    cases h with
    | report hsev hkind =>
      rcases List.mem_append.mp hd with hd | hd
      · exact henv.errors hd
      · obtain rfl := List.mem_singleton.mp hd
        exact ⟨hsev, hkind⟩
    | _ => exact henv.errors hd

theorem Steps.wellFormed {env env' : Environment} (h : env.Steps env') (henv : env.WellFormed) :
    env'.WellFormed := by
  induction h with
  | refl => exact henv
  | tail _ hstep ih => exact hstep.wellFormed ih

theorem Steps.extends {env env' : Environment} (h : env.Steps env') (henv : env.WellFormed) :
    env.Extends env' := by
  induction h with
  | refl => exact .refl _
  | tail hsteps hstep ih => exact ih.trans (hstep.extends (Steps.wellFormed hsteps henv))

theorem Steps.sound {env env' : Environment} (h : env.Steps env') (henv : env.Sound) :
    env'.Sound := by
  induction h with
  | refl => exact henv
  | tail _ hstep ih => exact hstep.sound ih

/-- Each scope has a node. -/
theorem Steps.scopes_ne_nil {env env' : Environment} (h : env.Steps env')
    (henv : ∀ s ∈ env.scopes, s.nodes ≠ []) : ∀ s ∈ env'.scopes, s.nodes ≠ [] := by
  induction h with
  | refl => exact henv
  | tail _ hstep ih =>
    cases hstep with
    | enterScope _ _ _ =>
      intro s hs
      rcases Scope.mem_enter hs with hs | ⟨old, rfl, -⟩
      · exact ih s hs
      · exact List.ne_nil_of_mem (Scope.mem_nodes_add.mpr (Or.inr rfl))
    | _ => exact ih

/-! ## Reading and reporting -/

/-- Reading a route is a step, which remembers texts. -/
theorem steps_readRoute (env : Environment) (site : Element) (directive : Directive) :
    env.Steps { env with memo := (readRoute site directive env.memo).2 } := by
  rcases snd_readRoute site directive env.memo with h | ⟨text, tokens, hread, h⟩
  · rw [h]
  · rw [h]
    exact .single (.remember env hread)

theorem steps_reportAll (env : Environment) {site : Element} (ds : List Diagnostic)
    (h : ∀ d ∈ ds, d.IsErrorAt .lex site) : env.Steps (env.reportAll ds) := by
  induction ds generalizing env with
  | nil =>
    rw [reportAll, List.append_nil]
  | cons d rest ih =>
    obtain ⟨hsev, hkind, -⟩ := h d (by simp)
    have hrest : env.reportAll (d :: rest) = (env.report d).reportAll rest := by
      simp [reportAll, Environment.report]
    rw [hrest]
    exact .head (.report env hsev (by simp [hkind])) (ih _ fun d' hd' => h d' (by simp [hd']))

theorem step_reportConflict (env : Environment) (site : Element) (text : String) (token : Token)
    (message : String) : Step env (env.reportConflict site text token message) :=
  .report env rfl (by simp [Diagnostic.withSnippet, Diagnostic.ofError])

/-! ## Placing commands -/

/-- The node is a command of the kind right below `parent`. -/
structure Stands (env : Environment) (parent node : Nat) (kind : Kind) : Prop where
  aliasOf : (env.tree.node node).aliasOf = none
  parent : (env.tree.node node).parent = some parent
  kind : (env.tree.node node).identity.kind = kind

theorem Stands.extends {env env' : Environment} {parent node : Nat} {kind : Kind}
    (h : env.Stands parent node kind) (henv : env.WellFormed) (hext : env.Extends env') :
    env'.Stands parent node kind := by
  have hlt := (henv.tree.parent_lt h.parent).2.1
  exact ⟨by rw [hext.tree.aliasOf hlt, h.aliasOf], by rw [hext.tree.parent hlt, h.parent],
    by rw [hext.tree.identity hlt, h.kind]⟩

/-- What meeting a node comes to: a conflict of kinds, the node as it is, a conflict over what is
known of an argument, or the node with what is declared of it. -/
theorem meet_cases (env : Environment) (site : Element) (text : String) (token : Token)
    (detail : Detail) (existing : Nat) :
    (env.tree.node existing).identity.kind ≠ token.identity.kind ∧
      (∃ message, env.meet site text token detail existing =
        (env.reportConflict site text token message, none)) ∨
    (env.tree.node existing).identity.kind = token.identity.kind ∧
      ((∀ info, detail ≠ .argument info) ∧
          env.meet site text token detail existing = (env, some existing) ∨
        ∃ info, detail = .argument info ∧
          ((∃ message, env.meet site text token detail existing =
              ({ env with tree := (env.tree.mergeArgument existing info).1 }.reportConflict site
                text token message, none)) ∨
            (env.tree.mergeArgument existing info).2 = none ∧
              env.meet site text token detail existing =
                ({ env with tree := (env.tree.mergeArgument existing info).1 },
                  some existing))) := by
  by_cases hkind : (env.tree.node existing).identity.kind = token.identity.kind
  · refine Or.inr ⟨hkind, ?_⟩
    cases detail with
    | argument info =>
      refine Or.inr ⟨info, rfl, ?_⟩
      cases hmerge : (env.tree.mergeArgument existing info).2 with
      | some conflict => exact Or.inl ⟨_, by simp only [meet, hkind, hmerge]; rfl⟩
      | none => exact Or.inr ⟨rfl, by simp [meet, hkind, hmerge]⟩
    | _ => exact Or.inl ⟨by simp, by simp [meet, hkind]⟩
  · exact Or.inl ⟨hkind, _, by simp only [meet, hkind]; rfl⟩

/-- Meeting a node changes at most what is known of an argument. -/
theorem meet_steps (env : Environment) (site : Element) (text : String) (token : Token)
    (detail : Detail) (existing : Nat) :
    env.Steps (env.meet site text token detail existing).1 ∧
      ∀ node, (env.meet site text token detail existing).2 = some node →
        node = existing ∧ (env.tree.node existing).identity.kind = token.identity.kind := by
  rcases env.meet_cases site text token detail existing with
    ⟨-, message, h⟩ | ⟨hkind, ⟨-, h⟩ | ⟨info, -, ⟨message, h⟩ | ⟨-, h⟩⟩⟩
  · rw [h]
    exact ⟨.single (step_reportConflict _ _ _ _ _), by simp⟩
  · rw [h]
    exact ⟨.refl, by simp [hkind]⟩
  · rw [h]
    exact ⟨(ReflTransGen.single (.merge env existing info)).tail (step_reportConflict _ _ _ _ _),
      by simp⟩
  · rw [h]
    exact ⟨.single (.merge env existing info), by simp [hkind]⟩

/-- Reaching a node takes steps, and the node stands below its parent afterwards. -/
theorem reach_steps {env : Environment} (henv : env.WellFormed) {parent : Nat}
    (hlt : parent < env.tree.size) (hnone : (env.tree.node parent).aliasOf = none)
    (site : Element) (text : String) (token : Token) {detail : Detail}
    (hfits : detail.Fits token.identity.kind) (hname : IsName token.identity.name) :
    env.Steps (env.reach site text parent token detail).1 ∧
      ∀ node, (env.reach site text parent token detail).2 = some node →
        (env.reach site text parent token detail).1.Stands parent node token.identity.kind := by
  unfold reach
  split
  · rename_i existing hfind
    obtain ⟨hsteps, hmeet⟩ :=
      meet_steps env site text token detail (env.tree.primary existing)
    refine ⟨hsteps, fun node hnode => ?_⟩
    obtain ⟨rfl, hkind⟩ := hmeet node hnode
    have hstands : env.Stands parent (env.tree.primary existing) token.identity.kind :=
      ⟨henv.tree.aliasOf_primary _, henv.tree.parent_of_find hnone hfind, hkind⟩
    exact hstands.extends henv (hsteps.extends henv)
  · rename_i hfind
    have hnew := Tree.graftable_command hlt hnone hfind hfits (some site)
    refine ⟨.single (.insert env hnew hname), ?_⟩
    rintro node ⟨⟩
    have hsize := (Tree.grafted_insert henv.tree hnew).node_size
    refine ⟨?_, ?_, ?_⟩ <;> dsimp only <;> rw [hsize]

/-- A free name below the parent of a literal can be an alias entry of it. -/
theorem Stands.graftable {env : Environment} {parent node : Nat} (henv : env.WellFormed)
    (h : env.Stands parent node .literal) {word : String}
    (hfind : env.tree.find parent word = none) :
    env.tree.Graftable parent (env.tree.aliasEntry node parent word) :=
  henv.tree.graftable_aliasEntry h.aliasOf h.parent h.kind hfind

theorem addAlias_steps {env : Environment} {parent node : Nat} (henv : env.WellFormed)
    (h : env.Stands parent node .literal) (site : Element) (text : String) (token : Token)
    {word : String} (hword : IsName word) :
    env.Steps (addAlias site text token node env word) := by
  have hprimary := Tree.primary_of_aliasOf_eq_none h.aliasOf
  unfold addAlias
  rcases env.tree.addAlias_cases node word with
    ⟨heq, -⟩ | ⟨_, _, -, -, heq⟩ | ⟨p, hp, hfind, heq⟩
  · rw [heq]
  · rw [heq]
    exact .single (step_reportConflict _ _ _ _ _)
  · rw [hprimary] at hp heq
    obtain rfl := Option.some.inj (h.parent.symm.trans hp)
    rw [heq]
    exact .single (.pushEntry env (h.graftable henv hfind) h.parent hword)

theorem foldl_addAlias_steps {env : Environment} {parent node : Nat} (henv : env.WellFormed)
    (site : Element) (text : String) (token : Token) {kind : Kind}
    (h : env.Stands parent node kind) (words : List String)
    (hkind : words ≠ [] → kind = .literal) (hwords : ∀ word ∈ words, IsName word) :
    env.Steps (words.foldl (addAlias site text token node) env) := by
  induction words generalizing env with
  | nil => exact .refl
  | cons word rest ih =>
    obtain rfl := hkind (by simp)
    rw [List.forall_mem_cons] at hwords
    have hsteps := addAlias_steps henv h site text token hwords.1
    exact hsteps.trans (ih (hsteps.wellFormed henv) (h.extends henv (hsteps.extends henv))
      (fun _ => rfl) hwords.2)

/-- What is said of a token fits its kind. -/
theorem detailOf_fits {info : Option ArgumentInfo} {token : Token} {rest : List Token}
    (h : ∀ i ∈ info, ∀ last ∈ (token :: rest).getLast?, last.identity.kind = .argument) :
    (detailOf info token rest).Fits token.identity.kind := by
  unfold detailOf
  split
  · rw [h _ rfl token rfl]
    trivial
  · exact Detail.fits_ofKind _

/-- A node that was reached gets the aliases of its token and enters the scope. -/
def settle (env : Environment) (site : Element) (text : String) (token : Token) (node : Nat) :
    Environment :=
  (token.aliases.foldl (addAlias site text token node) env).enterScope site node

/-- A walk may go on below `parent` with these tokens. -/
structure Ready (site : Element) (info : Option ArgumentInfo) (tokens : List Token)
    (parent : Nat) (env : Environment) : Prop where
  wellFormed : env.WellFormed
  lt : parent < env.tree.size
  aliasOf : (env.tree.node parent).aliasOf = none
  scope : parent = 0 ∨ env.InScope site parent
  names : ∀ token ∈ tokens, IsName token.identity.name ∧ ∀ word ∈ token.aliases, IsName word
  aliased : ∀ token ∈ tokens, token.aliases ≠ [] → token.identity.kind = .literal
  named : ∀ i ∈ info, ∀ last ∈ tokens.getLast?, last.identity.kind = .argument

/-- A walk may start at the root with the tokens of a valid route. -/
theorem Ready.start {env : Environment} (henv : env.WellFormed) (site : Element) {route : Route}
    (h : route.Valid) : Ready site route.info route.tokens 0 env :=
  ⟨henv, henv.tree.root_lt, henv.tree.root_aliasOf, Or.inl rfl, h.names, h.aliased, h.named⟩

namespace Ready

variable {site : Element} {info : Option ArgumentInfo} {token : Token} {rest : List Token}
  {parent : Nat} {env : Environment} (h : Ready site info (token :: rest) parent env)

include h

theorem fits : (detailOf info token rest).Fits token.identity.kind :=
  detailOf_fits h.named

theorem reach_steps (text : String) :
    env.Steps (env.reach site text parent token (detailOf info token rest)).1 ∧
      ∀ node, (env.reach site text parent token (detailOf info token rest)).2 = some node →
        (env.reach site text parent token (detailOf info token rest)).1.Stands parent node
          token.identity.kind :=
  Environment.reach_steps h.wellFormed h.lt h.aliasOf site text token h.fits
    (h.names token List.mem_cons_self).1

/-- What a walk does for one token whose node it reaches: the node gets its aliases, it enters the
scope, and the walk may go on below it. -/
theorem next {text : String} {env₁ : Environment} {node : Nat}
    (hr : env.reach site text parent token (detailOf info token rest) = (env₁, some node)) :
    env.Steps env₁ ∧ env₁.Stands parent node token.identity.kind ∧
      env₁.Steps (env₁.settle site text token node) ∧
      Ready site info rest node (env₁.settle site text token node) := by
  obtain ⟨hreach, hstands⟩ := h.reach_steps text
  rw [hr] at hreach hstands
  have hnode := hstands node rfl
  have h₁ := hreach.wellFormed h.wellFormed
  have hext₁ := hreach.extends h.wellFormed
  have halias := foldl_addAlias_steps h₁ site text token hnode token.aliases
    (h.aliased token List.mem_cons_self) (h.names token List.mem_cons_self).2
  have h₂ := halias.wellFormed h₁
  have hext₂ := halias.extends h₁
  have hnode₂ := hnode.extends h₁ hext₂
  have henter := Step.enterScope _ hnode₂.aliasOf hnode₂.parent
    (h.scope.imp_right fun hin => hext₂.inScope (hext₁.inScope hin))
  refine ⟨hreach, hnode, halias.tail henter, henter.wellFormed h₂,
    (h₂.tree.parent_lt hnode₂.parent).2.1, hnode₂.aliasOf,
    Or.inr (inScope_enterScope_self hnode₂.aliasOf),
    fun t ht => h.names t (List.mem_cons_of_mem _ ht),
    fun t ht => h.aliased t (List.mem_cons_of_mem _ ht), fun i hi last hlast => ?_⟩
  refine h.named i hi last ?_
  rw [Option.mem_def] at hlast ⊢
  rw [List.getLast?_cons, hlast]
  rfl

end Ready

theorem walk_steps (site : Element) (text : String) (info : Option ArgumentInfo) :
    ∀ (tokens : List Token) (parent : Nat) (env : Environment),
      Ready site info tokens parent env → env.Steps (walk site text info tokens parent env).1
  | [], _, _, _ => .refl
  | token :: rest, parent, env, h => by
    rw [walk]
    cases hr : env.reach site text parent token (detailOf info token rest) with
    | mk env₁ result =>
      cases result with
      | none => simpa [hr] using (h.reach_steps text).1
      | some node =>
        obtain ⟨hreach, -, hsettle, hnext⟩ := h.next hr
        exact (hreach.trans hsettle).trans (walk_steps site text info rest node _ hnext)

/-- What placing a declaration comes to, once its namespace is remembered: the namespace has faults,
or it is walked from the root. -/
theorem place_eq {env : Environment} (henv : env.WellFormed) (d : Declaration) :
    ∃ memo, env.Steps { env with memo } ∧
      ((∃ added, FailsAt d.element added ∧ env.place d = reportAll { env with memo } added) ∨
        ∃ route, d.directive.Reads route ∧
          Ready d.element route.info route.tokens 0 { env with memo } ∧
          env.place d =
            (walk d.element route.text route.info route.tokens 0 { env with memo }).1) := by
  have hread := steps_readRoute env d.element d.directive
  unfold place
  cases hr : readRoute d.element d.directive env.memo with
  | mk result memo =>
    rw [hr] at hread
    refine ⟨memo, hread, ?_⟩
    cases result with
    | error added => exact Or.inl ⟨added, readRoute_failsAt henv.memo (by rw [hr]), rfl⟩
    | ok route =>
      have hreads := readRoute_reads henv.memo (congrArg Prod.fst hr)
      exact Or.inr ⟨route, hreads, .start (hread.wellFormed henv) _ hreads.valid, rfl⟩

/-- Merging a structural declaration takes steps. -/
theorem place_steps {env : Environment} (henv : env.WellFormed) (d : Declaration) :
    env.Steps (env.place d) := by
  obtain ⟨memo, hread, ⟨added, hadded, heq⟩ | ⟨route, -, hready, heq⟩⟩ := place_eq henv d
  · rw [heq]
    exact hread.trans (steps_reportAll _ added hadded.2)
  · rw [heq]
    exact hread.trans (walk_steps _ _ _ _ 0 _ hready)

/-! ## Binding elements -/

/-- An identity leads to a node that it names and that the type's scope has. -/
theorem step?_eq_some {env : Environment} {site : Element} {node n : Nat} {identity : Identity} :
    env.step? site node identity = some n ↔ ∃ child s, env.tree.child node identity = some child ∧
      env.scope? site.scope = some s ∧ s.contains n = true ∧ n = env.tree.primary child := by
  unfold step?
  split
  · rename_i child s hchild hscope
    dsimp only
    constructor
    · intro h
      split at h
      · rename_i hcontains
        obtain rfl := Option.some.inj h
        exact ⟨child, s, hchild, hscope, hcontains, rfl⟩
      · cases h
    · rintro ⟨child', s', hchild', hscope', hcontains, rfl⟩
      obtain rfl := Option.some.inj (hchild.symm.trans hchild')
      obtain rfl := Option.some.inj (hscope.symm.trans hscope')
      rw [if_pos hcontains]
  · rename_i hnone
    simp only [reduceCtorEq, false_iff]
    rintro ⟨child, s, hchild, hscope, -⟩
    exact hnone child s hchild hscope

theorem inScope_of_step? {env : Environment} {site : Element} {node n : Nat}
    {identity : Identity} (h : env.step? site node identity = some n) : env.InScope site n := by
  obtain ⟨_, s, -, hscope, hcontains, -⟩ := step?_eq_some.mp h
  exact ⟨s, List.mem_of_find?_eq_some hscope, by simpa using List.find?_some hscope,
    by simpa [Scope.contains] using hcontains⟩

/-- A path that leads anywhere leads into the scope. -/
theorem inScope_of_resolve {env : Environment} {site : Element} :
    ∀ {tokens : List Token} {node n : Nat}, env.resolve site tokens node = .ok n →
      tokens ≠ [] → env.InScope site n
  | [], _, _, _, hne => absurd rfl hne
  | token :: rest, node, n, h, _ => by
    rw [resolve] at h
    split at h
    · rename_i child hchild
      cases rest with
      | nil =>
        cases h
        exact inScope_of_step? hchild
      | cons next rest => exact inScope_of_resolve h (by simp)
    · cases h

/-- What binding an element comes to: something is reported, or a node gets a binding. -/
theorem bindElement_eq (names : TypeNames) (env : Environment) (d : Declaration) :
    (∃ memo diagnostics, bindElement names env d = { env with memo, diagnostics }) ∨
      ∃ memo node role, bindElement names env d =
        Environment.bind { env with memo } node role d.element := by
  unfold bindElement
  split
  · exact Or.inl ⟨_, _, rfl⟩
  · split
    · exact Or.inl ⟨_, _, rfl⟩
    · dsimp only
      split
      · exact Or.inr ⟨_, _, _, rfl⟩
      · exact Or.inl ⟨_, _, rfl⟩

theorem bindElement_steps (names : TypeNames) {env : Environment} (henv : env.WellFormed)
    (d : Declaration) : env.Steps (bindElement names env d) := by
  have hread := steps_readRoute env d.element d.directive
  unfold bindElement
  split
  · exact .single (.report env rfl (by simp [Diagnostic.ofError]))
  · rename_i role _
    cases hr : readRoute d.element d.directive env.memo with
    | mk result memo =>
      rw [hr] at hread
      cases result with
      | error ds =>
        exact hread.trans (steps_reportAll _ ds (readRoute_failsAt henv.memo (by rw [hr])).2)
      | ok route =>
        have hvalid := (readRoute_reads henv.memo (congrArg Prod.fst hr)).valid
        dsimp only
        split
        · rename_i node hresolve
          exact hread.tail (.bind _ role (inScope_of_resolve hresolve hvalid.tokens_ne))
        · exact hread.tail (.report _ rfl
            (by simp [Diagnostic.withSnippet, Diagnostic.ofError]))

/-! ## Whole lists of declarations -/

theorem foldl_steps {f : Environment → Declaration → Environment}
    (hf : ∀ {env : Environment}, env.WellFormed → ∀ d, env.Steps (f env d))
    (ds : List Declaration)
    {env : Environment} (henv : env.WellFormed) : env.Steps (ds.foldl f env) := by
  induction ds generalizing env with
  | nil => exact .refl
  | cons d rest ih => exact (hf henv d).trans (ih ((hf henv d).wellFormed henv))

/-- A call takes steps. -/
theorem declare_steps (names : TypeNames) {env : Environment} (henv : env.WellFormed)
    (ds : List Declaration) : env.Steps (env.declare names ds) := by
  have hplace := foldl_steps place_steps (ds.filter (·.directive.isStructural)) henv
  exact hplace.trans (foldl_steps (bindElement_steps names) _ (hplace.wellFormed henv))

/-- Adding declarations keeps what placing keeps and binding keeps. -/
theorem declare_induction {P : Environment → Prop} {names : TypeNames}
    (hplace : ∀ {env : Environment}, env.WellFormed → P env → ∀ d, P (env.place d))
    (hbind : ∀ {env : Environment}, P env → ∀ d, P (bindElement names env d))
    {env : Environment} (henv : env.WellFormed) (h : P env) (ds : List Declaration) :
    P (env.declare names ds) := by
  have hplaced := List.foldlRecOn (motive := fun env : Environment => env.WellFormed ∧ P env)
    (ds.filter (·.directive.isStructural)) place ⟨henv, h⟩ fun _ ⟨hwf, h⟩ d _ =>
      ⟨(place_steps hwf d).wellFormed hwf, hplace hwf h d⟩
  exact List.foldlRecOn _ _ hplaced.2 fun _ h d _ => hbind h d

/-- The environments that assembling reaches: one call after the other adds declarations, each
with settings of its own. -/
inductive Assembled : Environment → Prop
  | empty : Assembled empty
  | declare {env : Environment} (h : Assembled env) (names : TypeNames)
      (ds : List Declaration) : Assembled (env.declare names ds)

theorem Assembled.sound {env : Environment} (h : Assembled env) : env.Sound := by
  induction h with
  | empty => exact .empty
  | declare _ names ds ih => exact (declare_steps names ih.toWellFormed ds).sound ih

theorem assembled_ofDeclarations (settings : Settings) (ds : List Declaration) :
    Assembled (ofDeclarations settings ds) :=
  .declare .empty settings.types ds

end CommandTree.Environment
