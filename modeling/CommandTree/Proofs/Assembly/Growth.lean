import CommandTree.Proofs.Assembly.Reached

/-!
# Environments only grow

Nothing is ever taken out of an environment. `Grows` says so of all its parts: the nodes of the tree
keep their handles and what is known of them, each list is a prefix of what it becomes, a scope
keeps its place, and what is remembered stays so.

A child is written over if another one comes under its identity. But each step of assembling adds a
child only under a name that is new, so a step only lets an environment grow (`Step.grows`), and so
do all steps of a call (`Reached.declare_grows`).
-/

namespace CommandTree

open Namespace (Memo Token tokenize)

/-- Reading more does not change what is remembered. -/
theorem Namespace.Memo.Sound.lookup_remember {m : Memo} (hm : m.Sound) {text text' : String}
    {tokens tokens' : List Token} (hread : tokenize text' = .ok tokens')
    (h : m.lookup text = some tokens) :
    (Memo.remember m text' tokens').lookup text = some tokens := by
  unfold Memo.lookup Memo.remember
  rw [List.lookup_cons]
  split
  · rename_i heq
    rw [beq_iff_eq.mp heq] at h
    rw [Except.ok.inj (hread.symm.trans (hm.tokenize_of_lookup h))]
  · exact h

/-- A child stays under its identity while a tree grows. -/
theorem Tree.Extends.child {t t' : Tree} (h : t.Extends t') (ht : t.WellFormed) {p c : Nat}
    {identity : Identity} (hp : p < t.size) (hchild : t.child p identity = some c) :
    t'.child p identity = some c := by
  obtain ⟨added, hadded⟩ := (h.node (ht.primary_lt hp)).children
  unfold Tree.child at hchild ⊢
  rw [h.primary hp, ← hadded, List.lookup_append, hchild]
  rfl

namespace Environment

/-- The environment `env'` has all that `env` has, and has it in the same place. -/
structure Grows (env env' : Environment) : Prop where
  tree : env.tree.Extends env'.tree
  bindings : env.bindings <+: env'.bindings
  diagnostics : env.diagnostics <+: env'.diagnostics
  scope_names : env.scopes.map (·.name) <+: env'.scopes.map (·.name)
  scope : ∀ {s}, s ∈ env.scopes → ∃ s' ∈ env'.scopes, s.Extends s'
  memo : ∀ {text tokens}, env.memo.lookup text = some tokens →
    env'.memo.lookup text = some tokens

theorem Grows.refl (env : Environment) : env.Grows env :=
  ⟨.refl _, List.prefix_rfl, List.prefix_rfl, List.prefix_rfl, fun hs => ⟨_, hs, .refl _⟩, id⟩

theorem Grows.trans {env env' env'' : Environment} (h : env.Grows env') (h' : env'.Grows env'') :
    env.Grows env'' where
  tree := h.tree.trans h'.tree
  bindings := h.bindings.trans h'.bindings
  diagnostics := h.diagnostics.trans h'.diagnostics
  scope_names := h.scope_names.trans h'.scope_names
  scope hs := by
    obtain ⟨s', hs', hext⟩ := h.scope hs
    obtain ⟨s'', hs'', hext'⟩ := h'.scope hs'
    exact ⟨s'', hs'', hext.trans hext'⟩
  memo hlookup := h'.memo (h.memo hlookup)

variable {env env' : Environment}

theorem Grows.extends (h : env.Grows env') : env.Extends env' := by
  refine ⟨h.tree, ?_⟩
  rintro site node ⟨s, hs, hname, hn⟩
  obtain ⟨s', hs', hext⟩ := h.scope hs
  exact ⟨s', hs', hext.name.trans hname, hext.nodes.subset hn⟩

/-- Texts that were read stay remembered. -/
theorem Grows.remembers (h : env.Grows env') {text : String}
    (htext : (env.memo.lookup text).isSome = true) : (env'.memo.lookup text).isSome = true := by
  obtain ⟨tokens, htokens⟩ := Option.isSome_iff_exists.mp htext
  rw [h.memo htokens]
  rfl

theorem grows_bind (env : Environment) (node : Nat) (role : Role) (site : Element) :
    env.Grows (env.bind node role site) :=
  { Grows.refl env with
    tree := Tree.extends_bind _ _ _
    bindings := List.prefix_append _ _ }

theorem grows_report (env : Environment) (d : Diagnostic) : env.Grows (env.report d) :=
  { Grows.refl env with diagnostics := List.prefix_append _ _ }

/-- Each step grows the environment. -/
theorem Step.grows (h : Step env env') (henv : env.WellFormed) : env.Grows env' := by
  have htree := (h.extends henv).tree
  cases h with
  | remember hread => exact { Grows.refl env with memo := henv.memo.lookup_remember hread }
  | report _ _ => exact env.grows_report _
  | insert _ _ => exact { Grows.refl env with tree := htree }
  | merge _ _ => exact { Grows.refl env with tree := htree }
  | pushEntry _ _ _ => exact { Grows.refl env with tree := htree }
  | enterScope _ _ _ =>
    refine { Grows.refl env with scope_names := ?_, scope := Scope.exists_mem_enter }
    unfold Environment.enterScope
    rw [Scope.map_name_enter]
    exact prefix_insertLast _ _
  | bind role _ => exact env.grows_bind _ role _

theorem Steps.grows (h : env.Steps env') (henv : env.WellFormed) : env.Grows env' := by
  induction h with
  | refl => exact .refl env
  | tail hsteps hstep ih => exact ih.trans (hstep.grows (Steps.wellFormed hsteps henv))

/-- Adding declarations takes nothing out of an environment, and no child takes the place of
another. -/
theorem Reached.declare_grows (henv : Reached env) (names : TypeNames) (ds : List Declaration) :
    env.Grows (env.declare names ds) ∧
      ∀ {p c : Nat} {identity : Identity}, p < env.tree.size →
        env.tree.child p identity = some c →
        (env.declare names ds).tree.child p identity = some c := by
  have hwf := henv.orderly.toWellFormed
  have hgrows := (declare_steps names hwf ds).grows hwf
  exact ⟨hgrows, fun hp => hgrows.tree.child hwf.tree hp⟩

/-- Another type adds suggestions to the argument and a command beside it, both through the alias,
declares a literal of the argument's name, which is refused, and is bound. -/
theorem shortTeleport_declare_grows :
    let home : Element := { owner := some "Home", name := "run", kind := .method }
    let ds : List Declaration := [⟨home, .bind "teleport home"⟩,
      ⟨home, .argument ["tp", "player"] "Player" (some "online")⟩, ⟨home, .command "tp home"⟩,
      ⟨home, .command "tp player"⟩]
    let env := shortTeleport.declare {} ds
    env.tree.size = 5 ∧ env.bindings.length = 2 ∧ env.diagnostics.length = 2 ∧
      shortTeleport.Grows env ∧ shortTeleport.tree.child 2 (.argument "player") = some 3 ∧
      env.tree.child 2 (.argument "player") = some 3 := by
  intro home ds env
  have hsize : env.tree.size = 5 := by decide +kernel
  have hbindings : env.bindings.length = 2 := by decide +kernel
  have hdiagnostics : env.diagnostics.length = 2 := by decide +kernel
  have hlt : 2 < shortTeleport.tree.size := by decide +kernel
  have hchild : shortTeleport.tree.child 2 (.argument "player") = some 3 := by decide +kernel
  have hreached : shortTeleport.Reached :=
    .report (.bind (.declare .empty {} _) (by decide +kernel) .execution _) _
  obtain ⟨hgrows, hkept⟩ := hreached.declare_grows {} ds
  exact ⟨hsize, hbindings, hdiagnostics, hgrows, hchild, hkept hlt hchild⟩

end Environment

end CommandTree
