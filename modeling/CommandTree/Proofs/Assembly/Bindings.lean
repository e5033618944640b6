import CommandTree.Proofs.Assembly.Contents

/-!
# What the bindings of a list come to

Binding an element leaves the tree and the scopes as they are, but for the handles of bindings
(`Alike`). Where a binding leads depends on the tree and the scopes only (`Alike.boundBy`). So each
of several bindings records what it would record alone, in their order (`foldl_bindElement_adds`).
-/

namespace CommandTree.Environment

variable {env env' : Environment} {site : Element}

namespace Alike

theorem primary (h : env.Alike env') (id : Nat) :
    env'.tree.primary id = env.tree.primary id := by
  rw [Tree.primary, Tree.primary, (h.links id).aliasOf]

theorem path (h : env.Alike env') (id : Nat) : env'.tree.path id = env.tree.path id := by
  rw [Tree.path, Tree.path, h.identities]

theorem scope? (h : env.Alike env') (name : String) : env'.scope? name = env.scope? name := by
  rw [Environment.scope?, Environment.scope?, h.scopes]

theorem step? (h : env.Alike env') (site : Element) (node : Nat) (identity : Identity) :
    env'.step? site node identity = env.step? site node identity := by
  simp only [Environment.step?, Tree.child, h.primary, (h.links _).children, h.scope?]

/-- Bindings do not tell where a path leads. -/
theorem resolve (h : env.Alike env') (site : Element) (tokens : List Namespace.Token)
    (node : Nat) : env'.resolve site tokens node = env.resolve site tokens node := by
  induction tokens generalizing node with
  | nil => rfl
  | cons token rest ih =>
    rw [Environment.resolve, Environment.resolve, h.step?]
    cases env.step? site node token.identity with
    | none => rfl
    | some child => exact ih child

end Alike

/-! ## One binding -/

/-- What a declaration that binds its element records: the node that its path leads to, if its
element has a role and its path can be read. -/
def boundBy (env : Environment) (names : TypeNames) (d : Declaration) : Option Binding := do
  let role ← (d.element.role names).toOption
  let route ← d.route?
  let node ← (env.resolve d.element route.tokens 0).toOption
  pure ⟨node, role, d.element⟩

/-- What a declaration binds does not depend on what is bound. -/
theorem Alike.boundBy (h : env.Alike env') (names : TypeNames) (d : Declaration) :
    env'.boundBy names d = env.boundBy names d := by
  simp only [Environment.boundBy, h.resolve]

/-- A declaration binds its own element. -/
theorem site_of_boundBy {names : TypeNames} {d : Declaration} {b : Binding}
    (h : env.boundBy names d = some b) : b.site = d.element := by
  simp only [boundBy, Option.bind_eq_bind, Option.bind_eq_some_iff] at h
  obtain ⟨_, _, _, _, _, _, h⟩ := h
  rw [← Option.some.inj h]

/-- Binding an element records what the declaration tells, and changes neither the tree nor the
scopes. -/
theorem bindElement_adds (names : TypeNames) (henv : env.Orderly) (d : Declaration) :
    env.Alike (bindElement names env d) ∧
      (bindElement names env d).bindings = env.bindings ++ (env.boundBy names d).toList := by
  have hread := (steps_readRoute env d.element d.directive).orderly henv
  have hroute : d.route? = (readRoute d.element d.directive env.memo).1.toOption := by
    rw [Declaration.route?, fst_readRoute_congr henv.memo Namespace.Memo.sound_empty]
  have hsame : ∀ memo diagnostics, env.Alike { env with memo, diagnostics } := fun _ _ =>
    ⟨rfl, fun _ => rfl, rfl⟩
  unfold bindElement boundBy
  rw [hroute]
  cases hrole : d.element.role names with
  | error reason => exact ⟨hsame _ _, by simp [Except.toOption, report]⟩
  | ok role =>
    cases hr : readRoute d.element d.directive env.memo with
    | mk result memo =>
      rw [hr] at hread
      cases result with
      | error ds => exact ⟨hsame _ _, by simp [Except.toOption, reportAll]⟩
      | ok route =>
        have hresolve := (hsame memo env.diagnostics).resolve d.element route.tokens 0
        dsimp only
        rw [hresolve]
        cases hn : env.resolve d.element route.tokens 0 with
        | error token =>
          exact ⟨hsame _ _, by simp [Except.toOption, hn, reportUnresolved, report]⟩
        | ok node =>
          have hleads := (resolve_eq_ok_iff hread).mp (hresolve.trans hn)
          have hlt : node < env.tree.size := hleads.lt hread.toWellFormed hread.tree.root_lt
          have hnone : (env.tree.node node).aliasOf = none :=
            hleads.aliasOf hread.toWellFormed hread.tree.root_aliasOf
          have hbinds := binds_bind hlt hnone memo role d.element
          exact ⟨hbinds.alike, by simp [Except.toOption, hn, hbinds.bindings]⟩

/-! ## Several bindings -/

/-- Each binding of a list records what it records in the environment before the first of them. -/
theorem foldl_bindElement_adds (names : TypeNames) (henv : env.Orderly) (ds : List Declaration) :
    env.Alike (ds.foldl (bindElement names) env) ∧
      (ds.foldl (bindElement names) env).bindings =
        env.bindings ++ ds.filterMap (env.boundBy names) := by
  induction ds generalizing env with
  | nil => exact ⟨.refl env, by simp⟩
  | cons d rest ih =>
    obtain ⟨halike, hadds⟩ := bindElement_adds names henv d
    obtain ⟨halike', hadds'⟩ := ih ((bindElement_steps names henv.toWellFormed d).orderly henv)
    have hsame : (bindElement names env d).boundBy names = env.boundBy names :=
      funext (halike.boundBy names)
    refine ⟨halike.trans halike', ?_⟩
    rw [List.foldl_cons, hadds', hadds, hsame, List.append_assoc, List.filterMap_cons]
    cases env.boundBy names d <;> rfl

end CommandTree.Environment
