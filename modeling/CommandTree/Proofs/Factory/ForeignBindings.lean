import CommandTree.Factory.Print
import CommandTree.Proofs.Assembly.Bindings
import CommandTree.Proofs.Assembly.Interleaving
import CommandTree.Proofs.Factory.Emission

/-!
# Bindings of other types

The factory of a type reads the tree, the type's scope and the bindings by elements of the type, and
nothing else (`Alike.ofScope`). Bindings by elements of other types may be on the same nodes and
stand between those of the type, so that these have other handles. They change neither the tree nor
the scope, and what is left without them is in the same order (`ofDeclarations_foreign`). So the
factory is written in the same lines with and without them.
-/

namespace CommandTree

/-- What nothing is kept of for one of two lists is kept for the other alone. -/
theorem Interleaves.filterMap_eq {α β : Type} {as bs all : List α} (h : Interleaves as bs all)
    {f : α → Option β} (hf : ∀ b ∈ bs, f b = none) : all.filterMap f = as.filterMap f := by
  induction h with
  | nil => rfl
  | left a _ ih => rw [List.filterMap_cons, List.filterMap_cons, ih hf]
  | right b _ ih =>
    rw [List.forall_mem_cons] at hf
    rw [List.filterMap_cons_none hf.1, ih hf.2]

theorem Interleaves.filter_eq {α : Type} {as bs all : List α} (h : Interleaves as bs all)
    {p : α → Bool} (hp : ∀ b ∈ bs, p b = false) : all.filter p = as.filter p := by
  have hnone : ∀ b ∈ bs, Option.guard p b = none := fun b hb => by simp [Option.guard, hp b hb]
  simpa only [List.filterMap_eq_filter] using h.filterMap_eq hnone

namespace Environment

/-- The bindings by elements of a type. -/
def bindingsBy (env : Environment) (type : String) : List Binding :=
  env.bindings.filter (·.site.scope == type)

/-- A factory has a binding if one by an element of its scope is on a node of the scope. -/
theorem hasBinding_eq (env : Environment) (s : Scope) :
    Factory.hasBinding env s = (env.bindingsBy s.name).any fun b => s.contains b.node := by
  rw [Factory.hasBinding, bindingsBy, List.any_filter]

/-! ## What a factory reads -/

namespace Alike

variable {env env' : Environment} (h : env.Alike env')

include h

theorem builtChildren (s : Scope) :
    Factory.builtChildren env'.tree s = Factory.builtChildren env.tree s := by
  funext id
  simp only [Factory.builtChildren, Factory.isBuilt, Node.isAlias, (h.links _).children,
    (h.links _).aliasOf, h.size]

theorem branch (s : Scope) : Factory.branch env'.tree s = Factory.branch env.tree s := by
  funext id
  induction id using Factory.branch.induct env.tree s with
  | case1 id ih =>
    rw [Factory.branch_eq, Factory.branch_eq, h.builtChildren, List.map_congr_left ih]

variable (henv : env.WellFormed) (henv' : env'.WellFormed) {s : Scope}
  (hown : env'.bindingsBy s.name = env.bindingsBy s.name)

include henv henv' hown

theorem bound (id : Nat) : Factory.bound env' s id = Factory.bound env s id := by
  unfold Factory.bound
  rw [henv'.bindingsOf_eq_filter, henv.bindingsOf_eq_filter, h.primary, List.filter_comm]
  exact (congrArg (List.filter _) hown).trans (List.filter_comm ..)

/-- A node is built from the bindings by elements of the scope only. -/
theorem buildNode : Factory.buildNode env' s = Factory.buildNode env s := by
  funext id
  have hbound := h.bound henv henv' hown id
  have hboundAs : Factory.boundAs env' s id = Factory.boundAs env s id := by
    funext role
    rw [Factory.boundAs, Factory.boundAs, hbound]
  have hcommon : Factory.commonCalls env' s id = Factory.commonCalls env s id := by
    rw [Factory.commonCalls, Factory.commonCalls, hboundAs]
  have hliteral : Factory.buildLiteral env' s id = Factory.buildLiteral env s id := by
    simp only [Factory.buildLiteral, hbound, hcommon, h.path, (h.links id).identity,
      (h.links id).aliases]
  have hargument : Factory.buildArgument env' s id = Factory.buildArgument env s id := by
    funext info
    simp only [Factory.buildArgument, hboundAs, hcommon, h.path, h.origin, (h.links id).identity]
  rw [Factory.buildNode, Factory.buildNode, h.detail, hliteral, hargument]

/-- A factory depends on the tree, its scope and the bindings by the scope's own elements. -/
theorem ofScope (hs : s ∈ env.scopes) (name : String) :
    Factory.ofScope env' s name = Factory.ofScope env s name := by
  have hbuild := h.buildNode henv henv' hown
  have hfault : Factory.fault? env' s = Factory.fault? env s := by
    funext id
    rw [Factory.fault?, Factory.fault?, hbuild]
  have hplan : Factory.plan env' s = Factory.plan env s := by
    funext id
    rw [Factory.plan, Factory.plan, hbuild]
  have horder : Factory.buildOrder env'.tree s = Factory.buildOrder env.tree s := by
    simp only [Factory.buildOrder, Factory.orderOf, h.branch]
  have hvar : Factory.varOf env'.tree s = Factory.varOf env.tree s := by
    unfold Factory.varOf
    rw [horder]
  have hstatements : Factory.statementsOf env' s = Factory.statementsOf env s := by
    funext id
    rw [Factory.statementsOf, Factory.statementsOf, hplan, h.builtChildren]
  have hbody : Factory.bodyOf env' s = Factory.bodyOf env s := by
    simp only [Factory.bodyOf, Factory.forestScript, Factory.script, hstatements, h.branch,
      hvar]
  rw [Factory.ofScope_eq henv hs fun _ => name,
    Factory.ofScope_eq henv' (h.scopes ▸ hs) fun _ => name, horder, hfault, Factory.factoryOf,
    Factory.factoryOf, hbody, hasBinding_eq, hasBinding_eq, hown]

end Alike

/-! ## What bindings of other types leave alone -/

/-- Bindings by elements of other types change neither the tree nor the scopes, nor the bindings by
elements of the type. -/
theorem ofDeclarations_foreign (settings : Settings) {type : String}
    {ds binds all : List Declaration} (hall : Interleaves ds binds all)
    (hbinds : ∀ d ∈ binds, d.directive.isStructural = false ∧ d.element.scope ≠ type) :
    (ofDeclarations settings ds).Alike (ofDeclarations settings all) ∧
      (ofDeclarations settings all).bindingsBy type =
        (ofDeclarations settings ds).bindingsBy type := by
  have hstructural := hall.filter_eq (p := (·.directive.isStructural)) fun d hd => (hbinds d hd).1
  unfold ofDeclarations declare
  dsimp only
  rw [hstructural]
  have horderly := (foldl_steps place_steps (ds.filter (·.directive.isStructural))
    Sound.empty.toWellFormed).orderly .empty
  generalize (ds.filter (·.directive.isStructural)).foldl place empty = placed at horderly
  have hrun := foldl_bindElement_adds settings.types horderly
  refine ⟨(hrun _).1.symm.trans (hrun _).1, ?_⟩
  rw [bindingsBy, bindingsBy, (hrun _).2, (hrun _).2, List.filter_append, List.filter_append,
    List.filter_filterMap, List.filter_filterMap,
    (hall.filter (!·.directive.isStructural)).filterMap_eq]
  intro d hd
  rw [Option.filter_eq_none_iff]
  intro b hb
  rw [site_of_boundBy hb]
  simpa using (hbinds d (List.mem_filter.mp hd).1).2

end Environment

namespace Factory

open Environment (ofDeclarations)

/-- Bindings by elements of other types, wherever they stand, leave a type its scope, and its
factory is written in the same lines, or refused for the same fault. -/
theorem print_of_foreign_bindings (settings : Settings) {type : String}
    {ds binds all : List Declaration} (hall : Interleaves ds binds all)
    (hbinds : ∀ d ∈ binds, (∃ path, d.directive = .bind path) ∧ d.element.scope ≠ type)
    {scope : Scope} (hscope : (ofDeclarations settings ds).scope? type = some scope) :
    (ofDeclarations settings all).scope? type = some scope ∧
      ∀ name sender source,
        (ofScope (ofDeclarations settings all) scope name).map (print sender source) =
          (ofScope (ofDeclarations settings ds) scope name).map (print sender source) := by
  obtain ⟨halike, hown⟩ := Environment.ofDeclarations_foreign settings hall fun d hd => by
    obtain ⟨⟨path, hpath⟩, hne⟩ := hbinds d hd
    exact ⟨by rw [hpath]; rfl, hne⟩
  have hs := List.mem_of_find?_eq_some hscope
  obtain rfl : scope.name = type := by simpa using List.find?_some hscope
  have hsound := fun ds => (Environment.assembled_ofDeclarations settings ds).sound.toWellFormed
  refine ⟨(halike.scope? _).trans hscope, fun name sender source => ?_⟩
  rw [halike.ofScope (hsound ds) (hsound all) hown hs]

/-- The other type binds the same node in the same roles, before the type does and in between. It
also binds a literal as only an argument can be bound, so that it has no factory of its own. -/
theorem teleport_print_of_foreign_bindings :
    let go : Element := { owner := some "Teleport", name := "go", kind := .method }
    let place : Element :=
      { owner := some "Teleport", name := "place", kind := .field "ArgumentType<Place>" }
    let warp : Element := { owner := some "Warp", name := "warp", kind := .method }
    let spot : Element :=
      { owner := some "Warp", name := "spot", kind := .field "ArgumentType<Spot>" }
    let ds : List Declaration :=
      [⟨go, .command "tp <to>"⟩, ⟨warp, .literal ["tp", "home"] []⟩, ⟨warp, .command "tp <to>"⟩,
        ⟨place, .bind "tp <to>"⟩, ⟨go, .bind "tp <to>"⟩]
    let binds : List Declaration :=
      [⟨spot, .bind "tp <to>"⟩, ⟨warp, .bind "tp <to>"⟩, ⟨spot, .bind "tp"⟩,
        ⟨warp, .bind "sethome"⟩]
    let all : List Declaration :=
      [⟨spot, .bind "tp <to>"⟩, ⟨go, .command "tp <to>"⟩, ⟨warp, .literal ["tp", "home"] []⟩,
        ⟨warp, .bind "tp <to>"⟩, ⟨warp, .command "tp <to>"⟩, ⟨place, .bind "tp <to>"⟩,
        ⟨spot, .bind "tp"⟩, ⟨go, .bind "tp <to>"⟩, ⟨warp, .bind "sethome"⟩]
    let env := ofDeclarations {} ds
    let env' := ofDeclarations {} all
    Interleaves ds binds all ∧
      (∀ d ∈ binds, (∃ path, d.directive = .bind path) ∧ d.element.scope ≠ "Teleport") ∧
      env.bindings.map (·.node) = [2, 2] ∧ env'.bindings.map (·.node) = [2, 2, 2, 1, 2] ∧
      ∃ scope factory written, env.scope? "Teleport" = some scope ∧
        ofScope env scope "teleport" = .ok factory ∧ factory.usesSource = true ∧
        factory.print "Sender" .empty = written ∧
        env'.scope? "Teleport" = some scope ∧
        (ofScope env' scope "teleport").map (print "Sender" .empty) = .ok written := by
  intro go place warp spot ds binds all env env'
  have hall : Interleaves ds binds all :=
    .right _ (.left _ (.left _ (.right _ (.left _ (.left _ (.right _ (.left _ (.right _ .nil))))))))
  have hbinds : ∀ d ∈ binds,
      (∃ path, d.directive = .bind path) ∧ d.element.scope ≠ "Teleport" := by
    simp [binds, warp, spot, Element.scope]
  have hscope : env.scope? "Teleport" = some ⟨"Teleport", .ofType "Teleport", [1], [1, 2]⟩ := by
    decide +kernel
  have huses : (ofScope env ⟨"Teleport", .ofType "Teleport", [1], [1, 2]⟩ "teleport").map
      (·.usesSource) = .ok true := by
    decide +kernel
  obtain ⟨hscope', hprint⟩ := print_of_foreign_bindings {} hall hbinds hscope
  refine ⟨hall, hbinds, by decide +kernel, by decide +kernel, ?_⟩
  cases hok : ofScope env ⟨"Teleport", .ofType "Teleport", [1], [1, 2]⟩ "teleport" with
  | error fault => simp [hok, Except.map] at huses
  | ok factory =>
    refine ⟨_, factory, _, hscope, hok, by simpa [hok, Except.map] using huses, rfl, hscope', ?_⟩
    rw [hprint]
    exact congrArg (Except.map _) hok

end Factory

end CommandTree
