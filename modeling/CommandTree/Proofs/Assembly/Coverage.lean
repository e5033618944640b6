import CommandTree.Proofs.Assembly.Growth
import CommandTree.Proofs.Tree.Commands

/-!
# Scopes cover the tree

A scope is a forest inside the tree (`Scope.Forest`): it lists each of its nodes after the node's
parent, and it starts with a top-level command. A node enters a scope only after its parent, so
each step of assembling keeps that order (`Step.topDown`).

Together the scopes have every command of the tree. No step keeps this by itself, since a command is
made before it enters a scope: in between, it is *pending* (`Covered`). A walk that is cut short
leaves nothing pending (`Ready.covered_walk`).
-/

namespace CommandTree

namespace Scope

/-- Each node is listed after its parent, unless that is the root. -/
def TopDown (tree : Tree) (s : Scope) : Prop :=
  ∀ before n after, s.nodes = before ++ n :: after →
    ∃ p, (tree.node n).parent = some p ∧ (p = 0 ∨ p ∈ before)

theorem topDown_ofSite (tree : Tree) (site : Element) : (ofSite site).TopDown tree := by
  simp [TopDown, ofSite]

/-- A scope that parents enter first stays so if the parent of a new node is there. -/
theorem TopDown.add {tree : Tree} {s : Scope} (hs : s.TopDown tree) {node p : Nat}
    (hparent : (tree.node node).parent = some p) (hp : p = 0 ∨ p ∈ s.nodes) (isCommand : Bool) :
    (s.add node isCommand).TopDown tree := by
  intro before n after hnodes
  unfold Scope.add insertLast at hnodes
  dsimp only at hnodes
  split at hnodes
  · exact hs before n after hnodes
  · -- the node at hand is the new one, or it is split off before the new one
    rcases List.eq_nil_or_concat after with rfl | ⟨after, last, rfl⟩
    · obtain ⟨rfl, hlast⟩ := List.append_inj' hnodes rfl
      obtain rfl := List.singleton_inj.mp hlast
      exact ⟨p, hparent, hp⟩
    · rw [List.concat_eq_append, ← List.cons_append, ← List.append_assoc] at hnodes
      exact hs before n after (List.append_inj' hnodes rfl).1

theorem TopDown.extends {t t' : Tree} {s : Scope} (hs : s.TopDown t) (ht : t.WellFormed)
    (h : t.Extends t') : s.TopDown t' := by
  intro before n after hnodes
  obtain ⟨p, hp, hbefore⟩ := hs before n after hnodes
  exact ⟨p, by rw [h.parent (ht.parent_lt hp).2.1, hp], hbefore⟩

/-- The first node of a scope is a top-level command. -/
theorem Rooted.commands_ne_nil {tree : Tree} {s : Scope} (hs : s.Rooted tree)
    (htop : s.TopDown tree) (hne : s.nodes ≠ []) : s.commands ≠ [] := by
  obtain ⟨first, rest, hnodes⟩ := List.exists_cons_of_ne_nil hne
  obtain ⟨p, hp, hroot⟩ := htop [] first rest hnodes
  obtain rfl : p = 0 := by simpa using hroot
  have hfirst : first ∈ s.commands := by
    rw [hs.commands, List.mem_filter]
    exact ⟨by simp [hnodes], by simp [hp]⟩
  exact List.ne_nil_of_mem hfirst

/-- The scope is made of commands of the tree, from top-level commands down. -/
structure Forest (tree : Tree) (s : Scope) : Prop where
  nodup : s.nodes.Nodup
  command : ∀ {n}, n ∈ s.nodes → n ∈ tree.commands
  topDown : s.TopDown tree
  commands : s.commands = s.nodes.filter fun n => (tree.node n).parent == some 0
  commands_ne_nil : s.commands ≠ []

end Scope

open Namespace (Token)

namespace Environment

variable {env env' : Environment}

/-! ## Parents come first -/

/-- A step keeps scopes that parents enter first. -/
theorem Step.topDown (h : Step env env') (henv : env.WellFormed)
    (htop : ∀ s ∈ env.scopes, s.TopDown env.tree) : ∀ s ∈ env'.scopes, s.TopDown env'.tree := by
  have htree := (h.extends henv).tree
  cases h with
  | enterScope hnone hparent hp =>
    intro s hs
    rcases henv.mem_enterScope hnone hp hs with hs | ⟨old, rfl, hold | rfl, hmem⟩
    · exact htop s hs
    · exact (htop old hold).add hparent hmem _
    · exact (Scope.topDown_ofSite _ _).add hparent hmem _
  | _ => exact fun s hs => (htop s hs).extends henv.tree htree

theorem Steps.topDown (h : env.Steps env') (henv : env.WellFormed)
    (htop : ∀ s ∈ env.scopes, s.TopDown env.tree) : ∀ s ∈ env'.scopes, s.TopDown env'.tree := by
  induction h with
  | refl => exact htop
  | tail hsteps hstep ih => exact hstep.topDown (Steps.wellFormed hsteps henv) ih

/-- The scopes of an assembled environment are forests. -/
theorem Assembled.forest (henv : Assembled env) : ∀ s ∈ env.scopes, s.Forest env.tree := by
  have hwf := henv.sound.toWellFormed
  have hall : ∀ s ∈ env.scopes, s.TopDown env.tree ∧ s.nodes ≠ [] := by
    induction henv with
    | empty => simp [Environment.empty]
    | declare henv names ds ih =>
      have hold := henv.sound.toWellFormed
      have hsteps := declare_steps names hold ds
      exact fun s hs => ⟨hsteps.topDown hold (fun s hs => (ih hold s hs).1) s hs,
        hsteps.scopes_ne_nil (fun s hs => (ih hold s hs).2) s hs⟩
  intro s hs
  obtain ⟨htop, hne⟩ := hall s hs
  have hrooted := hwf.rooted hs
  refine ⟨hrooted.nodup, fun hn => ?_, htop, hrooted.commands, hrooted.commands_ne_nil htop hne⟩
  obtain ⟨hpos, hlt⟩ := hwf.node_lt hs hn
  exact Tree.mem_commands.mpr ⟨hpos, hlt, hrooted.aliasOf hn⟩

/-! ## Every command is in a scope -/

/-- Every command of the tree but a pending one is in a scope. -/
def Covered (env : Environment) (pending : Option Nat) : Prop :=
  ∀ n ∈ env.tree.commands, pending = some n ∨ ∃ s ∈ env.scopes, n ∈ s.nodes

/-- An environment that grows without a new command. -/
theorem Covered.grows {pending : Option Nat} (h : env.Covered pending) (hgrows : env.Grows env')
    (hcommands : env'.tree.commands = env.tree.commands) : env'.Covered pending := by
  intro n hn
  rw [hcommands] at hn
  refine (h n hn).imp_right ?_
  rintro ⟨s, hs, hmem⟩
  obtain ⟨s', hs', hext⟩ := hgrows.scope hs
  exact ⟨s', hs', hext.nodes.subset hmem⟩

theorem Covered.enterScope {node : Nat} (h : env.Covered (some node))
    (hnone : (env.tree.node node).aliasOf = none) (site : Element) :
    (env.enterScope site node).Covered none := by
  intro n hn
  rcases h n hn with hpending | ⟨s, hs, hmem⟩
  · obtain rfl := Option.some.inj hpending
    have hentered : (env.enterScope site node).InScope site node := inScope_enterScope_self hnone
    obtain ⟨s, hs, -, hmem⟩ := hentered
    exact Or.inr ⟨s, hs, hmem⟩
  · obtain ⟨s', hs', hext⟩ := Scope.exists_mem_enter hs
    exact Or.inr ⟨s', hs', hext.nodes.subset hmem⟩

theorem commands_meet (env : Environment) (site : Element) (text : String) (token : Token)
    (detail : Detail) (existing : Nat) :
    (env.meet site text token detail existing).1.tree.commands = env.tree.commands := by
  rcases env.meet_cases site text token detail existing with
    ⟨-, message, heq⟩ | ⟨-, ⟨-, heq⟩ | ⟨info, -, ⟨message, heq⟩ | ⟨-, heq⟩⟩⟩
  · rw [heq]
    rfl
  · rw [heq]
  · rw [heq]
    exact Tree.commands_mergeArgument _ _ _
  · rw [heq]
    exact Tree.commands_mergeArgument _ _ _

/-- Giving other names makes no command. -/
theorem commands_foldl_addAlias (site : Element) (text : String) (token : Token) (node : Nat)
    (words : List String) (env : Environment) :
    (words.foldl (addAlias site text token node) env).tree.commands = env.tree.commands := by
  induction words generalizing env with
  | nil => rfl
  | cons word rest ih =>
    rw [List.foldl_cons, ih, addAlias]
    rcases env.tree.addAlias_cases node word with
      ⟨heq, -⟩ | ⟨_, _, -, -, heq⟩ | ⟨p, -, -, heq⟩
    · rw [heq]
    · rw [heq]
      rfl
    · rw [heq]
      exact Tree.commands_pushEntry _ _ _ _

namespace Ready

variable {site : Element} {info : Option ArgumentInfo} {token : Token} {rest : List Token}
  {parent : Nat}

/-- The node that is reached may be one that is in no scope yet. -/
theorem covered_reach (h : Ready site info (token :: rest) parent env) (hcov : env.Covered none)
    (text : String) :
    (env.reach site text parent token (detailOf info token rest)).1.Covered
      (env.reach site text parent token (detailOf info token rest)).2 := by
  have hgrows := (h.reach_steps text).1.grows h.wellFormed
  intro n hn
  cases hfind : env.tree.find parent token.identity.name with
  | some existing =>
    simp only [reach, hfind] at hgrows hn ⊢
    have hmeet := hcov.grows hgrows (commands_meet _ _ _ _ _ _)
    exact Or.inr ((hmeet n hn).resolve_left (by simp))
  | none =>
    simp only [reach, hfind] at hn ⊢
    rw [Tree.commands_insert h.wellFormed.tree, List.mem_append, List.mem_singleton] at hn
    rcases hn with hn | rfl
    · exact Or.inr ((hcov n hn).resolve_left (by simp))
    · exact Or.inl rfl

/-- What is pending after a token is settled before the next. -/
theorem covered_walk (text : String) (tokens : List Token) :
    ∀ {parent : Nat} {env : Environment}, Ready site info tokens parent env → env.Covered none →
      (walk site text info tokens parent env).1.Covered none := by
  induction tokens with
  | nil => exact fun _ hcov => hcov
  | cons token rest ih =>
    intro parent env h hcov
    have hreached := h.covered_reach hcov text
    rw [walk]
    cases hr : env.reach site text parent token (detailOf info token rest) with
    | mk env₁ result =>
      rw [hr] at hreached
      cases result with
      | none => exact hreached
      | some node =>
        obtain ⟨hsteps, hstands, hsettle, hnext⟩ := h.next hr
        have h₁ := hsteps.wellFormed h.wellFormed
        have halias := foldl_addAlias_steps h₁ site text token hstands token.aliases
          (h.aliased token List.mem_cons_self) (h.names token List.mem_cons_self).2
        have hpending := hreached.grows (halias.grows h₁) (commands_foldl_addAlias _ _ _ _ _ _)
        have hnode := hstands.extends h₁ (halias.extends h₁)
        exact ih hnext (hpending.enterScope hnode.aliasOf site)

end Ready

/-- Merging a structural declaration leaves no command without a scope. -/
theorem covered_place (henv : env.WellFormed) (hcov : env.Covered none) (d : Declaration) :
    (env.place d).Covered none := by
  obtain ⟨memo, -, ⟨added, -, heq⟩ | ⟨route, -, hready, heq⟩⟩ := place_eq henv d
  · rw [heq]
    exact hcov
  · rw [heq]
    exact hready.covered_walk _ _ hcov

theorem covered_bindElement (hcov : env.Covered none) (names : TypeNames) (d : Declaration) :
    (bindElement names env d).Covered none := by
  rcases bindElement_eq names env d with ⟨_, _, heq⟩ | ⟨memo, _, _, heq⟩
  · rw [heq]
    exact hcov
  · have hread : Covered { env with memo } none := hcov
    rw [heq]
    exact hread.grows (grows_bind _ _ _ _) (Tree.commands_bind _ _ _)

/-- Each command of an assembled environment is in a scope. -/
theorem Assembled.covered (henv : Assembled env) : env.Covered none := by
  induction henv with
  | empty => simp [Covered, Environment.empty, Tree.commands]
  | declare henv names ds ih =>
    exact declare_induction covered_place (fun hcov d => covered_bindElement hcov names d)
      henv.sound.toWellFormed ih ds

/-- The scopes are forests that cover the tree, and each binding is inside the scope of its
element. -/
theorem Assembled.scopes_cover (henv : Assembled env) :
    (∀ s ∈ env.scopes, s.Forest env.tree) ∧
      (∀ n ∈ env.tree.commands, ∃ s ∈ env.scopes, n ∈ s.nodes) ∧
      ∀ b ∈ env.bindings, ∃ s, env.scope? b.site.scope = some s ∧ s.contains b.node = true := by
  refine ⟨henv.forest, fun n hn => (henv.covered n hn).resolve_left (by simp), fun b hb => ?_⟩
  obtain ⟨s, hs, hname, hn⟩ := henv.sound.sited hb
  exact ⟨s, henv.sound.toWellFormed.scope?_eq_some hs hname, by simpa [Scope.contains] using hn⟩

/-- Two types share a literal that has an alias entry. A walk of the second type is cut short below
it, by the argument that the first type has there. -/
theorem teleport_scopes_cover :
    let run : Element := { owner := some "Teleport", name := "run", kind := .method }
    let home : Element := { owner := some "Home", name := "run", kind := .method }
    let env := ofDeclarations {} [⟨run, .literal ["teleport"] ["tp"]⟩,
      ⟨run, .argument ["tp", "player"] "Player" none⟩, ⟨home, .bind "teleport home"⟩,
      ⟨home, .literal ["tp", "player", "now"] []⟩, ⟨home, .command "tp home"⟩]
    env.tree.commands = [1, 3, 4] ∧ env.scopes.map (·.nodes) = [[1, 3], [1, 4]] ∧
      env.diagnostics.length = 1 ∧ env.bindings.map (·.node) = [4] ∧
      (∀ s ∈ env.scopes, s.Forest env.tree) ∧
      (∀ n ∈ env.tree.commands, ∃ s ∈ env.scopes, n ∈ s.nodes) ∧
      ∀ b ∈ env.bindings, ∃ s, env.scope? b.site.scope = some s ∧ s.contains b.node = true := by
  intro run home env
  have hcommands : env.tree.commands = [1, 3, 4] := by decide +kernel
  have hnodes : env.scopes.map (·.nodes) = [[1, 3], [1, 4]] := by decide +kernel
  have hdiagnostics : env.diagnostics.length = 1 := by decide +kernel
  have hbindings : env.bindings.map (·.node) = [4] := by decide +kernel
  exact ⟨hcommands, hnodes, hdiagnostics, hbindings,
    (assembled_ofDeclarations {} _).scopes_cover⟩

end Environment

end CommandTree
