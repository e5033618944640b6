import CommandTree.Proofs.Assembly.Steps
import CommandTree.Proofs.Tree.Mirrors

/-!
# Environments that are reached

An environment is *reached* (`Reached`) by adding declarations, binding elements to nodes that are
there and reporting diagnostics, in any order. It is *orderly* (`Orderly`): besides being well
formed, its alias entries mirror their nodes, and each of its nodes but the root has a name. Each
step of assembling keeps an environment orderly (`Step.orderly`).

`Tree.Lawful` lays down what this means for the nodes of a tree and the links between them.
-/

namespace CommandTree

open Namespace (IsName)

theorem Detail.Fits.eq_literal {detail : Detail} (h : detail.Fits .literal) :
    detail = .literal := by
  cases detail <;> trivial

theorem Detail.Fits.argument_iff {detail : Detail} {kind : Kind} (h : detail.Fits kind) :
    (∃ info, detail = .argument info) ↔ kind = .argument := by
  cases detail <;> cases kind <;> simp_all [Detail.Fits]

namespace Tree

/-! ## Names -/

/-- Every node but the root has a name. -/
def Named (t : Tree) : Prop :=
  ∀ id, 0 < id → id < t.size → IsName (t.node id).identity.name

theorem Named.empty : empty.Named := by
  intro id hpos hlt
  rw [size_empty] at hlt
  omega

/-- A new node with a name for a word keeps all nodes so. -/
theorem Named.of_grafted {t t' : Tree} {parent : Nat} {new : Node} (ht : t.Named)
    (h : t.Grafted parent new t') (hname : IsName new.identity.name) : t'.Named := by
  intro id hpos hlt
  rw [h.size] at hlt
  by_cases hid : id = t.size
  · rw [hid, h.node_size]
    exact hname
  · rw [(h.node_of_ne hid).2.2.1]
    exact ht id hpos (by omega)

theorem Named.modify {t : Tree} (ht : t.Named) {target : Nat} {f : Node → Node}
    (hf : ∀ n, SameLinks n (f n)) : (t.modify target f).Named := by
  intro id hpos hlt
  rw [(sameLinks_modify hf id).identity]
  exact ht id hpos (by simpa using hlt)

theorem Named.mergeArgument {t : Tree} (ht : t.Named) (id : Nat) (info : ArgumentInfo) :
    (t.mergeArgument id info).1.Named := by
  unfold Tree.mergeArgument
  dsimp only
  split
  · exact ht.modify fun _ => ⟨rfl, rfl, rfl, rfl, rfl, rfl⟩
  · exact ht

/-! ## The laws of a command tree -/

/-- What holds of the nodes of a command tree. -/
structure Lawful (t : Tree) : Prop where
  /-- There is a root, and no other node is without a parent. -/
  root_lt : 0 < t.size
  root : ∀ {id}, id < t.size → ((t.node id).parent = none ↔ id = 0)
  root_detail : ∀ {id}, id < t.size → ((t.node id).detail = .root ↔ id = 0)
  /-- The parent of a node is older, is no alias entry and has the node under its identity. -/
  parent : ∀ {id}, 0 < id → id < t.size →
    ∃ p, (t.node id).parent = some p ∧ p < id ∧ (t.node p).aliasOf = none ∧
      (t.node p).children.lookup (t.node id).identity = some id
  /-- A child of a node other than an alias entry has its identity there, and that parent. -/
  child : ∀ {p identity c}, (t.node p).aliasOf = none → (identity, c) ∈ (t.node p).children →
    c < t.size ∧ (t.node c).identity = identity ∧ (t.node c).parent = some p
  /-- Siblings differ in their names, whatever their kinds. -/
  siblings : ∀ p, ((t.node p).children.map fun e => (t.node e.2).identity.name).Nodup
  argument : ∀ {id}, 0 < id → id < t.size →
    ((∃ info, (t.node id).detail = .argument info) ↔ (t.node id).identity.kind = .argument)
  /-- Only a literal has aliases, and only a literal is an alias entry. -/
  aliased : ∀ {id}, (t.node id).aliases ≠ [] →
    (t.node id).detail = .literal ∧ (t.node id).identity.kind = .literal
  entry : ∀ {e p}, (t.node e).aliasOf = some p →
    (t.node e).detail = .literal ∧ (t.node e).identity.kind = .literal
  named : ∀ {id}, 0 < id → id < t.size → IsName (t.node id).identity.name

namespace WellFormed

variable {t : Tree} (ht : t.WellFormed)

include ht

/-- Siblings differ in their names, also those that an alias entry shares. -/
theorem nodup_names (p : Nat) :
    ((t.node p).children.map fun e => (t.node e.2).identity.name).Nodup := by
  have key : ∀ q, (t.node q).aliasOf = none →
      ((t.node q).children.map fun e => (t.node e.2).identity.name).Nodup := by
    intro q hq
    have hnames := ht.names q
    rwa [← List.map_congr_left fun e he => congrArg Identity.name (ht.child hq he).2.1] at hnames
  cases h : (t.node p).aliasOf with
  | none => exact key p h
  | some q =>
    obtain ⟨-, hnone, -, hchildren⟩ := ht.mirror h
    rw [hchildren]
    exact key q hnone

/-- A well-formed tree whose entries mirror their nodes and whose names can be read is lawful. -/
theorem lawful (hmirrored : t.Mirrored) (hnamed : t.Named) : t.Lawful := by
  have hfits : ∀ {id}, 0 < id → id < t.size →
      (t.node id).detail.Fits (t.node id).identity.kind := ht.detail
  have hliteral : ∀ {id}, 0 < id → id < t.size → (t.node id).identity.kind = .literal →
      (t.node id).detail = .literal := fun hpos hlt hkind =>
    Detail.Fits.eq_literal (hkind ▸ hfits hpos hlt)
  constructor
  case root_lt => exact ht.root_lt
  case root =>
    intro id hlt
    refine ⟨fun hnone => ?_, fun h => h ▸ ht.root_parent⟩
    by_contra hid
    obtain ⟨p, hp, -⟩ := ht.parent (Nat.pos_of_ne_zero hid) hlt
    rw [hnone] at hp
    cases hp
  case root_detail =>
    intro id hlt
    refine ⟨fun hroot => ?_, fun h => h ▸ ht.root_detail⟩
    by_contra hid
    have := hfits (Nat.pos_of_ne_zero hid) hlt
    rw [hroot] at this
    exact this
  case parent =>
    intro id hpos hlt
    obtain ⟨p, hp, hlt', hnone⟩ := ht.parent hpos hlt
    exact ⟨p, hp, hlt', hnone, ht.lookup_eq_some_iff.mpr (ht.listed hp)⟩
  case child => exact ht.child
  case siblings => exact ht.nodup_names
  case argument => exact fun hpos hlt => (hfits hpos hlt).argument_iff
  case aliased =>
    intro id hne
    have hpos : 0 < id := by
      rcases Nat.eq_zero_or_pos id with rfl | hpos
      · have hnames := hmirrored.names 0
        rw [ht.entries_root] at hnames
        exact absurd (by simpa using hnames.symm) hne
      · exact hpos
    have hlt : id < t.size := lt_size_of_ne_root fun heq => by simp [heq, Node.root] at hne
    exact ⟨hliteral hpos hlt (ht.aliases hne), ht.aliases hne⟩
  case entry =>
    intro e p hal
    have hkind := hmirrored.kind_of_aliasOf hal
    have hpos : 0 < e := by
      rcases Nat.eq_zero_or_pos e with rfl | hpos
      · simp [ht.root_aliasOf] at hal
      · exact hpos
    exact ⟨hliteral hpos (hmirrored.aliasOf_lt hal).1 hkind, hkind⟩
  case named => exact hnamed _

end WellFormed

end Tree

namespace Environment

/-! ## What every step keeps -/

/-- A well-formed environment whose alias entries mirror their nodes and whose nodes have names. -/
structure Orderly (env : Environment) : Prop extends env.WellFormed where
  mirrored : env.tree.Mirrored
  named : env.tree.Named

theorem Orderly.empty : empty.Orderly :=
  ⟨.empty, .empty, .empty⟩

theorem Orderly.bind {env : Environment} (henv : env.Orderly) {node : Nat}
    (hlt : node < env.tree.size) (role : Role) (site : Element) :
    (env.bind node role site).Orderly :=
  ⟨henv.toWellFormed.bind hlt role site, henv.mirrored.bind _ _,
    henv.named.modify fun _ => ⟨rfl, rfl, rfl, rfl, rfl, rfl⟩⟩

theorem Orderly.report {env : Environment} (henv : env.Orderly) (d : Diagnostic) :
    (env.report d).Orderly :=
  ⟨henv.toWellFormed.report d, henv.mirrored, henv.named⟩

/-- A step keeps the environment in order. -/
theorem Step.orderly {env env' : Environment} (h : Step env env') (henv : env.Orderly) :
    env'.Orderly := by
  have hwf := h.wellFormed henv.toWellFormed
  cases h with
  | remember _ => exact ⟨hwf, henv.mirrored, henv.named⟩
  | report _ _ => exact ⟨hwf, henv.mirrored, henv.named⟩
  | insert h hname =>
    exact ⟨hwf, henv.mirrored.insert h.parent_lt _ _ _,
      henv.named.of_grafted (Tree.grafted_insert henv.tree h) hname⟩
  | merge id info =>
    exact ⟨hwf, henv.mirrored.mergeArgument id info, henv.named.mergeArgument id info⟩
  | pushEntry h hid hword =>
    rcases h.stands with ⟨hnone, -⟩ | ⟨id', hid', hnone, -⟩
    · cases hnone
    · obtain rfl := Option.some.inj hid'
      exact ⟨hwf, henv.mirrored.pushEntry hnone hid _,
        henv.named.of_grafted (Tree.grafted_pushEntry henv.tree h hid) hword⟩
  | enterScope _ _ _ => exact ⟨hwf, henv.mirrored, henv.named⟩
  | bind role h => exact henv.bind (henv.lt_of_inScope h).2 role _

theorem Steps.orderly {env env' : Environment} (h : env.Steps env') (henv : env.Orderly) :
    env'.Orderly := by
  induction h with
  | refl => exact henv
  | tail _ hstep ih => exact hstep.orderly ih

/-! ## Environments that are reached -/

/-- The environments that are reached by adding declarations, binding elements to nodes that are
there and reporting diagnostics. -/
inductive Reached : Environment → Prop
  | empty : Reached empty
  | declare {env : Environment} (h : Reached env) (names : TypeNames) (ds : List Declaration) :
      Reached (env.declare names ds)
  | bind {env : Environment} (h : Reached env) {node : Nat} (hnode : node < env.tree.size)
      (role : Role) (site : Element) : Reached (env.bind node role site)
  | report {env : Environment} (h : Reached env) (d : Diagnostic) : Reached (env.report d)

/-- An environment that calls have reached is in order. -/
theorem Reached.orderly {env : Environment} (h : Reached env) : env.Orderly := by
  induction h with
  | empty => exact .empty
  | declare _ names ds ih => exact (declare_steps names ih.toWellFormed ds).orderly ih
  | bind _ hnode role site ih => exact ih.bind hnode role site
  | report _ d ih => exact ih.report d

/-- An assembled environment is one that calls have reached. -/
theorem Assembled.reached {env : Environment} (h : Assembled env) : Reached env := by
  induction h with
  | empty => exact .empty
  | declare _ names ds ih => exact ih.declare names ds

/-- The tree of an environment that is reached keeps the laws of a command tree. -/
theorem Reached.tree_lawful {env : Environment} (h : Reached env) : env.tree.Lawful :=
  h.orderly.tree.lawful h.orderly.mirrored h.orderly.named

/-- A literal with an alias and an argument below it, an element bound to the root, and a
warning. -/
def shortTeleport : Environment :=
  let element : Element := { owner := some "Teleport", name := "run", kind := .method }
  ((empty.declare {} [⟨element, .literal ["teleport"] ["tp"]⟩,
    ⟨element, .argument ["tp", "player"] "Player" none⟩]).bind 0 .execution element).report
      (.ofWarning .unexecuted element "not executed")

theorem shortTeleport_tree_lawful :
    shortTeleport.tree.size = 4 ∧ (shortTeleport.tree.node 3).parent = some 1 ∧
      shortTeleport.tree.Lawful := by
  have hsize : shortTeleport.tree.size = 4 := by decide +kernel
  have hparent : (shortTeleport.tree.node 3).parent = some 1 := by decide +kernel
  have hreached : shortTeleport.Reached :=
    .report (.bind (.declare .empty {} _) (by decide +kernel) .execution _) _
  exact ⟨hsize, hparent, hreached.tree_lawful⟩

end Environment

end CommandTree
