import CommandTree.Proofs.Environment.Scopes
import CommandTree.Proofs.Namespace.Memo

/-!
# Well-formed environments

In a *well-formed* environment (`Environment.WellFormed`) the tree is well formed, there is one
scope for each type and it is rooted, the reader's memory is sound, and the bindings are stored
twice in the same way: the handles on a node lead to the bindings that name the node, in the
order of binding, and to no others (`bindingsOf_eq_filter`).

Each operation keeps an environment well formed. Those on the tree do so for one reason: the
tree stays well formed, keeps the links of its nodes and has the same handles on them
(`WellFormed.withTree`).
-/

namespace CommandTree.Environment

/-- The parts of an environment agree. -/
structure WellFormed (env : Environment) : Prop where
  tree : env.tree.WellFormed
  scope_names : (env.scopes.map (·.name)).Nodup
  rooted : ∀ {s}, s ∈ env.scopes → s.Rooted env.tree
  bound_lt : ∀ {b}, b ∈ env.bindings → b.node < env.tree.size
  handle_lt : ∀ {n i}, i ∈ (env.tree.node n).bindings → i < env.bindings.length
  bound : ∀ n, (env.tree.node n).bindings.filterMap (env.bindings[·]?) =
    env.bindings.filter (·.node == n)
  memo : env.memo.Sound

/-- The scope of the element's type has the node. -/
def InScope (env : Environment) (site : Element) (node : Nat) : Prop :=
  ∃ s ∈ env.scopes, s.name = site.scope ∧ node ∈ s.nodes

theorem WellFormed.empty : empty.WellFormed := by
  constructor <;> simp [Environment.empty, Tree.WellFormed.empty, Tree.node_empty, Node.root,
    Namespace.Memo.sound_empty]

namespace WellFormed

variable {env : Environment} (henv : env.WellFormed)

include henv

/-- The handles on a node lead to its bindings. -/
theorem bindingsOf_eq_filter (node : Nat) :
    env.bindingsOf node = env.bindings.filter (·.node == env.tree.primary node) :=
  henv.bound _

/-- The bindings of a node are those that name it. -/
theorem mem_bindingsOf {node : Nat} (h : (env.tree.node node).aliasOf = none) {b : Binding} :
    b ∈ env.bindingsOf node ↔ b ∈ env.bindings ∧ b.node = node := by
  rw [henv.bindingsOf_eq_filter, Tree.primary_of_aliasOf_eq_none h, List.mem_filter, beq_iff_eq]

theorem node_lt {s : Scope} (hs : s ∈ env.scopes) {n : Nat} (hn : n ∈ s.nodes) :
    0 < n ∧ n < env.tree.size := by
  obtain ⟨p, hp, -⟩ := (henv.rooted hs).parent hn
  obtain ⟨hpos, hlt, -⟩ := henv.tree.parent_lt hp
  exact ⟨hpos, hlt⟩

/-- The scope that the element's type has. -/
theorem scope?_eq_some {s : Scope} (hs : s ∈ env.scopes) {name : String} (hname : s.name = name) :
    env.scope? name = some s := by
  unfold scope?
  cases h : env.scopes.find? (·.name == name) with
  | none =>
    have := List.find?_eq_none.mp h s hs
    simp [hname] at this
  | some s' =>
    have hname' : s'.name = name := by simpa using List.find?_some h
    have hmem := List.mem_of_find?_eq_some h
    rw [Scope.eq_of_name_eq henv.scope_names hmem hs (hname'.trans hname.symm)]

/-! ## Operations on the tree -/

/-- A larger tree with the same bindings keeps the environment well formed. -/
theorem withTree {tree : Tree} (htree : tree.WellFormed) (hext : env.tree.Extends tree)
    (hsame : ∀ n, (tree.node n).bindings = (env.tree.node n).bindings) :
    WellFormed { env with tree } := by
  constructor
  case tree => exact htree
  case scope_names => exact henv.scope_names
  case rooted => exact fun hs => (henv.rooted hs).extends henv.tree hext
  case bound_lt => exact fun hb => Nat.lt_of_lt_of_le (henv.bound_lt hb) hext.size_le
  case handle_lt => exact fun hi => henv.handle_lt (hsame _ ▸ hi)
  case bound =>
    intro n
    rw [hsame]
    exact henv.bound n
  case memo => exact henv.memo

theorem grafted {parent : Nat} {new : Node} {tree : Tree}
    (hnew : env.tree.Graftable parent new) (h : env.tree.Grafted parent new tree) :
    WellFormed { env with tree } :=
  henv.withTree (henv.tree.of_grafted hnew h) (h.extends henv.tree) (h.bindings hnew)

theorem mergeArgument (id : Nat) (info : ArgumentInfo) :
    WellFormed { env with tree := (env.tree.mergeArgument id info).1 } :=
  henv.withTree (henv.tree.mergeArgument id info) (Tree.extends_mergeArgument _ _ _)
    (env.tree.bindings_mergeArgument id info)

/-! ## Other operations -/

theorem report (d : Diagnostic) : (env.report d).WellFormed :=
  ⟨henv.tree, henv.scope_names, henv.rooted, henv.bound_lt, henv.handle_lt, henv.bound,
    henv.memo⟩

theorem withMemo {memo : Namespace.Memo} (hmemo : memo.Sound) : WellFormed { env with memo } :=
  ⟨henv.tree, henv.scope_names, henv.rooted, henv.bound_lt, henv.handle_lt, henv.bound, hmemo⟩

/-- A scope after a node has entered: it was there before, or it is that of the element's type with
the node added, and then the node's parent is there or is the root. -/
theorem mem_enterScope {site : Element} {node p : Nat} (hnone : (env.tree.node node).aliasOf = none)
    (hp : p = 0 ∨ env.InScope site p) {s : Scope} (hs : s ∈ (env.enterScope site node).scopes) :
    s ∈ env.scopes ∨ ∃ old : Scope, s = old.add node ((env.tree.node node).parent == some 0) ∧
      (old ∈ env.scopes ∨ old = Scope.ofSite site) ∧ (p = 0 ∨ p ∈ old.nodes) := by
  unfold Environment.enterScope at hs
  rw [Tree.primary_of_aliasOf_eq_none hnone] at hs
  refine (Scope.mem_enter hs).imp_right ?_
  rintro ⟨old, rfl, hname, hold | ⟨rfl, hno⟩⟩
  · refine ⟨old, rfl, Or.inl hold, hp.imp_right ?_⟩
    rintro ⟨s', hs', hname', hmem⟩
    rwa [Scope.eq_of_name_eq henv.scope_names hold hs' (hname.trans hname'.symm)]
  · refine ⟨_, rfl, Or.inr rfl, Or.inl (hp.resolve_right ?_)⟩
    rintro ⟨s', hs', hname', -⟩
    exact hno s' hs' hname'

/-- Entering a scope keeps the environment well formed if the parent of the node is in the scope. -/
theorem enterScope {site : Element} {node p : Nat}
    (hnone : (env.tree.node node).aliasOf = none)
    (hparent : (env.tree.node node).parent = some p) (hp : p = 0 ∨ env.InScope site p) :
    (env.enterScope site node).WellFormed := by
  refine ⟨henv.tree, ?_, ?_, henv.bound_lt, henv.handle_lt, henv.bound, henv.memo⟩
  · unfold Environment.enterScope
    rw [Scope.map_name_enter]
    exact nodup_insertLast henv.scope_names
  · intro s hs
    rcases henv.mem_enterScope hnone hp hs with hs | ⟨old, rfl, hold | rfl, hmem⟩
    · exact henv.rooted hs
    · exact (henv.rooted hold).add hnone hparent hmem
    · exact (Scope.rooted_ofSite _ _).add hnone hparent hmem

/-- An element may be bound to any node that is there. -/
theorem bind {node : Nat} (hlt : node < env.tree.size) (role : Role) (site : Element) :
    (env.bind node role site).WellFormed := by
  have hnone := henv.tree.aliasOf_primary node
  have hlt' := henv.tree.primary_lt hlt
  have hnode := Tree.bindings_bind hlt' hnone env.bindings.length
  unfold Environment.bind
  constructor
  case tree => exact henv.tree.bind _ _
  case scope_names => exact henv.scope_names
  case rooted => exact fun hs => (henv.rooted hs).extends henv.tree (Tree.extends_bind _ _ _)
  case bound_lt =>
    intro b hb
    refine Nat.lt_of_lt_of_le ?_ (Tree.extends_bind _ _ _).size_le
    rcases List.mem_append.mp hb with hb | hb
    · exact henv.bound_lt hb
    · rw [List.mem_singleton.mp hb]
      exact hlt'
  case handle_lt =>
    intro n i hi
    rw [hnode, List.mem_append] at hi
    rw [List.length_append, List.length_singleton]
    rcases hi with hi | hi
    · have := henv.handle_lt hi
      omega
    · split at hi
      · rw [List.mem_singleton.mp hi]
        omega
      · cases hi
  case bound =>
    intro n
    have hkept : (env.tree.node n).bindings.filterMap
        ((env.bindings ++ [⟨env.tree.primary node, role, site⟩])[·]?) =
        env.bindings.filter (·.node == n) := by
      rw [← henv.bound n]
      exact List.filterMap_congr fun i hi => List.getElem?_append_left (henv.handle_lt hi)
    rw [hnode, List.filter_append, List.filterMap_append, hkept]
    by_cases hn : n = env.tree.primary node
    · simp [hn]
    · simp [hn, Ne.symm hn]
  case memo => exact henv.memo

end WellFormed

/-! ## What a growing environment keeps -/

/-- The environment `env'` has the nodes of `env`, in the scopes where they were. -/
structure Extends (env env' : Environment) : Prop where
  tree : env.tree.Extends env'.tree
  inScope : ∀ {site node}, env.InScope site node → env'.InScope site node

theorem Extends.refl (env : Environment) : env.Extends env :=
  ⟨.refl _, id⟩

theorem Extends.trans {env env' env'' : Environment} (h : env.Extends env')
    (h' : env'.Extends env'') : env.Extends env'' :=
  ⟨h.tree.trans h'.tree, fun hin => h'.inScope (h.inScope hin)⟩

theorem inScope_enterScope {env : Environment} {site site' : Element} {node n : Nat}
    (h : env.InScope site' n) : (env.enterScope site node).InScope site' n := by
  obtain ⟨s, hs, hname, hn⟩ := h
  obtain ⟨s', hs', hext⟩ := Scope.exists_mem_enter hs
  exact ⟨s', hs', hext.name.trans hname, hext.nodes.subset hn⟩

/-- A node is in the scope that it has entered. -/
theorem inScope_enterScope_self {env : Environment} {site : Element} {node : Nat}
    (hnone : (env.tree.node node).aliasOf = none) :
    (env.enterScope site node).InScope site node := by
  unfold Environment.enterScope
  rw [Tree.primary_of_aliasOf_eq_none hnone]
  exact Scope.exists_mem_enter_self

end CommandTree.Environment
