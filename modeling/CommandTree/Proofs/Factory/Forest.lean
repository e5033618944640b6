import CommandTree.Factory.Branch
import CommandTree.Proofs.Environment.WellFormed
import Mathlib.Data.List.Nodup

/-!
# The forest of a scope

The branches below the top-level commands of a scope are a forest. If the scope is rooted in a
well-formed tree, the forest has every node of the scope exactly once (`perm_nodes`), and the
children of each of its nodes are those children in the tree that the scope has, in their order
and without alias entries (`follows_branch`).

`Below` is what the nodes of a branch have in common. Two siblings have no node below them in
common, since a node below both would put one sibling below the other.
-/

namespace CommandTree.Factory

namespace Branch

/-- The node at the top of a branch. -/
def id : Branch → Nat
  | .node id _ => id

mutual

/-- The nodes of a branch, each behind the nodes below it. -/
def order : Branch → List Nat
  | .node id children => orders children ++ [id]

/-- The nodes of several branches. -/
def orders : List Branch → List Nat
  | [] => []
  | first :: rest => order first ++ orders rest

end

theorem orders_eq_flatMap (bs : List Branch) : orders bs = bs.flatMap order := by
  induction bs with
  | nil => rfl
  | cons first rest ih => rw [orders, ih, List.flatMap_cons]

end Branch

open Branch (order orders)

variable {tree : Tree} {scope : Scope}

/-- The branch of a node has the branches of its children. -/
theorem branch_eq (tree : Tree) (scope : Scope) (id : Nat) :
    branch tree scope id = .node id ((builtChildren tree scope id).map (branch tree scope)) := by
  rw [branch]
  simp

@[simp] theorem id_branch (id : Nat) : (branch tree scope id).id = id := by
  rw [branch_eq]
  rfl

/-- The nodes of the branches below several nodes, in the order in which they are built. -/
def orderOf (tree : Tree) (scope : Scope) (ids : List Nat) : List Nat :=
  ids.flatMap fun id => (branch tree scope id).order

theorem mem_orderOf {ids : List Nat} {n : Nat} :
    n ∈ orderOf tree scope ids ↔ ∃ id ∈ ids, n ∈ (branch tree scope id).order :=
  List.mem_flatMap

@[simp] theorem orderOf_singleton (id : Nat) :
    orderOf tree scope [id] = (branch tree scope id).order :=
  List.flatMap_singleton _ _

theorem orderOf_append (ids ids' : List Nat) :
    orderOf tree scope (ids ++ ids') = orderOf tree scope ids ++ orderOf tree scope ids' :=
  List.flatMap_append

/-- A node comes behind everything below it. -/
theorem order_branch (id : Nat) : (branch tree scope id).order =
    orderOf tree scope (builtChildren tree scope id) ++ [id] := by
  rw [branch_eq, order, Branch.orders_eq_flatMap, List.flatMap_map]
  rfl

/-! ## Children that are built -/

/-- The children that are built are nodes of the scope and no alias entries. -/
theorem mem_nodes_of_mem_builtChildren {id c : Nat} (h : c ∈ builtChildren tree scope id) :
    c ∈ scope.nodes ∧ (tree.node c).aliasOf = none := by
  have hc := (List.mem_filter.mp h).2
  simp only [isBuilt, Node.isAlias, Scope.contains, Bool.and_eq_true] at hc
  exact ⟨by simpa using hc.1.1.2, by simpa using hc.1.1.1⟩

/-- The children that are built are below the node in the tree. -/
theorem parent_of_mem_builtChildren (ht : tree.WellFormed) {id c : Nat}
    (hid : (tree.node id).aliasOf = none) (h : c ∈ builtChildren tree scope id) :
    (tree.node c).parent = some id := by
  obtain ⟨⟨identity, c'⟩, hmem, rfl⟩ := List.mem_map.mp (List.mem_filter.mp h).1
  exact (ht.child hid hmem).2.2

/-- The children that the scope has are later than their parent, and there. -/
theorem builtChildren_eq_filter (ht : tree.WellFormed) {id : Nat}
    (hid : (tree.node id).aliasOf = none) :
    builtChildren tree scope id =
      ((tree.node id).children.map (·.2)).filter (isBuilt tree scope) := by
  unfold builtChildren
  refine List.filter_congr fun c hc => ?_
  obtain ⟨⟨identity, c'⟩, hmem, rfl⟩ := List.mem_map.mp hc
  obtain ⟨hlt, -, hparent⟩ := ht.child hid hmem
  have hid' := (ht.parent_lt hparent).2.2.1
  simp [hlt, hid']

theorem nodup_builtChildren (ht : tree.WellFormed) {id : Nat}
    (hid : (tree.node id).aliasOf = none) : (builtChildren tree scope id).Nodup :=
  (ht.nodup_children id hid).filter _

/-- A node is built under its parent. -/
theorem mem_builtChildren_of_parent (ht : tree.WellFormed) (hs : scope.Rooted tree) {id c : Nat}
    (hc : c ∈ scope.nodes) (hparent : (tree.node c).parent = some id) :
    c ∈ builtChildren tree scope id := by
  obtain ⟨-, -, -, hid⟩ := ht.parent_lt hparent
  rw [builtChildren_eq_filter ht hid, List.mem_filter]
  refine ⟨List.mem_map.mpr ⟨_, ht.listed hparent, rfl⟩, ?_⟩
  simp [isBuilt, Node.isAlias, hs.aliasOf hc, Scope.contains, hc]

/-! ## Nodes below a node -/

/-- The node can be reached from `r` through children that are built. -/
inductive Below (tree : Tree) (scope : Scope) (r : Nat) : Nat → Prop
  | self : Below tree scope r r
  | child {p c : Nat} (h : Below tree scope r p) (hc : c ∈ builtChildren tree scope p) :
      Below tree scope r c

namespace Below

variable {r n : Nat}

theorem le (h : Below tree scope r n) : r ≤ n := by
  induction h with
  | self => exact Nat.le_refl r
  | child _ hc ih => exact Nat.le_of_lt (Nat.lt_of_le_of_lt ih (lt_of_mem_builtChildren hc).1)

theorem aliasOf (hr : (tree.node r).aliasOf = none) (h : Below tree scope r n) :
    (tree.node n).aliasOf = none := by
  cases h with
  | self => exact hr
  | child _ hc => exact (mem_nodes_of_mem_builtChildren hc).2

theorem mem_nodes (hr : r ∈ scope.nodes) (h : Below tree scope r n) : n ∈ scope.nodes := by
  cases h with
  | self => exact hr
  | child _ hc => exact (mem_nodes_of_mem_builtChildren hc).1

theorem head {c : Nat} (hc : c ∈ builtChildren tree scope r) (h : Below tree scope c n) :
    Below tree scope r n := by
  induction h with
  | self => exact .child .self hc
  | child _ hd ih => exact .child ih hd

/-- A node below two others puts one of them below the other. -/
theorem comparable (ht : tree.WellFormed) {s : Nat} (hr : (tree.node r).aliasOf = none)
    (hs : (tree.node s).aliasOf = none) (h : Below tree scope r n) (h' : Below tree scope s n) :
    Below tree scope r s ∨ Below tree scope s r := by
  induction h with
  | self => exact Or.inr h'
  | child h hc ih =>
    cases h' with
    | self => exact Or.inl (.child h hc)
    | child h' hc' =>
      have hp := parent_of_mem_builtChildren ht (h.aliasOf hr) hc
      have hp' := parent_of_mem_builtChildren ht (h'.aliasOf hs) hc'
      obtain rfl := Option.some.inj (hp.symm.trans hp')
      exact ih h'

/-- No node is below its sibling. -/
theorem eq_of_parent_eq (ht : tree.WellFormed) {s p : Nat}
    (hr : (tree.node r).aliasOf = none) (hrp : (tree.node r).parent = some p)
    (hsp : (tree.node s).parent = some p) (h : Below tree scope r s) : r = s := by
  cases h with
  | self => rfl
  | child h hc =>
    have hp := parent_of_mem_builtChildren ht (h.aliasOf hr) hc
    obtain rfl := Option.some.inj (hsp.symm.trans hp)
    have hle := h.le
    have hlt := (ht.parent_lt hrp).2.2.1
    omega

end Below

theorem mem_order_branch_self (r : Nat) : r ∈ (branch tree scope r).order := by
  rw [order_branch]
  simp

theorem sublist_orderOf (tree : Tree) (scope : Scope) (ids : List Nat) :
    ids.Sublist (orderOf tree scope ids) := by
  induction ids with
  | nil => exact .slnil
  | cons id ids ih =>
    exact (List.singleton_sublist.mpr (mem_order_branch_self id)).append ih

/-- A branch has the children of its nodes. -/
theorem mem_order_branch_child {r p c : Nat} (hp : p ∈ (branch tree scope r).order)
    (hc : c ∈ builtChildren tree scope p) : c ∈ (branch tree scope r).order := by
  induction r using branch.induct tree scope with
  | case1 r ih =>
    rw [order_branch, List.mem_append, mem_orderOf] at hp ⊢
    rcases hp with ⟨d, hd, hp⟩ | hp
    · exact Or.inl ⟨d, hd, ih d hd hp⟩
    · obtain rfl := List.mem_singleton.mp hp
      exact Or.inl ⟨c, hc, mem_order_branch_self c⟩

/-- A branch has the nodes below its top. -/
theorem mem_order_branch {r n : Nat} :
    n ∈ (branch tree scope r).order ↔ Below tree scope r n := by
  constructor
  · intro h
    induction r using branch.induct tree scope with
    | case1 r ih =>
      rw [order_branch, List.mem_append, mem_orderOf] at h
      rcases h with ⟨c, hc, hn⟩ | h
      · exact (ih c hc hn).head hc
      · rw [List.mem_singleton.mp h]
        exact .self
  · intro h
    induction h with
    | self => exact mem_order_branch_self r
    | child _ hc ih => exact mem_order_branch_child ih hc

/-! ## Each node once -/

/-- The branches of siblings have no node in common. -/
theorem nodup_orderOf (ht : tree.WellFormed) {cs : List Nat} {p : Nat} (hcs : cs.Nodup)
    (hnone : ∀ c ∈ cs, (tree.node c).aliasOf = none)
    (hparent : ∀ c ∈ cs, (tree.node c).parent = some p)
    (hnodup : ∀ c ∈ cs, (branch tree scope c).order.Nodup) :
    (orderOf tree scope cs).Nodup := by
  rw [orderOf, List.nodup_flatMap]
  refine ⟨hnodup, hcs.imp_of_mem fun {c d} hc hd hne => ?_⟩
  intro n hn hn'
  rw [mem_order_branch] at hn hn'
  rcases hn.comparable ht (hnone c hc) (hnone d hd) hn' with h | h
  · exact hne (h.eq_of_parent_eq ht (hnone c hc) (hparent c hc) (hparent d hd))
  · exact hne (h.eq_of_parent_eq ht (hnone d hd) (hparent d hd) (hparent c hc)).symm

theorem nodup_order_branch (ht : tree.WellFormed) {r : Nat} (hr : (tree.node r).aliasOf = none) :
    (branch tree scope r).order.Nodup := by
  induction r using branch.induct tree scope with
  | case1 r ih =>
    rw [order_branch, List.nodup_append]
    refine ⟨?_, by simp, ?_⟩
    · exact nodup_orderOf ht (nodup_builtChildren ht hr)
        (fun c hc => (mem_nodes_of_mem_builtChildren hc).2)
        (fun c hc => parent_of_mem_builtChildren ht hr hc)
        (fun c hc => ih c hc (mem_nodes_of_mem_builtChildren hc).2)
    · rintro n hn _ hr' rfl
      obtain ⟨c, hc, hbelow⟩ := mem_orderOf.mp hn
      obtain rfl := List.mem_singleton.mp hr'
      have hle := (mem_order_branch.mp hbelow).le
      have hlt := (lt_of_mem_builtChildren hc).1
      omega

/-- The roots of a scope are its nodes at the top. -/
theorem mem_commands (hs : scope.Rooted tree) {n : Nat} :
    n ∈ scope.commands ↔ n ∈ scope.nodes ∧ (tree.node n).parent = some 0 := by
  rw [hs.commands, List.mem_filter, beq_iff_eq]

/-- Each node of a rooted scope is below one of its top-level commands. -/
theorem exists_below (ht : tree.WellFormed) (hs : scope.Rooted tree) {n : Nat}
    (hn : n ∈ scope.nodes) : ∃ r ∈ scope.commands, Below tree scope r n := by
  induction n using Nat.strongRecOn with
  | ind n ih =>
    obtain ⟨p, hp, hmem⟩ := hs.parent hn
    rcases hmem with rfl | hmem
    · exact ⟨n, (mem_commands hs).mpr ⟨hn, hp⟩, .self⟩
    · obtain ⟨r, hr, h⟩ := ih p (ht.parent_lt hp).2.2.1 hmem
      exact ⟨r, hr, .child h (mem_builtChildren_of_parent ht hs hn hp)⟩

/-- The order in which the nodes of a scope are built. -/
def buildOrder (tree : Tree) (scope : Scope) : List Nat :=
  orderOf tree scope scope.commands

/-- No node is built twice. -/
theorem nodup_buildOrder (ht : tree.WellFormed) (hs : scope.Rooted tree) :
    (buildOrder tree scope).Nodup := by
  have hmem : ∀ {r}, r ∈ scope.commands → r ∈ scope.nodes ∧ (tree.node r).parent = some 0 :=
    (mem_commands hs).mp
  refine nodup_orderOf ht ?_ (fun r hr => hs.aliasOf (hmem hr).1)
    (fun r hr => (hmem hr).2) (fun r hr => nodup_order_branch ht (hs.aliasOf (hmem hr).1))
  rw [hs.commands]
  exact hs.nodup.filter _

/-- The forest of a rooted scope has each node of the scope once. -/
theorem perm_nodes (ht : tree.WellFormed) (hs : scope.Rooted tree) :
    (buildOrder tree scope).Perm scope.nodes := by
  rw [List.perm_ext_iff_of_nodup (nodup_buildOrder ht hs) hs.nodup]
  intro n
  rw [buildOrder, mem_orderOf]
  constructor
  · rintro ⟨r, hr, hn⟩
    exact (mem_order_branch.mp hn).mem_nodes ((mem_commands hs).mp hr).1
  · intro hn
    obtain ⟨r, hr, h⟩ := exists_below ht hs hn
    exact ⟨r, hr, mem_order_branch.mpr h⟩

/-! ## The shape of a branch -/

/-- The branch has the shape of the tree below its top, cut down to the scope. -/
inductive Follows (tree : Tree) (scope : Scope) : Branch → Prop
  | node {id : Nat} {children : List Branch}
      (order : children.map Branch.id = ((tree.node id).children.map (·.2)).filter fun c =>
        !(tree.node c).isAlias && scope.contains c)
      (parent : ∀ c ∈ scope.nodes, c ∈ children.map Branch.id ↔ (tree.node c).parent = some id)
      (below : ∀ b ∈ children, Follows tree scope b) : Follows tree scope (.node id children)

/-- A branch follows the tree. -/
theorem follows_branch (ht : tree.WellFormed) (hs : scope.Rooted tree) {r : Nat}
    (hr : (tree.node r).aliasOf = none) : Follows tree scope (branch tree scope r) := by
  induction r using branch.induct tree scope with
  | case1 r ih =>
    rw [branch_eq]
    have hids : ((builtChildren tree scope r).map (branch tree scope)).map Branch.id =
        builtChildren tree scope r := by
      simp [Function.comp_def]
    refine .node ?_ ?_ ?_
    · rw [hids, builtChildren_eq_filter ht hr]
      rfl
    · intro c hc
      rw [hids]
      exact ⟨parent_of_mem_builtChildren ht hr, mem_builtChildren_of_parent ht hs hc⟩
    · intro b hb
      obtain ⟨c, hc, rfl⟩ := List.mem_map.mp hb
      exact ih c hc (mem_nodes_of_mem_builtChildren hc).2

end CommandTree.Factory
