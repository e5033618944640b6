import CommandTree.Environment

/-!
# The part of a tree that a factory builds

A factory builds the nodes of its scope. `branch` cuts the tree below a node down to them:
children keep their order, and alias entries and nodes of other scopes are left out. A child
is always made after its parent, which is why this ends.
-/

namespace CommandTree.Factory

/-- A node with the children that are built for it. -/
inductive Branch
  | node (id : Nat) (children : List Branch)

/-- A child is built if it is no alias entry and the scope has it. -/
def isBuilt (tree : Tree) (scope : Scope) (child : Nat) : Bool :=
  !(tree.node child).isAlias && scope.contains child

/-- The children that are built for a node. -/
def builtChildren (tree : Tree) (scope : Scope) (id : Nat) : List Nat :=
  ((tree.node id).children.map (·.2)).filter fun child =>
    isBuilt tree scope child && id < child && child < tree.size

/-- The children that are built come behind their parent, so that building ends. -/
theorem lt_of_mem_builtChildren {tree : Tree} {scope : Scope} {id child : Nat}
    (h : child ∈ builtChildren tree scope id) : id < child ∧ child < tree.size := by
  unfold builtChildren at h
  rw [List.mem_filter] at h
  obtain ⟨-, h⟩ := h
  simp only [Bool.and_eq_true, decide_eq_true_eq] at h
  exact ⟨h.1.2, h.2⟩

/-- The part of the tree below a node that the scope has. -/
def branch (tree : Tree) (scope : Scope) (id : Nat) : Branch :=
  .node id ((builtChildren tree scope id).attach.map fun ⟨child, h⟩ =>
    have : tree.size - child < tree.size - id := by
      have hlt := lt_of_mem_builtChildren h
      omega
    branch tree scope child)
termination_by tree.size - id

end CommandTree.Factory
