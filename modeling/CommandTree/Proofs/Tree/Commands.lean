import CommandTree.Proofs.Tree.WellFormed

/-!
# The commands of a tree

The commands of a tree are its nodes but the root and the alias entries. Only `insert` makes a new
one, and it comes last (`commands_insert`). The children of a node stand in the order in which they
were made (`Ordered`).
-/

namespace CommandTree.Tree

/-- The commands are the nodes that are neither the root nor alias entries. -/
theorem mem_commands {t : Tree} {id : Nat} :
    id ∈ t.commands ↔ 0 < id ∧ id < t.size ∧ (t.node id).aliasOf = none := by
  simp only [commands, List.mem_filter, List.mem_range, Node.isAlias]
  grind [Option.isSome_iff_ne_none]

/-- The commands of a tree depend only on which nodes are alias entries. -/
theorem commands_congr {t t' : Tree} (hsize : t'.size = t.size)
    (h : ∀ id, (t'.node id).aliasOf = (t.node id).aliasOf) : t'.commands = t.commands := by
  simp only [commands, Node.isAlias, hsize, h]

theorem commands_mergeArgument (t : Tree) (id : Nat) (info : ArgumentInfo) :
    (t.mergeArgument id info).1.commands = t.commands :=
  commands_congr (by simp) fun n => (sameLinks_mergeArgument t id info n).aliasOf

theorem sameLinks_bind (t : Tree) (id binding n : Nat) :
    SameLinks (t.node n) ((t.bind id binding).node n) := by
  refine sameLinks_modify ?_ n
  exact fun _ => ⟨rfl, rfl, rfl, rfl, rfl, rfl⟩

theorem commands_bind (t : Tree) (id binding : Nat) : (t.bind id binding).commands = t.commands :=
  commands_congr (size_modify _ _ _) fun n => (sameLinks_bind t id binding n).aliasOf

theorem commands_attach (t : Tree) (parent child : Nat) :
    (t.attach parent child).commands = t.commands := by
  refine commands_congr (size_attach t parent child) fun id => ?_
  rw [node_attach_primary]
  split <;> rfl

/-- A new node is the last command, unless it is the root or an alias entry. -/
theorem commands_push (t : Tree) (new : Node) :
    (t.push new).commands =
      if t.size = 0 ∨ new.isAlias = true then t.commands else t.commands ++ [t.size] := by
  have hold : ((List.range t.size).filter fun id => id != 0 && !((t.push new).node id).isAlias) =
      t.commands :=
    List.filter_congr fun id hid => by
      rw [node_push, if_neg (Nat.ne_of_lt (List.mem_range.mp hid))]
  rw [commands, size_push, List.range_succ, List.filter_append, hold]
  cases hsize : t.size <;> cases halias : new.isAlias <;>
    simp [List.filter, node_push, hsize, halias]

/-- A new command comes last. -/
theorem commands_insert {t : Tree} (ht : t.WellFormed) (parent : Nat) (identity : Identity)
    (detail : Detail) (origin : Option Element) :
    (t.insert parent identity detail origin).commands = t.commands ++ [t.size] := by
  have hroot := ht.root_lt
  rw [insert, commands_attach, commands_push, if_neg]
  rintro (hsize | halias)
  · omega
  · cases halias

/-- An alias entry is no command. -/
theorem commands_pushEntry (t : Tree) (id parent : Nat) (word : String) :
    (t.pushEntry id parent word).commands = t.commands := by
  have hmodify : (t.enlist id parent word).commands =
      (t.push (t.aliasEntry id parent word)).commands := by
    refine commands_congr (size_modify _ _ _) fun n => ?_
    rw [enlist, node_modify]
    split <;> rfl
  rw [pushEntry_eq, commands_attach, hmodify, commands_push]
  exact if_pos (Or.inr rfl)

/-! ## The order of children -/

/-- The children of a node stand in the order of creation. -/
def Ordered (t : Tree) : Prop :=
  ∀ p, ((t.node p).children.map (·.2)).Pairwise (· < ·)

theorem Ordered.empty : empty.Ordered := by
  simp [Ordered, node_empty, Node.root]

/-- A new child is newer than all others. -/
theorem Ordered.of_grafted {t t' : Tree} (ht : t.Ordered) (hwf : t.WellFormed) {parent : Nat}
    {new : Node} (hnew : t.Graftable parent new) (h : t.Grafted parent new t') : t'.Ordered := by
  intro p
  by_cases hsize : p = t.size
  · rw [hsize, h.node_size]
    rcases hnew.stands with ⟨-, hnil⟩ | ⟨id, -, -, -, -, hchildren⟩
    · simp [hnil]
    · rw [hchildren]
      exact ht id
  · by_cases hs : t.Shares parent p
    · rw [h.children_of_shares hsize hs, List.map_append, List.pairwise_append]
      refine ⟨ht parent, by simp, ?_⟩
      rintro a ha b hb
      obtain ⟨e, he, rfl⟩ := List.mem_map.mp ha
      rw [List.mem_singleton.mp hb]
      exact hwf.lt_of_mem_children he
    · rw [h.children_of_not_shares hsize hs]
      exact ht p

theorem Ordered.of_sameLinks {t t' : Tree} (ht : t.Ordered)
    (h : ∀ id, SameLinks (t.node id) (t'.node id)) : t'.Ordered := by
  intro p
  rw [(h p).children]
  exact ht p

end CommandTree.Tree
