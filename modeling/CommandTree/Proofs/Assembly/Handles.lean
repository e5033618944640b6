import CommandTree.Proofs.Assembly.Reached

/-!
# Bindings that are stored twice

A binding stands in the list of all bindings, and its place there is a *handle* on the node that it
names. Both are written when an element is bound, and nothing else writes to either
(`Step.bindings_cases`). So the handles on a node are the places of its bindings, in the order of
binding (`Filed`), and what is read through them is what the list says (`Reached.handles_agree`).
-/

namespace CommandTree

/-! ## Handles -/

/-- The places of a node's bindings in the list of all bindings. -/
def Binding.handles (bindings : List Binding) (node : Nat) : List Nat :=
  (List.range bindings.length).filter fun i => (bindings[i]?).any (·.node == node)

namespace Binding

theorem mem_handles {bindings : List Binding} {node i : Nat} :
    i ∈ handles bindings node ↔ ∃ b, bindings[i]? = some b ∧ b.node = node := by
  rw [handles, List.mem_filter, List.mem_range, Option.any_eq_true]
  simp only [beq_iff_eq]
  refine ⟨And.right, fun h => ⟨?_, h⟩⟩
  obtain ⟨b, hb, -⟩ := h
  exact (List.getElem?_eq_some_iff.mp hb).1

theorem nodup_handles (bindings : List Binding) (node : Nat) : (handles bindings node).Nodup :=
  List.nodup_range.filter _

/-- The handle of a new binding is the last one of its node. -/
theorem handles_concat (bindings : List Binding) (b : Binding) (node : Nat) :
    handles (bindings ++ [b]) node =
      handles bindings node ++ if node = b.node then [bindings.length] else [] := by
  have hold : ∀ i ∈ List.range bindings.length,
      ((bindings ++ [b])[i]?).any (·.node == node) = (bindings[i]?).any (·.node == node) := by
    intro i hi
    rw [List.getElem?_append_left (List.mem_range.mp hi)]
  unfold handles
  rw [List.length_append, List.length_singleton, List.range_succ, List.filter_append,
    List.filter_congr hold]
  by_cases hnode : node = b.node
  · simp [hnode]
  · simp [hnode, Ne.symm hnode]

end Binding

namespace Environment

variable {env env' : Environment}

/-! ## What a step does to them -/

/-- Each node has the handles of its bindings, and no alias entry has a binding. -/
structure Filed (env : Environment) : Prop where
  handles : ∀ n, (env.tree.node n).bindings = Binding.handles env.bindings n
  aliasOf : ∀ b ∈ env.bindings, (env.tree.node b.node).aliasOf = none

theorem Filed.empty : empty.Filed := by
  constructor <;> simp [Environment.empty, Tree.node_empty, Node.root, Binding.handles]

/-- A new binding is filed under its node. -/
theorem Filed.bind (h : env.Filed) (henv : env.WellFormed) {node : Nat}
    (hlt : node < env.tree.size) (role : Role) (site : Element) :
    (env.bind node role site).Filed := by
  have hnone := henv.tree.aliasOf_primary node
  have hlt' := henv.tree.primary_lt hlt
  constructor
  case handles =>
    intro n
    unfold Environment.bind
    dsimp only
    rw [Tree.bindings_bind hlt' hnone, Binding.handles_concat, h.handles]
  case aliasOf =>
    intro b hb
    have hext := Tree.extends_bind env.tree (env.tree.primary node) env.bindings.length
    have hb' : b ∈ env.bindings ∨ b = ⟨env.tree.primary node, role, site⟩ := by
      simpa [Environment.bind] using hb
    change ((env.tree.bind _ _).node b.node).aliasOf = none
    rcases hb' with hb | rfl
    · rw [hext.aliasOf (henv.bound_lt hb), h.aliasOf b hb]
    · rw [hext.aliasOf hlt', hnone]

/-- A step leaves the bindings and the handles as they are, unless it binds an element. -/
theorem Step.bindings_cases (h : Step env env') (henv : env.WellFormed) :
    (env'.bindings = env.bindings ∧
      ∀ n, (env'.tree.node n).bindings = (env.tree.node n).bindings) ∨
    ∃ node role site, node < env.tree.size ∧ env' = env.bind node role site := by
  cases h with
  | remember _ => exact Or.inl ⟨rfl, fun _ => rfl⟩
  | report _ _ => exact Or.inl ⟨rfl, fun _ => rfl⟩
  | insert h _ => exact Or.inl ⟨rfl, (Tree.grafted_insert henv.tree h).bindings h⟩
  | merge id info => exact Or.inl ⟨rfl, env.tree.bindings_mergeArgument id info⟩
  | pushEntry h hid _ => exact Or.inl ⟨rfl, (Tree.grafted_pushEntry henv.tree h hid).bindings h⟩
  | enterScope _ _ _ => exact Or.inl ⟨rfl, fun _ => rfl⟩
  | bind role h => exact Or.inr ⟨_, role, _, (henv.lt_of_inScope h).2, rfl⟩

/-- A step keeps all bindings filed. -/
theorem Step.filed (h : Step env env') (henv : env.WellFormed) (hfiled : env.Filed) :
    env'.Filed := by
  have hext := (h.extends henv).tree
  rcases h.bindings_cases henv with ⟨hbindings, hhandles⟩ | ⟨node, role, site, hlt, rfl⟩
  · refine ⟨fun n => ?_, fun b hb => ?_⟩
    · rw [hhandles, hbindings, hfiled.handles]
    · rw [hbindings] at hb
      rw [hext.aliasOf (henv.bound_lt hb), hfiled.aliasOf b hb]
  · exact hfiled.bind henv hlt role site

theorem Steps.filed (h : env.Steps env') (henv : env.WellFormed) (hfiled : env.Filed) :
    env'.Filed := by
  induction h with
  | refl => exact hfiled
  | tail hsteps hstep ih => exact hstep.filed (Steps.wellFormed hsteps henv) ih

/-- In an environment that calls have reached all bindings are filed. -/
theorem Reached.filed (h : Reached env) : env.Filed := by
  induction h with
  | empty => exact .empty
  | declare h names ds ih =>
    have hwf := h.orderly.toWellFormed
    exact (declare_steps names hwf ds).filed hwf ih
  | bind h hnode role site ih => exact ih.bind h.orderly.toWellFormed hnode role site
  | report _ d ih => exact ⟨ih.handles, ih.aliasOf⟩

/-! ## What is read through them -/

/-- What is stored on the nodes agrees with the list of all bindings. -/
structure HandlesAgree (env : Environment) : Prop where
  /-- Every handle leads to a binding. -/
  handle_lt : ∀ {n i}, i ∈ (env.tree.node n).bindings → i < env.bindings.length
  /-- An alias entry has no handles. -/
  entry : ∀ {n}, (env.tree.node n).isAlias = true → (env.tree.node n).bindings = []
  /-- The bindings on a node are those of the list that name the node it stands for. -/
  bindingsOf : ∀ n, env.bindingsOf n = env.bindings.filter (·.node == env.tree.primary n)
  /-- A binding is stored once, on the node that it names, which is there. -/
  once : ∀ {i b}, env.bindings[i]? = some b →
    b.node < env.tree.size ∧
      ∀ n, (env.tree.node n).bindings.count i = if n = b.node then 1 else 0
  /-- The binding for a role is the first of the list that has the role on the node. -/
  bindingFor : ∀ n role, env.bindingFor n role =
    env.bindings.find? fun b => b.node == env.tree.primary n && b.role == role

/-- A binding is filed once, and under its own node. -/
theorem Filed.count (h : env.Filed) {i : Nat} {b : Binding} (hb : env.bindings[i]? = some b)
    (n : Nat) : (env.tree.node n).bindings.count i = if n = b.node then 1 else 0 := by
  have hmem : i ∈ Binding.handles env.bindings n ↔ n = b.node := by
    rw [Binding.mem_handles, hb]
    simp [eq_comm]
  rw [h.handles, (Binding.nodup_handles _ _).count]
  exact if_congr hmem rfl rfl

/-- Nothing is filed under an alias entry. -/
theorem Filed.bindings_of_isAlias (h : env.Filed) {n : Nat}
    (hn : (env.tree.node n).isAlias = true) : (env.tree.node n).bindings = [] := by
  rw [h.handles, List.eq_nil_iff_forall_not_mem]
  intro i hi
  obtain ⟨b, hb, rfl⟩ := Binding.mem_handles.mp hi
  have hnone := h.aliasOf b (List.mem_of_getElem? hb)
  simp [Node.isAlias, hnone] at hn

/-- In an environment that is reached, what is stored on the nodes agrees with the list of all
bindings. -/
theorem Reached.handles_agree (h : Reached env) : env.HandlesAgree where
  handle_lt := h.orderly.handle_lt
  entry := h.filed.bindings_of_isAlias
  bindingsOf := h.orderly.toWellFormed.bindingsOf_eq_filter
  once := fun hb => ⟨h.orderly.bound_lt (List.mem_of_getElem? hb), h.filed.count hb⟩
  bindingFor := fun n role => by
    rw [Environment.bindingFor, h.orderly.toWellFormed.bindingsOf_eq_filter, List.find?_filter]
    simp only [Bool.decide_and, Bool.decide_eq_true]

/-- Elements are bound to the root, to a literal through its alias entry, and to the literal. -/
def boundThroughAlias : Environment :=
  (shortTeleport.bind 2 .requirement (.ofType "Guard")).bind 1 .requirement (.ofType "Guard")

theorem boundThroughAlias_handles_agree :
    (boundThroughAlias.tree.node 0).bindings = [0] ∧
      (boundThroughAlias.tree.node 1).bindings = [1, 2] ∧
      (boundThroughAlias.tree.node 2).isAlias = true ∧ boundThroughAlias.HandlesAgree := by
  have hroot : (boundThroughAlias.tree.node 0).bindings = [0] := by decide +kernel
  have hliteral : (boundThroughAlias.tree.node 1).bindings = [1, 2] := by decide +kernel
  have hentry : (boundThroughAlias.tree.node 2).isAlias = true := by decide +kernel
  have hreached : boundThroughAlias.Reached :=
    .bind (.bind (.report (.bind (.declare .empty {} _) (by decide +kernel) .execution _) _)
      (by decide +kernel) .requirement _) (by decide +kernel) .requirement _
  exact ⟨hroot, hliteral, hentry, hreached.handles_agree⟩

end Environment

end CommandTree
