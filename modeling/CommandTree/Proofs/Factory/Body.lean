import CommandTree.Proofs.Factory.Emission
import Mathlib.Data.List.Perm.Basic

/-!
# The statements of a factory

Which statements the body of a scope's factory has, read off its closed form: for each node of the
scope one that builds it, one that hangs each of its children under it, and for each top-level
command one that puts it into the result. So each variable is defined once (`defined_bodyOf`) and
moved once (`moved_bodyOf`).
-/

namespace CommandTree.Factory

/-- The variable that a statement defines. -/
def Statement.defined? : Statement → Option Nat
  | .build v _ _ _ => some v
  | _ => none

/-- The variable that a statement moves. -/
def Statement.moved? : Statement → Option Nat
  | .build _ _ _ _ => none
  | .addChild _ child => some child
  | .insert v => some v

@[simp] theorem Statement.defined?_rename (var : Nat → Nat) (st : Statement) :
    (st.rename var).defined? = st.defined?.map var := by
  cases st <;> rfl

@[simp] theorem Statement.moved?_rename (var : Nat → Nat) (st : Statement) :
    (st.rename var).moved? = st.moved?.map var := by
  cases st <;> rfl

variable {env : Environment} {s : Scope}

/-! ## Membership -/

/-- The statements for some roots are those of the nodes below them, and the roots are put into the
result. -/
theorem mem_forestScript {ids : List Nat} {st : Statement} :
    st ∈ forestScript env s ids ↔
      (∃ n ∈ orderOf env.tree s ids, st ∈ statementsOf env s n) ∨ ∃ id ∈ ids, st = .insert id := by
  simp only [forestScript, script, orderOf, List.mem_flatMap, List.mem_append, List.mem_singleton]
  constructor
  · rintro ⟨id, hid, ⟨n, hn, hst⟩ | rfl⟩
    · exact Or.inl ⟨n, ⟨id, hid, hn⟩, hst⟩
    · exact Or.inr ⟨id, hid, rfl⟩
  · rintro (⟨n, ⟨id, hid, hn⟩, hst⟩ | ⟨id, hid, rfl⟩)
    · exact ⟨id, hid, Or.inl ⟨n, hn, hst⟩⟩
    · exact ⟨id, hid, Or.inr rfl⟩

/-- What a factory builds. -/
theorem build_mem_bodyOf {v : Nat} {mutable : Bool} {builder : Builder} {calls : List Call} :
    .build v mutable builder calls ∈ bodyOf env s ↔
      ∃ n ∈ buildOrder env.tree s, v = varOf env.tree s n ∧
        mutable = !(builtChildren env.tree s n).isEmpty ∧ (builder, calls) = plan env s n := by
  simp only [bodyOf, List.mem_map, mem_forestScript, statementsOf, List.mem_cons]
  constructor
  · rintro ⟨st, (⟨n, hn, rfl | ⟨child, -, rfl⟩⟩ | ⟨id, -, rfl⟩), heq⟩
    · simp only [Statement.rename, Statement.build.injEq] at heq
      obtain ⟨rfl, rfl, rfl, rfl⟩ := heq
      exact ⟨n, hn, rfl, rfl, rfl⟩
    · cases heq
    · cases heq
  · rintro ⟨n, hn, rfl, rfl, heq⟩
    exact ⟨_, Or.inl ⟨n, hn, Or.inl rfl⟩, by simp [Statement.rename, ← heq]⟩

/-- What a factory hangs under its nodes. -/
theorem addChild_mem_bodyOf {p c : Nat} :
    .addChild p c ∈ bodyOf env s ↔
      ∃ n ∈ buildOrder env.tree s, ∃ child ∈ builtChildren env.tree s n,
        p = varOf env.tree s n ∧ c = varOf env.tree s child := by
  simp only [bodyOf, List.mem_map, mem_forestScript, statementsOf, List.mem_cons]
  constructor
  · rintro ⟨st, (⟨n, hn, rfl | ⟨child, hchild, rfl⟩⟩ | ⟨id, -, rfl⟩), heq⟩
    · cases heq
    · cases heq
      exact ⟨n, hn, child, hchild, rfl, rfl⟩
    · cases heq
  · rintro ⟨n, hn, child, hchild, rfl, rfl⟩
    exact ⟨_, Or.inl ⟨n, hn, Or.inr ⟨child, hchild, rfl⟩⟩, rfl⟩

/-- What a factory puts into its result. -/
theorem insert_mem_bodyOf {v : Nat} :
    .insert v ∈ bodyOf env s ↔ ∃ r ∈ s.commands, v = varOf env.tree s r := by
  simp only [bodyOf, List.mem_map, mem_forestScript, statementsOf, List.mem_cons]
  constructor
  · rintro ⟨st, (⟨n, hn, rfl | ⟨child, hchild, rfl⟩⟩ | ⟨r, hr, rfl⟩), heq⟩
    · cases heq
    · cases heq
    · cases heq
      exact ⟨r, hr, rfl⟩
  · rintro ⟨r, hr, rfl⟩
    exact ⟨_, Or.inr ⟨r, hr, rfl⟩, rfl⟩

/-- Different nodes have different variables. -/
theorem varOf_inj {n m : Nat} (hn : n ∈ buildOrder env.tree s)
    (h : varOf env.tree s n = varOf env.tree s m) : n = m :=
  (List.idxOf_inj hn).mp h

/-- A variable may change exactly if a child is added to it. -/
theorem mutable_iff {v : Nat} {mutable : Bool} {builder : Builder} {calls : List Call}
    (h : .build v mutable builder calls ∈ bodyOf env s) :
    mutable = true ↔ ∃ c, .addChild v c ∈ bodyOf env s := by
  obtain ⟨n, hn, rfl, rfl, -⟩ := build_mem_bodyOf.mp h
  constructor
  · intro hne
    obtain ⟨child, hchild⟩ := List.exists_mem_of_ne_nil _ (by simpa using hne)
    exact ⟨_, addChild_mem_bodyOf.mpr ⟨n, hn, child, hchild, rfl, rfl⟩⟩
  · rintro ⟨c, hc⟩
    obtain ⟨m, -, child, hchild, heq, -⟩ := addChild_mem_bodyOf.mp hc
    obtain rfl := varOf_inj hn heq
    simpa using List.ne_nil_of_mem hchild

/-! ## Definitions and moves -/

theorem defined_script (id : Nat) :
    (script env s id).filterMap Statement.defined? = (branch env.tree s id).order := by
  have hnode : ∀ n, (statementsOf env s n).filterMap Statement.defined? = [n] := by
    intro n
    simp [statementsOf, Statement.defined?, List.filterMap_map]
  simp [script, List.filterMap_flatMap, hnode]

/-- The nodes are defined in the order of building. -/
theorem defined_bodyOf :
    (bodyOf env s).filterMap Statement.defined? =
      (buildOrder env.tree s).map (varOf env.tree s) := by
  have hinsert : ∀ id, [Statement.insert id].filterMap Statement.defined? = [] := fun _ => rfl
  have hforest : (forestScript env s s.commands).filterMap Statement.defined? =
      buildOrder env.tree s := by
    simp [forestScript, List.filterMap_flatMap, List.filterMap_append, defined_script, hinsert,
      buildOrder, orderOf]
  rw [bodyOf, List.filterMap_map, ← hforest, List.map_filterMap]
  simp

/-- A script moves the children of each node. -/
theorem moved_script (id : Nat) :
    (script env s id).filterMap Statement.moved? =
      (branch env.tree s id).order.flatMap (builtChildren env.tree s) := by
  have hnode : ∀ n, (statementsOf env s n).filterMap Statement.moved? =
      builtChildren env.tree s n := by
    intro n
    rw [statementsOf, List.filterMap_cons_none rfl, List.filterMap_map]
    exact List.filterMap_some
  simp [script, List.filterMap_flatMap, hnode]

/-- The nodes of a branch are the children of its nodes, and its top. -/
theorem children_perm_order (id : Nat) :
    ((branch env.tree s id).order.flatMap (builtChildren env.tree s) ++ [id]).Perm
      (branch env.tree s id).order := by
  induction id using branch.induct env.tree s with
  | case1 id ih =>
    rw [order_branch, List.flatMap_append, List.flatMap_singleton]
    refine List.Perm.append_right [id] ?_
    calc (orderOf env.tree s (builtChildren env.tree s id)).flatMap (builtChildren env.tree s) ++
          builtChildren env.tree s id
        = (builtChildren env.tree s id).flatMap (fun c =>
            (branch env.tree s c).order.flatMap (builtChildren env.tree s)) ++
          (builtChildren env.tree s id).flatMap fun c => [c] := by
          rw [orderOf, List.flatMap_assoc, List.flatMap_singleton']
      _ |>.Perm ((builtChildren env.tree s id).flatMap fun c =>
            (branch env.tree s c).order.flatMap (builtChildren env.tree s) ++ [c]) :=
          List.flatMap_append_perm _ _ _
      _ |>.Perm (orderOf env.tree s (builtChildren env.tree s id)) :=
          List.Perm.flatMap_left _ ih

/-- Each variable that is defined is moved once. -/
theorem moved_bodyOf :
    ((bodyOf env s).filterMap Statement.moved?).Perm
      ((bodyOf env s).filterMap Statement.defined?) := by
  have hinsert : ∀ id, [Statement.insert id].filterMap Statement.moved? = [id] := fun _ => rfl
  have hforest : ((forestScript env s s.commands).filterMap Statement.moved?).Perm
      (buildOrder env.tree s) := by
    rw [forestScript, List.filterMap_flatMap]
    refine List.Perm.flatMap_left _ fun id _ => ?_
    rw [List.filterMap_append, moved_script, hinsert]
    exact children_perm_order id
  rw [defined_bodyOf, bodyOf, List.filterMap_map]
  simpa [List.map_filterMap] using hforest.map (varOf env.tree s)

theorem nodup_defined_bodyOf (henv : env.WellFormed) (hs : s ∈ env.scopes) :
    ((bodyOf env s).filterMap Statement.defined?).Nodup := by
  rw [defined_bodyOf]
  exact (nodup_buildOrder henv.tree (henv.rooted hs)).map_on fun _ hn _ _ h => varOf_inj hn h

end CommandTree.Factory
