import CommandTree.Lint
import CommandTree.Proofs.Factory.Building
import CommandTree.Proofs.Tree.Commands
import Mathlib.Data.List.Nodup

/-!
# What the lints report as errors

Each lint is free of errors exactly if the environment is free of a flaw: a role of a node that is
bound twice (`duplicateBinding_hasErrors`), a bound element that is not public and immutable
(`publicFinal_hasErrors`), an argument without a type in a scope or a binding on a literal that
only an argument can have (`argumentType_hasErrors`). The lint for leaves gives no errors.

The third lint looks at identities and the flat list of bindings, and generation at details and
what is bound to one node. In a sound environment they find the same nodes (`buildable_iff`).
-/

namespace CommandTree

namespace Diagnostic

theorem hasErrors_iff {ds : List Diagnostic} :
    hasErrors ds = true ↔ ∃ d ∈ ds, d.severity = .error := by
  simp [hasErrors, isError]

theorem hasErrors_eq_false {ds : List Diagnostic} :
    hasErrors ds = false ↔ ∀ d ∈ ds, d.severity ≠ .error := by
  simp [hasErrors, isError]

theorem hasErrors_append (ds ds' : List Diagnostic) :
    hasErrors (ds ++ ds') = (hasErrors ds || hasErrors ds') :=
  List.any_append

theorem hasErrors_flatMap {α : Type} {as : List α} {f : α → List Diagnostic} :
    hasErrors (as.flatMap f) = false ↔ ∀ a ∈ as, hasErrors (f a) = false := by
  simp only [hasErrors_eq_false, List.mem_flatMap]
  grind

end Diagnostic

open Diagnostic (hasErrors hasErrors_append hasErrors_flatMap)

namespace Environment

/-- No role of a node is bound twice. -/
def BoundOnce (env : Environment) : Prop :=
  (env.bindings.map fun b => (b.node, b.role)).Nodup

variable {env : Environment}

/-- Elements are bound to commands. -/
theorem Sound.mem_commands_of_bound (henv : env.Sound) {b : Binding} (hb : b ∈ env.bindings) :
    b.node ∈ env.tree.commands := by
  have hin := henv.sited hb
  obtain ⟨hpos, hlt⟩ := henv.lt_of_inScope hin
  exact Tree.mem_commands.mpr ⟨hpos, hlt, henv.aliasOf_of_inScope hin⟩

end Environment

namespace Lint

variable {env : Environment}

/-! ## One binding for each role -/

theorem mem_all (role : Role) : role ∈ Role.all := by
  cases role <;> decide

theorem length_boundAs (henv : env.WellFormed) {node : Nat}
    (hnode : (env.tree.node node).aliasOf = none) (role : Role) :
    (boundAs env node role).length =
      (env.bindings.map fun b => (b.node, b.role)).count (node, role) := by
  rw [boundAs, henv.bindingsOf_eq_filter, Tree.primary_of_aliasOf_eq_none hnode,
    List.filter_filter, ← List.countP_eq_length_filter, List.count, List.countP_map]
  refine List.countP_congr fun b _ => ?_
  simp [and_comm]

/-- A role of a node is no error if it is bound at most once. -/
theorem hasErrors_duplicatesOf (node : Nat) (role : Role) :
    hasErrors (duplicatesOf env node role) = false ↔ (boundAs env node role).length ≤ 1 := by
  unfold duplicatesOf
  by_cases h : (boundAs env node role).length < 2
  · simp only [h, if_true]
    exact iff_of_true rfl (by omega)
  · obtain ⟨b, hb⟩ : ∃ b, b ∈ boundAs env node role :=
      List.exists_mem_of_length_pos (by omega)
    simp only [h, if_false]
    refine iff_of_false (fun hno => ?_) (by omega)
    exact Diagnostic.hasErrors_eq_false.mp hno _ (List.mem_map_of_mem hb) rfl

/-- No binding is repeated exactly if each role of each node is bound at most once. -/
theorem duplicateBinding_hasErrors (henv : env.Sound) :
    hasErrors (duplicateBinding env) = false ↔ env.BoundOnce := by
  have hcommands : ∀ {node}, node ∈ env.tree.commands → (env.tree.node node).aliasOf = none :=
    fun h => (Tree.mem_commands.mp h).2.2
  rw [Environment.BoundOnce, List.nodup_iff_count_le_one]
  simp only [duplicateBinding, hasErrors_flatMap, hasErrors_duplicatesOf]
  constructor
  · rintro h ⟨node, role⟩
    by_contra hcount
    have hmem : (node, role) ∈ env.bindings.map fun b => (b.node, b.role) :=
      List.count_pos_iff.mp (by omega)
    obtain ⟨b, hb, heq⟩ := List.mem_map.mp hmem
    obtain ⟨rfl, rfl⟩ := Prod.mk.inj heq
    have hnode := henv.mem_commands_of_bound hb
    have hle := h b.node hnode b.role (mem_all _)
    rw [length_boundAs henv.toWellFormed (hcommands hnode)] at hle
    exact hcount hle
  · intro h node hnode role _
    rw [length_boundAs henv.toWellFormed (hcommands hnode)]
    exact h (node, role)

/-! ## Public and immutable elements -/

theorem mem_distinct {α : Type} [DecidableEq α] {a : α} :
    ∀ {seen l : List α}, a ∈ distinct seen l ↔ a ∈ l ∧ a ∉ seen
  | seen, [] => by simp [distinct]
  | seen, b :: l => by
    rw [distinct]
    split
    · rw [mem_distinct]
      grind
    · rw [List.mem_cons, mem_distinct]
      grind

/-- No element is hidden exactly if all bound elements are public and final. -/
theorem publicFinal_hasErrors :
    hasErrors (publicFinal env) = false ↔ ∀ b ∈ env.bindings, b.site.isPublicFinal = true := by
  rw [Diagnostic.hasErrors_eq_false, publicFinal]
  constructor
  · intro h b hb
    by_contra hnot
    refine h (modifierDiagnostic b.site) (List.mem_map_of_mem (mem_distinct.mpr ⟨?_, by simp⟩)) rfl
    exact List.mem_filter.mpr ⟨List.mem_map_of_mem hb, by simpa using hnot⟩
  · intro h d hd
    obtain ⟨site, hsite, -⟩ := List.mem_map.mp hd
    obtain ⟨hsite, hnot⟩ := List.mem_filter.mp (mem_distinct.mp hsite).1
    obtain ⟨b, hb, rfl⟩ := List.mem_map.mp hsite
    simp [h b hb] at hnot

/-! ## Types of arguments -/

/-- A type's scope binds no type to a node if none of its elements does. -/
theorem boundType_eq_none (henv : env.WellFormed) {s : Scope} (hs : s ∈ env.scopes) {n : Nat}
    (hn : n ∈ s.nodes) : boundType env s.name n = none ↔
      ¬∃ b ∈ env.bindings, b.node = n ∧ b.role = .type ∧ b.site.scope = s.name := by
  simp only [boundType, List.find?_eq_none, henv.mem_bindingsOf ((henv.rooted hs).aliasOf hn),
    Bool.and_eq_true, beq_iff_eq]
  grind

/-- A node is reported exactly if it is an argument without a type. -/
theorem hasErrors_checkType (henv : env.WellFormed) {s : Scope} (hs : s ∈ env.scopes) {n : Nat}
    (hn : n ∈ s.nodes) : hasErrors (checkType env s n) = false ↔
      ((env.tree.node n).identity.kind = .argument → env.Typed s n) := by
  obtain ⟨hpos, hlt⟩ := henv.node_lt hs hn
  rcases henv.tree.detail_cases hpos hlt with ⟨hdetail, hkind⟩ | ⟨info, hdetail, hkind⟩
  · simp [checkType, hdetail, hkind, hasErrors]
  · have hdeclared : (env.tree.node n).declaredType = info.type := by
      simp [Node.declaredType, hdetail]
    have hbound := not_iff_not.mpr (boundType_eq_none henv hs hn)
    rw [not_not] at hbound
    rw [Environment.Typed, ← hbound, hdeclared, hkind, checkType, hdetail]
    cases htype : info.type <;> cases boundType env s.name n <;>
      simp [hasErrors, Diagnostic.isError, Diagnostic.ofError, Diagnostic.ofWarning, htype]

theorem hasErrors_checkPlace (b : Binding) :
    hasErrors (checkPlace env b) = false ↔ ¬env.Misplaced b := by
  unfold checkPlace Environment.Misplaced
  split
  next h => exact iff_of_false (fun hno => Bool.noConfusion hno) (by simpa using h)
  next h => exact iff_of_true rfl (by simpa using h)

/-- No type is missing or misplaced exactly if each argument of a scope has a type there and no
binding is in the wrong place. -/
theorem argumentType_hasErrors (henv : env.WellFormed) :
    hasErrors (argumentType env) = false ↔
      (∀ s ∈ env.scopes, ∀ n ∈ s.nodes,
        (env.tree.node n).identity.kind = .argument → env.Typed s n) ∧
      ∀ b ∈ env.bindings, ¬env.Misplaced b := by
  rw [argumentType, hasErrors_append, Bool.or_eq_false_iff]
  simp only [hasErrors_flatMap, hasErrors_checkPlace]
  refine and_congr_left fun _ => forall₂_congr fun s hs => forall₂_congr fun n hn => ?_
  exact hasErrors_checkType henv hs hn

/-- The lint reports an error exactly if there is a node that cannot be built. -/
theorem buildable_iff (henv : env.Sound) :
    (∀ s ∈ env.scopes, ∀ n ∈ s.nodes, Factory.fault? env s n = none) ↔
      hasErrors (argumentType env) = false := by
  have hwf := henv.toWellFormed
  rw [argumentType_hasErrors hwf]
  constructor
  · intro h
    refine ⟨fun s hs n hn => ((Factory.fault?_eq_none hwf hs hn).mp (h s hs n hn)).1, ?_⟩
    intro b hb
    obtain ⟨s, hs, hname, hn⟩ := henv.sited hb
    exact ((Factory.fault?_eq_none hwf hs hn).mp (h s hs _ hn)).2 b hb rfl hname.symm
  · rintro ⟨htyped, hplaced⟩ s hs n hn
    exact (Factory.fault?_eq_none hwf hs hn).mpr
      ⟨htyped s hs n hn, fun b hb _ _ => hplaced b hb⟩

/-! ## All lints -/

theorem spec_of_mem_unexecuted {d : Diagnostic} (h : d ∈ unexecuted env) :
    d.kind = .unexecuted ∧ d.severity = .warning := by
  obtain ⟨n, -, hn⟩ := List.mem_filterMap.mp h
  unfold checkLeaf at hn
  dsimp only at hn
  split at hn
  · obtain ⟨site, -, rfl⟩ := Option.map_eq_some_iff.mp hn
    exact ⟨rfl, rfl⟩
  · cases hn

/-- Leaves that nothing executes are no error. -/
theorem unexecuted_hasErrors : hasErrors (unexecuted env) = false := by
  rw [Diagnostic.hasErrors_eq_false]
  intro d hd
  simp [(spec_of_mem_unexecuted hd).2]

theorem run_all (env : Environment) :
    run all env =
      duplicateBinding env ++ (publicFinal env ++ (argumentType env ++ unexecuted env)) := by
  simp [run, all]

/-- The lints find no error exactly if each of them finds none. -/
theorem run_hasErrors (henv : env.Sound) :
    hasErrors (run all env) = false ↔
      env.BoundOnce ∧ (∀ b ∈ env.bindings, b.site.isPublicFinal = true) ∧
        hasErrors (argumentType env) = false := by
  rw [run_all, hasErrors_append, hasErrors_append, hasErrors_append, unexecuted_hasErrors,
    Bool.or_false, Bool.or_eq_false_iff, Bool.or_eq_false_iff, duplicateBinding_hasErrors henv,
    publicFinal_hasErrors]

theorem kind_of_mem_duplicateBinding {d : Diagnostic} (h : d ∈ duplicateBinding env) :
    d.kind = .duplicateBinding := by
  simp only [duplicateBinding, List.mem_flatMap, duplicatesOf] at h
  obtain ⟨n, -, role, -, h⟩ := h
  split at h
  · cases h
  · obtain ⟨b, -, rfl⟩ := List.mem_map.mp h
    rfl

theorem kind_of_mem_checkType {s : Scope} {n : Nat} {d : Diagnostic} (h : d ∈ checkType env s n) :
    d.kind = .missingType ∨ d.kind = .invalidBinding := by
  unfold checkType at h
  split at h
  · split at h
    · rw [List.mem_singleton.mp h]
      exact Or.inl rfl
    · rw [List.mem_singleton.mp h]
      exact Or.inr rfl
    · cases h
  · cases h

theorem kind_of_mem_argumentType {d : Diagnostic} (h : d ∈ argumentType env) :
    d.kind = .missingType ∨ d.kind = .invalidBinding := by
  rcases List.mem_append.mp h with h | h
  · obtain ⟨s, -, h⟩ := List.mem_flatMap.mp h
    obtain ⟨n, -, h⟩ := List.mem_flatMap.mp h
    exact kind_of_mem_checkType h
  · obtain ⟨b, -, h⟩ := List.mem_flatMap.mp h
    unfold checkPlace at h
    split at h
    · rw [List.mem_singleton.mp h]
      exact Or.inr rfl
    · cases h

/-- No lint speaks of a generation that failed. -/
theorem kind_of_mem_run {d : Diagnostic} (h : d ∈ run all env) : d.kind ≠ .internal := by
  rw [run_all, List.mem_append, List.mem_append, List.mem_append] at h
  rcases h with h | h | h | h
  · simp [kind_of_mem_duplicateBinding h]
  · obtain ⟨site, -, rfl⟩ := List.mem_map.mp h
    simp [modifierDiagnostic, Diagnostic.ofError]
  · rcases kind_of_mem_argumentType h with h | h <;> simp [h]
  · simp [(spec_of_mem_unexecuted h).1]

end Lint

end CommandTree
