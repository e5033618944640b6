import CommandTree.Proofs.Assembly.Origins
import CommandTree.Proofs.Lints

/-!
# Which leaves are reported as unexecuted

A command is *idle* (`Idle`) if it is the parent of no other command and nothing is bound to execute
it. The lint asks for the children of a command instead, alias entries among them. In a well-formed
tree this comes to the same, since an alias entry never stands without its command
(`children_eq_nil_iff`).

The lint passes over a command without an origin. There is none: each command was made by one of the
declarations. So each idle command is reported once, in the order of creation, to the element of the
declaration that made it (`unexecuted_idle`).
-/

namespace CommandTree

/-- A node that is no alias entry has no children exactly if it is the parent of no node that is
none either. -/
theorem Tree.WellFormed.children_eq_nil_iff {t : Tree} (ht : t.WellFormed) {n : Nat}
    (hn : (t.node n).aliasOf = none) :
    (t.node n).children = [] ↔
      ∀ m < t.size, (t.node m).aliasOf = none → (t.node m).parent ≠ some n := by
  constructor
  · intro hnil m _ _ hparent
    have hlisted := ht.listed hparent
    simp [hnil] at hlisted
  · intro h
    refine List.eq_nil_iff_forall_not_mem.mpr fun ⟨identity, child⟩ hmem => ?_
    obtain ⟨hlt, -, hparent⟩ := ht.child hn hmem
    refine h (t.primary child) (ht.primary_lt hlt) (ht.aliasOf_primary child) ?_
    rw [ht.parent_primary, hparent]

/-- What a list is mapped to in part belongs to the members that it is mapped from. -/
theorem forall₂_filter_filterMap {α β : Type} {R : α → β → Prop} {p : α → Bool}
    {f : α → Option β} {as : List α}
    (h : ∀ a ∈ as, if p a then ∃ b, f a = some b ∧ R a b else f a = none) :
    List.Forall₂ R (as.filter p) (as.filterMap f) := by
  induction as with
  | nil => exact .nil
  | cons a as ih =>
    rw [List.forall_mem_cons] at h
    have hrest := ih h.2
    cases hp : p a with
    | true =>
      obtain ⟨b, hb, hR⟩ : ∃ b, f a = some b ∧ R a b := by simpa [hp] using h.1
      rw [List.filter_cons_of_pos hp, List.filterMap_cons_some hb]
      exact .cons hR hrest
    | false =>
      have hnone : f a = none := by simpa [hp] using h.1
      rw [List.filter_cons_of_neg (by simp [hp]), List.filterMap_cons_none hnone]
      exact hrest

namespace Environment

variable {env : Environment} {n : Nat}

/-- A command that is no parent of a command and that nothing is bound to execute. -/
structure Idle (env : Environment) (n : Nat) : Prop where
  pos : 0 < n
  lt : n < env.tree.size
  aliasOf : (env.tree.node n).aliasOf = none
  leaf : ∀ m < env.tree.size, (env.tree.node m).aliasOf = none →
    (env.tree.node m).parent ≠ some n
  unexecuted : ∀ b ∈ env.bindings, b.node = n → b.role ≠ .execution

/-- What the lint asks of a command. -/
def isIdle (env : Environment) (n : Nat) : Bool :=
  (env.tree.node n).children.isEmpty && (env.bindingFor n .execution).isNone

theorem bindingFor_eq_none (henv : env.WellFormed) (hn : (env.tree.node n).aliasOf = none)
    (role : Role) :
    env.bindingFor n role = none ↔ ∀ b ∈ env.bindings, b.node = n → b.role ≠ role := by
  simp only [bindingFor, List.find?_eq_none, henv.mem_bindingsOf hn, beq_iff_eq]
  grind

/-- The leaves that nothing executes are those that the lint looks for. -/
theorem idle_iff (henv : env.WellFormed) :
    env.Idle n ↔ n ∈ env.tree.commands ∧ env.isIdle n = true := by
  constructor
  · intro h
    refine ⟨Tree.mem_commands.mpr ⟨h.pos, h.lt, h.aliasOf⟩, ?_⟩
    rw [isIdle, (henv.tree.children_eq_nil_iff h.aliasOf).mpr h.leaf,
      (bindingFor_eq_none henv h.aliasOf _).mpr h.unexecuted]
    rfl
  · rintro ⟨hn, hidle⟩
    obtain ⟨hpos, hlt, hnone⟩ := Tree.mem_commands.mp hn
    rw [isIdle, Bool.and_eq_true, List.isEmpty_iff, Option.isNone_iff_eq_none] at hidle
    exact ⟨hpos, hlt, hnone, (henv.tree.children_eq_nil_iff hnone).mp hidle.1,
      (bindingFor_eq_none henv hnone _).mp hidle.2⟩

/-- The warning of an idle command, to the element of the declaration that made it. -/
def idleWarning (env : Environment) (d : Declaration) (n : Nat) : Diagnostic where
  kind := .unexecuted
  severity := .warning
  site := d.element
  message := "\"" ++ env.tree.path n ++ "\" is a leaf but has no execution bound"

/-- A leaf that nothing executes is warned of where it was declared. -/
theorem checkLeaf_eq {d : Declaration} (h : (env.tree.node n).origin = some d.element) :
    Lint.checkLeaf env n = if env.isIdle n then some (env.idleWarning d n) else none := by
  unfold Lint.checkLeaf
  dsimp only
  rw [h]
  rfl

/-- After any calls the lint warns of each idle command once, in the order of creation, and of
nothing else. -/
theorem unexecuted_idle (calls : List (TypeNames × List Declaration)) :
    ∃ idle : List Nat, idle.Pairwise (· < ·) ∧
      (∀ n, n ∈ idle ↔ (empty.declareAll calls).Idle n) ∧
      List.Forall₂
        (fun n w => ∃ before d, (before, d) ∈ empty.allTurns calls ∧ before.Makes d n ∧
          w = (empty.declareAll calls).idleWarning d n)
        idle (Lint.unexecuted (empty.declareAll calls)) := by
  have henv := (declareAll_steps .empty calls).wellFormed .empty
  refine ⟨(empty.declareAll calls).tree.commands.filter (empty.declareAll calls).isIdle,
    (List.pairwise_lt_range.filter _).filter _, fun n => ?_, forall₂_filter_filterMap ?_⟩
  · rw [List.mem_filter, idle_iff henv]
  · intro n hn
    obtain ⟨⟨before, d⟩, hturn, hmakes, horigin⟩ :=
      (exists_turn .empty hn).resolve_left (by simp [Environment.empty, Tree.commands])
    rw [checkLeaf_eq horigin]
    split
    · exact ⟨_, rfl, before, d, hturn, hmakes, rfl⟩
    · rfl

-- a subcommand is declared and another one is executed through the alias of their parent
example :
    let run : Element := { owner := some "Teleport", name := "run", kind := .method }
    let home : Element := { owner := some "Home", name := "go", kind := .method }
    (Lint.unexecuted (empty.declareAll
      [({}, [⟨run, .literal ["teleport"] ["tp"]⟩, ⟨run, .command "teleport here"⟩,
        ⟨run, .bind "tp here"⟩]), ({}, [⟨home, .command "tp home"⟩])])).map
      (fun w => (w.site, w.message)) =
        [(home, "\"teleport home\" is a leaf but has no execution bound")] := by
  decide +kernel

end Environment

end CommandTree
